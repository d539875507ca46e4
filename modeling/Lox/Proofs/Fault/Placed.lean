/-
Every fault that leaves a run has a place. In whatever session of accepted
programs, the fault points at a token of one of them, and a fault that a native
function has found points at the parenthesis that closes the call of the native,
however many calls lie around it.
-/
import Lox.Proofs.Fault.Blame
import Lox.Proofs.Super.Static

namespace Lox

open Session (Prepares History)

variable {known : List Token} {m : Machine} {bodies : List (List Stmt)} {body : List Stmt}
  {s s' : Session} {text : List Char} {label : String} {fuel room : Nat}

/-- The tokens of all programs of a session. -/
def Session.tokens (bodies : List (List Stmt)) : List Token := bodies.flatMap Stmt.tokensAll

/-- A known program on a known machine. -/
theorem Machine.Known.run (hm : m.Known known)
    (hbody : List.Forall₂ (Stmt.Alike (.within known)) body body) (fuel room : Nat) :
    Accounts known Nothing
      (fun o => Eval.interpretWith (Eval.watchedRunner o.check o.alarm fuel) room body)
      (Eval.interpret fuel room body) m :=
  (Accountable.correspondence known).interpretWith (Accountable.watchedRunner known fuel) hbody m hm

/-- An accepted program is known when its tokens are. -/
theorem known_of_prepares (accepted : s.Prepares text label body s') (hm : s.machine.Known known)
    (htokens : ∀ t ∈ Stmt.tokensAll body, t ∈ known) :
    s'.machine.Known known ∧ List.Forall₂ (Stmt.Alike (.within known)) body body := by
  obtain ⟨-, hclear, trace, hmachine⟩ := Lockstep.prepares_cases accepted
  refine ⟨?_, Stmt.alike_self_all body htokens hclear⟩
  rw [hmachine]
  exact hm

/-- Accepted programs leave a machine behind on which everything is known. -/
theorem known_of_history (h : History bodies s)
    (htokens : ∀ t ∈ Session.tokens bodies, t ∈ known) : s.machine.Known known := by
  induction h with
  | start tracing clock =>
      exact {
        scopes := rfl
        classes := rfl
        objects := rfl
        functions := fun f => by
          have hnone : (Machine.start tracing clock).heap.functions[f]? = none := rfl
          rw [show (Session.start tracing clock).machine.heap.functions[f]? = none from hnone]
          exact .none }
  | @completed bodies s s' text label body fuel room m before accepted ran ih =>
      obtain ⟨hm, hbody⟩ := known_of_prepares accepted
        (ih fun t ht => htokens t (List.mem_append_right _ ht))
        fun t ht => htokens t (List.mem_append_left _ ht)
      have hends := (hm.run hbody fuel room).ends
      rw [ran] at hends
      exact hends
  | @stopped bodies s s' text label body fuel room stop m before accepted ran ih =>
      obtain ⟨hm, hbody⟩ := known_of_prepares accepted
        (ih fun t ht => htokens t (List.mem_append_right _ ht))
        fun t ht => htokens t (List.mem_append_left _ ht)
      have hends := (hm.run hbody fuel room).ends
      rw [ran] at hends
      exact hends.1
  | hushed before ih => exact ih htokens

/-- What a run answers for that starts after accepted programs. -/
theorem accounts_of_prepares (before : History bodies s)
    (accepted : s.Prepares text label body s') (fuel room : Nat) :
    Accounts (Session.tokens (body :: bodies)) Nothing
      (fun o => Eval.interpretWith (Eval.watchedRunner o.check o.alarm fuel) room body)
      (Eval.interpret fuel room body) s'.machine := by
  have hm : s.machine.Known (Session.tokens (body :: bodies)) :=
    known_of_history before fun t ht => List.mem_append_right _ ht
  obtain ⟨hm', hbody⟩ := known_of_prepares accepted hm fun t ht => List.mem_append_left _ ht
  exact hm'.run hbody fuel room

/-- **Every fault has a true place.** In whatever session of accepted programs, a fault that leaves a
run has a token of one of the programs. If it is a native function that has found the fault, the
token closes the call whose callee the native was: the run entered that call, and nothing has
happened since the native gave up. -/
theorem fault_placed (before : History bodies s) (accepted : s.Prepares text label body s')
    {fault : RuntimeFault}
    (ran : Eval.interpret fuel room body s'.machine = .error (.fault fault) m) :
    ∃ token ∈ Session.tokens (body :: bodies), fault.token = some token
      ∧ (fault.cause.native = true →
        ∃ node moment, Enters fuel room body s'.machine node moment
          ∧ NativeFault node moment token fault.cause m) := by
  have hends := (accounts_of_prepares before accepted fuel room).ends
  rw [ran] at hends
  obtain ⟨token, ht, hplace, hnative⟩ := hends.2 fault rfl
  refine ⟨token, ht, hplace, fun hn => ?_⟩
  obtain ⟨node, moment, hnoticed, hcall⟩ := (hnative hn).resolve_left id
  exact ⟨node, moment, enters_of_noticed hnoticed, hcall⟩

/-- What a fresh session, one that keeps no trace, makes of a program that it accepts. -/
theorem Session.prepares_start (hprogram : (readProgram text 1).program = .ok body)
    (hclear : (resolveProgram body).faults = []) (clock : Float) (label : String) :
    (Session.start false clock).Prepares text label body
      ⟨{ Machine.start false clock with distances := (resolveProgram body).distances },
        (readProgram text 1).nextId⟩ := by
  let read : Session := ⟨Machine.start false clock, (readProgram text 1).nextId⟩
  have hread : (Session.start false clock).read text label = (.ok body, read) := by
    unfold Session.read
    dsimp only [Session.start]
    rw [hprogram]
    rfl
  have hresolve : read.resolve body = (.ok (resolveProgram body), read) := by
    unfold Session.resolve
    dsimp only
    rw [hclear]
    rfl
  exact .intro hread hresolve

/-- Whether a fresh session accepts a text and its program ends in some way. -/
def runsTo (text : List Char) (fuel room : Nat)
    (test : EStateM.Result Stop Machine Unit → Bool) : Bool :=
  (readProgram text 1).program.toOption.any fun body =>
    (resolveProgram body).faults.isEmpty && test (Eval.interpret fuel room body
      { Machine.start false 0 with distances := (resolveProgram body).distances })

theorem exists_of_runsTo {test : EStateM.Result Stop Machine Unit → Bool}
    (h : runsTo text fuel room test = true) :
    ∃ body s', (Session.start false 0).Prepares text "" body s'
      ∧ test (Eval.interpret fuel room body s'.machine) = true := by
  unfold runsTo at h
  cases hprogram : (readProgram text 1).program with
  | error faults =>
      rw [hprogram] at h
      cases h
  | ok body =>
      rw [hprogram] at h
      obtain ⟨hclear, htest⟩ := Bool.and_eq_true_iff.mp h
      exact ⟨body, _, Session.prepares_start hprogram (List.isEmpty_iff.mp hclear) 0 "", htest⟩

/-- A program in which a native gives up inside an initializer. -/
def leavingText : List Char :=
  "class A \x7b init() \x7b exit(nil); \x7d \x7d fun f() \x7b return A(); \x7d f();".toList

/-- Whether a run ends with a fault that a native has found. -/
def failsNatively : EStateM.Result Stop Machine Unit → Bool
  | .error (.fault fault) _ => fault.cause.native
  | _ => false

theorem fault_placed_leaving :
    ∃ body s' fault m, (Session.start false 0).Prepares leavingText "" body s'
      ∧ Eval.interpret 60 9 body s'.machine = .error (.fault fault) m
      ∧ ∃ token ∈ Session.tokens [body], fault.token = some token
        ∧ ∃ node moment, Enters 60 9 body s'.machine node moment
          ∧ NativeFault node moment token fault.cause m := by
  have hfails : runsTo leavingText 60 9 failsNatively = true := by decide +kernel
  obtain ⟨body, s', accepted, htest⟩ := exists_of_runsTo hfails
  unfold failsNatively at htest
  split at htest
  · rename_i fault m ran
    obtain ⟨token, ht, hplace, hnative⟩ := fault_placed (.start false 0) accepted ran
    exact ⟨body, s', fault, m, accepted, ran, token, ht, hplace, hnative htest⟩
  · cases htest

end Lox
