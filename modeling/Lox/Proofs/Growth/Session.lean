/-
Sessions and the heap. A session may run accepted programs and answer lines, on any
host and however they end; the machine that it leaves behind, and every machine
that one of its runs comes to, is one to which the machine at the start has grown.
-/
import Lox.Proofs.Growth.Tree
import Lox.Proofs.Run.Restored
import Lox.Proofs.Super.Static

namespace Lox

namespace Session

/-- A session in which accepted programs and lines have run, each on a host of its own and each to
whatever end. What was printed may have been taken away between two of them. -/
inductive Lived : Session → Prop
  | start (tracing : Bool) (clock : Float) : Lived (start tracing clock)
  | ran {s s' : Session} {body : List Stmt} (before : Lived s) (accepted : s.Ready body s')
      (host : Host) (fuel room : Nat) :
      Lived { s' with machine := (Eval.interpretOn host fuel room body).left s'.machine }
  | hushed {s : Session} (before : Lived s) : Lived s.hush

/-- The machines of sessions: those left behind, those on which a node is entered, and those to which
it is evaluated or executed from there. -/
inductive Reachable : Machine → Prop
  | left {s : Session} (lived : s.Lived) : Reachable s.machine
  | entered {s s' : Session} {body : List Stmt} {host : Host} {fuel room : Nat} {node : Node}
      {k : Machine} (lived : s.Lived) (accepted : s.Ready body s')
      (passes : Passes host fuel room body s'.machine node k) : Reachable k
  | evaluated {s s' : Session} {body : List Stmt} {host : Host} {fuel room : Nat} {e : Expr}
      {k : Machine} (lived : s.Lived) (accepted : s.Ready body s')
      (passes : Passes host fuel room body s'.machine (.expression e) k) (fuel' room' : Nat) :
      Reachable (((Eval.hostedRunner host fuel').evaluate room' e).left k)
  | executed {s s' : Session} {body : List Stmt} {host : Host} {fuel room : Nat} {statement : Stmt}
      {k : Machine} (lived : s.Lived) (accepted : s.Ready body s')
      (passes : Passes host fuel room body s'.machine (.statement statement) k) (fuel' room' : Nat) :
      Reachable (((Eval.hostedRunner host fuel').execute room' statement).left k)

variable {bodies : List (List Stmt)} {s s' : Session} {body : List Stmt} {k : Machine}

-- ======================================================= accepted programs

/-- A program that is accepted may run. -/
theorem Lived.interpreted (h : s.Lived) {text : List Char} {label : String}
    (accepted : s.Prepares text label body s') (fuel room : Nat) :
    Lived { s' with machine := (Eval.interpret fuel room body).left s'.machine } := by
  have hran := h.ran (.program accepted) .patient fuel room
  rwa [Eval.interpretOn_patient] at hran

/-- A session of accepted programs is one that has lived. -/
theorem History.lived (h : History bodies s) : s.Lived := by
  induction h with
  | start tracing clock => exact .start tracing clock
  | @completed bodies s s' text label body fuel room m before accepted ran ih =>
      have hlived := ih.interpreted accepted fuel room
      rwa [Intact.left_of_ok ran] at hlived
  | @stopped bodies s s' text label body fuel room stop m before accepted ran ih =>
      have hlived := ih.interpreted accepted fuel room
      rwa [Intact.left_of_error ran] at hlived
  | hushed before ih => exact .hushed ih

/-- So are the moments at which accepted programs enter their nodes. -/
theorem Reached.reachable {node : Node} (h : Session.Reached node k) : Reachable k := by
  obtain ⟨bodies, s, s', text, label, body, fuel, room, before, accepted, henters⟩ := h
  exact .entered before.lived (.program accepted) henters.passes

-- ================================================================ the heap

/-- A heap on which nothing has happened is grounded. -/
theorem grounded_initial : Heap.initial.Grounded where
  rooted := Nat.zero_lt_one
  root := rfl
  enclosed frame hframe hne := absurd (Nat.lt_one_iff.1 hframe) hne
  bound frame name value hfound := by
    have hlocal : (Machine.start false 0).heap.scopes.local? frame name = some value := hfound
    obtain ⟨-, -, native, rfl⟩ := Lockstep.native_of_start hlocal
    trivial
  closures _ _ hc := by cases hc
  layered _ _ _ hc := by cases hc
  methods _ _ _ _ hc := by cases hc
  objects _ _ ho := by cases ho

/-- Whatever makes a program ready to run leaves the heap and the current frame alone. -/
theorem Ready.grows (h : s.Ready body s') : s.machine.Grows s'.machine := by
  refine .of_heap ?_ h.heap_eq
  cases h with
  | program accepted =>
      obtain ⟨-, -, trace, hmachine⟩ := Lockstep.prepares_cases accepted
      rw [hmachine]
  | @line read resolved line survey reads resolves =>
      have hread := s.printed?_machine line
      rw [reads] at hread
      obtain ⟨trace, hresolve⟩ := read.resolve_machine body
      rw [resolves] at hresolve
      show resolved.machine.scope = _
      rw [hresolve, ← hread]

/-- What a session leaves behind has come from the heap at the start. -/
theorem Lived.cameFrom (h : s.Lived) : s.machine.CameFrom Heap.initial := by
  induction h with
  | start => exact ⟨grounded_initial, ⟨[], .still⟩, Nat.zero_lt_one⟩
  | ran before accepted host fuel room ih =>
      have hready := ih.later accepted.grows
      exact hready.later (grows_interpretOn hready host fuel room _)
  | hushed before ih => exact ih.later (.of_heap rfl rfl)

theorem cameFrom_of_passes {host : Host} {fuel room : Nat} {node : Node} (lived : s.Lived)
    (accepted : s.Ready body s') (passes : Passes host fuel room body s'.machine node k) :
    k.CameFrom Heap.initial :=
  passes.cameFrom (lived.cameFrom.later accepted.grows)

/-- So does the machine at every moment. -/
theorem Reachable.cameFrom (h : Reachable k) : k.CameFrom Heap.initial := by
  cases h with
  | left lived => exact lived.cameFrom
  | entered lived accepted passes => exact cameFrom_of_passes lived accepted passes
  | @evaluated s s' body host fuel room e k lived accepted passes fuel' room' =>
      have hk := cameFrom_of_passes lived accepted passes
      exact hk.later ((Tends.hosted _ host fuel').evaluate room' e hk).grows
  | @executed s s' body host fuel room statement k lived accepted passes fuel' room' =>
      have hk := cameFrom_of_passes lived accepted passes
      exact hk.later ((Tends.hosted _ host fuel').execute room' statement hk).grows

end Session

end Lox
