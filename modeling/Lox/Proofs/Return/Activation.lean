/-
Activations. Here a `return` is an exception: it is thrown where it stands, and
whoever runs the body of the function catches it. Nothing in between has to pass
it on. The statements that an activation enters, the conditions that it tests and
the values that it returns are written down in their order; the functions that it
calls have activations of their own, and what happens in these is not written
down here.

An observer may stop an activation whenever it enters a statement, and the
evaluator whenever it enters a node. That the two agree under every observer says
that both enter the same statements on the same machines.
-/
import Lox.Proofs.Lockstep.Simulation
import Lox.Proofs.Lockstep.Watch

namespace Lox

open Lockstep (run_bind_ok run_bind_error)

/-- What happens in an activation. -/
inductive Event where
  | entered (s : Stmt)
  | tested (condition : Expr)
  | returned (value : Value)

/-- How an activation is left before the end of its body. -/
inductive Leave where
  | back (value : Value)
  | stopped (stop : Stop)

structure Activation where
  machine : Machine
  /-- What has happened so far. -/
  events : List Event

/-- A computation of an activation. -/
abbrev Unwinding := EStateM Leave Activation

namespace Unwinding

variable {α : Type}

/-- Evaluation inside an activation. -/
def eval (x : Eval α) : Unwinding α := fun a =>
  match x a.machine with
  | .ok value m => .ok value { a with machine := m }
  | .error stop m => .error (.stopped stop) { a with machine := m }

def log (event : Event) : Unwinding Unit := fun a =>
  .ok () { a with events := a.events ++ [event] }

/-- A `return` leaves everything there is around it in the activation. -/
def back (value : Value) : Unwinding α := do
  log (.returned value)
  throw (.back value)

/-- However a block or a body is left, the frame around it is current again. -/
def inNewFrame (enclosing : FrameId) (bindings : Bindings Value) (x : Unwinding α) :
    Unwinding α := fun a =>
  let outer := a.machine.scope
  let inside : Machine := { a.machine with
    heap := a.machine.heap.addFrame enclosing bindings, scope := a.machine.heap.scopes.next }
  match x { a with machine := inside } with
  | .ok value b => .ok value { b with machine := { b.machine with scope := outer } }
  | .error leave b => .error leave { b with machine := { b.machine with scope := outer } }

/-- An observer may object to a statement that is about to be entered. -/
def observed (check : Check) (alarm : Stop) (s : Stmt) (x : Unwinding α) : Unwinding α := fun a =>
  if check (.statement s) a.machine then x a else .error (.stopped alarm) a

variable (check : Check) (alarm : Stop)

mutual

/-- Performs a statement. Expressions, and statements that have no statements inside, are left to the
evaluator. -/
def perform (fuel room : Nat) (s : Stmt) : Unwinding Unit :=
  match fuel with
  | 0 => eval (Eval.stop .exhausted)
  | fuel + 1 => observed check alarm s do
    log (.entered s)
    eval (Eval.noteStatement s)
    match s with
    | .block _ body => do
      let frame ← eval Eval.scope
      inNewFrame frame .empty (body.forM (perform fuel room))
    | .ifThen _ condition thenBranch => do
      log (.tested condition)
      let v ← eval ((Eval.watchedRunner check alarm fuel).evaluate room condition)
      if v.isTruthy then perform fuel room thenBranch else pure ()
    | .ifElse _ condition thenBranch elseBranch => do
      log (.tested condition)
      let v ← eval ((Eval.watchedRunner check alarm fuel).evaluate room condition)
      if v.isTruthy then perform fuel room thenBranch else perform fuel room elseBranch
    | .whileLoop _ condition body => performWhile fuel room condition body
    | .returnStmt _ _ none => back .nil
    | .returnStmt _ _ (some e) => do
      let v ← eval ((Eval.watchedRunner check alarm fuel).evaluate room e)
      back v
    | .expression .. | .print .. | .varDecl .. | .funDecl _ | .classDecl .. => do
      let _ ← eval (Eval.performNode (Eval.watchedRunner check alarm fuel) room s)
      pure ()

/-- Performs a body as long as a condition holds. -/
def performWhile (fuel room : Nat) (condition : Expr) (body : Stmt) : Unwinding Unit :=
  match fuel with
  | 0 => eval (Eval.stop .exhausted)
  | fuel + 1 => do
    log (.tested condition)
    let v ← eval ((Eval.watchedRunner check alarm fuel).evaluate room condition)
    if v.isTruthy then
      perform fuel room body
      performWhile fuel room condition body
    else pure ()

end

/-- The activation of a function. -/
def activate (fuel room : Nat) (c : Closure) (arguments : List Value) : Unwinding Unit :=
  inNewFrame c.scope (Eval.bindParameters c.declaration.params arguments .empty)
    (c.declaration.body.forM (perform check alarm fuel room))

end Unwinding

-- ================================================================= agreement

/-- Events among which there is no return. -/
def Quiet (events : List Event) : Prop := ∀ value, .returned value ∉ events

theorem Quiet.nil : Quiet [] := nofun

theorem Quiet.append {a b : List Event} (ha : Quiet a) (hb : Quiet b) : Quiet (a ++ b) :=
  fun value h => (List.mem_append.1 h).elim (ha value) (hb value)

/-- An activation that has gone on for a while, and the evaluator: both at the end of a statement, both
with the same value on its way to the caller, which is then all that has been returned and the
last that has happened, or both stopped. -/
inductive Together (before : List Event) :
    EStateM.Result Leave Activation Unit → EStateM.Result Stop Machine Completion → Prop
  | ended {m : Machine} {events : List Event} (quiet : Quiet events) :
      Together before (.ok () ⟨m, before ++ events⟩) (.ok .normal m)
  | returned {m : Machine} {events : List Event} {value : Value} (quiet : Quiet events) :
      Together before (.error (.back value) ⟨m, before ++ (events ++ [.returned value])⟩)
        (.ok (.returned value) m)
  | stopped {m : Machine} {events : List Event} {stop : Stop} (quiet : Quiet events) :
      Together before (.error (.stopped stop) ⟨m, before ++ events⟩) (.error stop m)

/-- Exceptions and completions agree. -/
def Agree (x : Unwinding Unit) (y : Eval Completion) : Prop :=
  ∀ m before, Together before (x ⟨m, before⟩) (y m)

/-- Only values of some kind are returned. -/
def Yields (allowed : Value → Prop) (y : Eval Completion) : Prop :=
  ∀ m value m', y m = .ok (.returned value) m' → allowed value

namespace Yields

variable {α : Type} {allowed allowed' : Value → Prop} {y : Eval Completion}

theorem normal : Yields allowed (pure .normal) := by
  intro m value m' h
  cases h

theorem returned {value : Value} (h : allowed value) : Yields allowed (pure (.returned value)) := by
  intro m value' m' hrun
  cases hrun
  exact h

theorem stop (s : Stop) : Yields allowed (Eval.stop s) := by
  intro m value m' h
  cases h

theorem bind {x : Eval α} {f : α → Eval Completion} (h : ∀ a, Yields allowed (f a)) :
    Yields allowed (x >>= f) := by
  intro m value m' hrun
  cases hx : x m with
  | ok a k =>
      rw [run_bind_ok hx] at hrun
      exact h a k value m' hrun
  | error s k =>
      rw [run_bind_error hx] at hrun
      cases hrun

/-- What is returned first is returned. -/
theorem next {y' : Eval Completion} (h : Yields allowed y) (h' : Yields allowed y') :
    Yields allowed (do
      match ← y with
      | .normal => y'
      | .returned v => pure (.returned v)) := by
  intro m value m' hrun
  cases hy : y m with
  | error s k =>
      rw [run_bind_error hy] at hrun
      cases hrun
  | ok c k =>
      rw [run_bind_ok hy] at hrun
      cases c with
      | normal => exact h' k value m' hrun
      | returned v =>
          cases hrun
          exact h m _ _ hy

theorem mono (h : Yields allowed y) (hsub : ∀ value, allowed value → allowed' value) :
    Yields allowed' y := fun m value m' hrun => hsub value (h m value m' hrun)

end Yields

/-- What happened without a return is a matter of the past. -/
theorem Together.after {before events : List Event} {r : EStateM.Result Leave Activation Unit}
    {r' : EStateM.Result Stop Machine Completion} (h : Together (before ++ events) r r')
    (quiet : Quiet events) : Together before r r' := by
  cases h with
  | ended more =>
      rw [List.append_assoc]
      exact .ended (quiet.append more)
  | returned more =>
      rw [List.append_assoc, ← List.append_assoc events]
      exact .returned (quiet.append more)
  | stopped more =>
      rw [List.append_assoc]
      exact .stopped (quiet.append more)

namespace Unwinding

variable {α : Type} {x : Unwinding α} {f : α → Unwinding Unit} {a b : Activation}

theorem bind_ok {value : α} (h : x a = .ok value b) : (x >>= f) a = f value b := by
  show EStateM.bind x f a = _
  unfold EStateM.bind
  rw [h]

theorem bind_error {leave : Leave} (h : x a = .error leave b) :
    (x >>= f) a = .error leave b := by
  show EStateM.bind x f a = _
  unfold EStateM.bind
  rw [h]

end Unwinding

namespace Agree

variable {α : Type} {x x' : Unwinding Unit} {y y' : Eval Completion}

theorem done : Agree (pure ()) (pure .normal) := by
  intro m before
  have h : Together before (.ok () ⟨m, before ++ []⟩) (.ok .normal m) := .ended .nil
  rwa [List.append_nil] at h

theorem stop (s : Stop) : Agree (Unwinding.eval (Eval.stop s)) (Eval.stop s) := by
  intro m before
  have h : Together before (.error (.stopped s) ⟨m, before ++ []⟩) (.error s m) := .stopped .nil
  rwa [List.append_nil] at h

/-- A value on its way. -/
theorem back (value : Value) : Agree (Unwinding.back value) (pure (.returned value)) := by
  intro m before
  exact @Together.returned before m [] value .nil

/-- An event that is no return. -/
theorem log {event : Event} (quiet : Quiet [event]) (h : Agree x y) :
    Agree (do Unwinding.log event; x) y := by
  intro m before
  exact (h m (before ++ [event])).after quiet

/-- Both evaluate the same, and go on. -/
theorem eval {e : Eval α} {f : α → Unwinding Unit} {g : α → Eval Completion}
    (h : ∀ a, Agree (f a) (g a)) : Agree (Unwinding.eval e >>= f) (e >>= g) := by
  intro m before
  cases he : e m with
  | ok a k =>
      have hx : Unwinding.eval e ⟨m, before⟩ = .ok a ⟨k, before⟩ := by
        unfold Unwinding.eval
        rw [he]
      rw [Unwinding.bind_ok hx, run_bind_ok he]
      exact h a k before
  | error s k =>
      have hx : Unwinding.eval e ⟨m, before⟩ = .error (.stopped s) ⟨k, before⟩ := by
        unfold Unwinding.eval
        rw [he]
      rw [Unwinding.bind_error hx, run_bind_error he]
      have hstop := stop s k before
      exact hstop

/-- A statement and what follows it: an exception passes by what follows, and so does a completion
that the evaluator passes on by hand. -/
theorem next (h : Agree x y) (h' : Agree x' y') :
    Agree (do x; x') (do
      match ← y with
      | .normal => y'
      | .returned v => pure (.returned v)) := by
  intro m before
  have hfirst := h m before
  generalize hx : x ⟨m, before⟩ = r at hfirst
  generalize hy : y m = r' at hfirst
  cases hfirst with
  | ended quiet =>
      rw [Unwinding.bind_ok hx, run_bind_ok hy]
      exact (h' _ _).after quiet
  | returned quiet =>
      rw [Unwinding.bind_error hx, run_bind_ok hy]
      exact .returned quiet
  | stopped quiet =>
      rw [Unwinding.bind_error hx, run_bind_error hy]
      exact .stopped quiet

/-- A run inside a new frame. -/
theorem inNewFrame_eq (outer : FrameId) (bindings : Bindings Value) (y : Eval α) (m : Machine) :
    Eval.inNewFrame outer bindings y m
      = match y { m with
          heap := m.heap.addFrame outer bindings, scope := m.heap.scopes.next } with
        | .ok a k => .ok a { k with scope := m.scope }
        | .error s k => .error s { k with scope := m.scope } := rfl

theorem inNewFrame (outer : FrameId) (bindings : Bindings Value) (h : Agree x y) :
    Agree (Unwinding.inNewFrame outer bindings x) (Eval.inNewFrame outer bindings y) := by
  intro m before
  have hinside := h { m with
    heap := m.heap.addFrame outer bindings, scope := m.heap.scopes.next } before
  unfold Unwinding.inNewFrame
  dsimp only
  rw [inNewFrame_eq]
  generalize x _ = r at hinside ⊢
  generalize y _ = r' at hinside ⊢
  cases hinside with
  | ended quiet => exact .ended quiet
  | returned quiet => exact .returned quiet
  | stopped quiet => exact .stopped quiet

theorem observed {check : Check} {alarm : Stop} {s : Stmt} (h : Agree x y) :
    Agree (Unwinding.observed check alarm s x)
      (fun m => if check (.statement s) m then y m else .error alarm m) := by
  intro m before
  unfold Unwinding.observed
  dsimp only
  cases check (.statement s) m with
  | true => exact h m before
  | false => exact stop alarm m before

/-- A statement that never returns may be left to the evaluator. -/
theorem simple (h : Yields (fun _ => False) y) :
    Agree (do let _ ← Unwinding.eval y; pure ()) y := by
  intro m before
  cases hy : y m with
  | ok c k =>
      have hc : c = .normal := by
        cases c with
        | normal => rfl
        | returned value => exact (h m value k hy).elim
      subst hc
      have hx : Unwinding.eval y ⟨m, before⟩ = .ok .normal ⟨k, before⟩ := by
        unfold Unwinding.eval
        rw [hy]
      rw [Unwinding.bind_ok hx]
      exact done k before
  | error s k =>
      have hx : Unwinding.eval y ⟨m, before⟩ = .error (.stopped s) ⟨k, before⟩ := by
        unfold Unwinding.eval
        rw [hy]
      rw [Unwinding.bind_error hx]
      exact stop s k before

-- ================================================================ statements

variable {check : Check} {alarm : Stop} {fuel room : Nat}

/-- The statements of a body, one after another. -/
theorem all {run : Runner} {perform : Stmt → Unwinding Unit}
    (h : ∀ s, Agree (perform s) (run.execute room s)) (body : List Stmt) :
    Agree (body.forM perform) (Eval.executeAll run room body) := by
  induction body with
  | nil => exact done
  | cons s rest ih => exact next (h s) ih

/-- A condition is tested, and one of two ways is gone. -/
theorem branch {condition : Expr} {run : Runner} (h : Agree x y) (h' : Agree x' y') :
    Agree (do
        Unwinding.log (.tested condition)
        let v ← Unwinding.eval (run.evaluate room condition)
        if v.isTruthy then x else x')
      (do
        let v ← run.evaluate room condition
        if v.isTruthy then y else y') := by
  refine log (by simp [Quiet]) (eval fun v => ?_)
  cases v.isTruthy with
  | true => exact h
  | false => exact h'

/-- **The evaluator passes completions on as if they were exceptions.** -/
theorem perform (check : Check) (alarm : Stop) (fuel : Nat) :
    (∀ room s, Agree (Unwinding.perform check alarm fuel room s)
        ((Eval.watchedRunner check alarm fuel).execute room s))
      ∧ ∀ room condition body, Agree (Unwinding.performWhile check alarm fuel room condition body)
        ((Eval.watchedRunner check alarm fuel).loop room condition body) := by
  induction fuel with
  | zero => exact ⟨fun _ _ => stop .exhausted, fun _ _ _ => stop .exhausted⟩
  | succ fuel ih =>
      obtain ⟨hexecute, hloop⟩ := ih
      constructor
      · intro room s
        refine observed (log (by simp [Quiet]) (eval fun _ => ?_))
        cases s with
        | block id body =>
            exact eval fun frame => inNewFrame frame .empty (all (hexecute room) body)
        | ifThen id condition thenBranch => exact branch (hexecute room thenBranch) done
        | ifElse id condition thenBranch elseBranch =>
            exact branch (hexecute room thenBranch) (hexecute room elseBranch)
        | whileLoop id condition body => exact hloop room condition body
        | returnStmt id keyword value =>
            cases value with
            | none => exact back .nil
            | some e => exact eval fun v => back v
        | expression id e => exact simple (.bind fun _ => .normal)
        | print id e => exact simple (.bind fun _ => .bind fun _ => .normal)
        | varDecl id name initializer =>
            cases initializer with
            | none => exact simple (.bind fun _ => .normal)
            | some e => exact simple (.bind fun _ => .bind fun _ => .normal)
        | funDecl f => exact simple (.bind fun _ => .bind fun _ => .bind fun _ => .normal)
        | classDecl id name superclass methods => exact simple (.bind fun _ => .normal)
      · intro room condition body
        exact branch (next (hexecute room body) (hloop room condition body)) done

end Agree

-- ====================================================================== calls

/-- How a call ends and what has happened in its activation: it yields the value that was returned,
which was the only one and the last that happened, or nothing was returned and it yields nil. Then
the caller goes on in its own frame. -/
inductive Called (outer : FrameId) :
    EStateM.Result Leave Activation Unit → EStateM.Result Stop Machine Value → Prop
  | ended {m : Machine} {events : List Event} (quiet : Quiet events) (home : m.scope = outer) :
      Called outer (.ok () ⟨m, events⟩) (.ok .nil m)
  | returned {m : Machine} {events : List Event} {value : Value} (quiet : Quiet events)
      (home : m.scope = outer) :
      Called outer (.error (.back value) ⟨m, events ++ [.returned value]⟩) (.ok value m)
  | stopped {m : Machine} {events : List Event} {stop : Stop} (quiet : Quiet events)
      (home : m.scope = outer) :
      Called outer (.error (.stopped stop) ⟨m, events⟩) (.error stop m)

/-- **A call ends where its activation ends.** -/
theorem called_of_not_initializer (check : Check) (alarm : Stop) (fuel room : Nat)
    {f : FunctionId} {c : Closure} {m : Machine} (hc : m.heap.functions[f]? = some c)
    (hplain : c.isInitializer = false) (arguments : List Value) :
    Called m.scope (Unwinding.activate check alarm fuel room c arguments ⟨m, []⟩)
      (Eval.callFunction (Eval.watchedRunner check alarm fuel) (room + 1) f arguments m) := by
  let body : Eval Completion := Eval.inNewFrame c.scope
    (Eval.bindParameters c.declaration.params arguments .empty)
    (Eval.executeAll (Eval.watchedRunner check alarm fuel) room c.declaration.body)
  have hclosure : Eval.closure f m = .ok c m := by
    unfold Eval.closure
    rw [run_bind_ok (show Eval.heap m = .ok m.heap m from rfl), hc]
    rfl
  have hcall : Eval.callFunction (Eval.watchedRunner check alarm fuel) (room + 1) f arguments m
      = (body >>= fun completion => pure completion.value) m := by
    show (Eval.closure f >>= _) m = _
    rw [run_bind_ok hclosure, hplain]
    rfl
  have hagree : Agree (Unwinding.activate check alarm fuel room c arguments) body :=
    .inNewFrame _ _ (.all ((Agree.perform check alarm fuel).1 room) c.declaration.body)
  have htogether := hagree m []
  have hhome : ∀ k, (∃ a, body m = .ok a k) ∨ (∃ s, body m = .error s k) → k.scope = m.scope := by
    intro k hk
    rw [show body m = _ from Agree.inNewFrame_eq _ _ _ m] at hk
    split at hk
    · rcases hk with ⟨_, he⟩ | ⟨_, he⟩ <;> cases he
      rfl
    · rcases hk with ⟨_, he⟩ | ⟨_, he⟩ <;> cases he
      rfl
  rw [hcall]
  generalize Unwinding.activate check alarm fuel room c arguments ⟨m, []⟩ = r at htogether
  generalize hbody : body m = r' at htogether
  cases htogether with
  | ended quiet =>
      rw [run_bind_ok hbody]
      exact .ended quiet (hhome _ (.inl ⟨_, hbody⟩))
  | returned quiet =>
      rw [run_bind_ok hbody]
      exact .returned quiet (hhome _ (.inl ⟨_, hbody⟩))
  | stopped quiet =>
      rw [run_bind_error hbody]
      exact .stopped quiet (hhome _ (.inr ⟨_, hbody⟩))

end Lox
