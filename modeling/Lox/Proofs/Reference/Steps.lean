/-
The bound on the steps of the reference is no matter: a run that ends does so with
any larger bound alike. One run is another cut short (`Sooner`) if it goes the same
way as long as it has steps; this goes through everything evaluation is put
together from.
-/
import Lox.Proofs.Reference.Evaluate
import Lox.Proofs.Lockstep.Simulation

namespace Lox

/-- A run was cut short. -/
def RanShort {σ α : Type} (result : EStateM.Result Stop σ α) : Prop :=
  ∃ s, result = .error .exhausted s

namespace Reference

open Eval (stop fault anchored settles)
open Lockstep (run_bind_ok run_bind_error)

variable {α β : Type}

/-- Another run goes the same way, unless this one is out of steps. -/
def Sooner (x y : Run α) : Prop := ∀ r, x r = y r ∨ RanShort (x r)

namespace Sooner

theorem same (x : Run α) : Sooner x x := fun _ => .inl rfl

theorem exhausted (y : Run α) : Sooner (stop .exhausted) y := fun r => .inr ⟨r, rfl⟩

theorem trans {x y z : Run α} (h : Sooner x y) (h' : Sooner y z) : Sooner x z := by
  intro r
  rcases h r with he | hshort
  · rw [he]
    exact h' r
  · exact .inr hshort

theorem bind {x y : Run α} {f g : α → Run β} (first : Sooner x y)
    (rest : ∀ a, Sooner (f a) (g a)) : Sooner (x >>= f) (y >>= g) := by
  intro r
  rcases first r with he | ⟨r', hshort⟩
  · cases hy : y r with
    | ok a r' =>
        rw [run_bind_ok (he.trans hy), run_bind_ok hy]
        exact rest a r'
    | error s r' => exact .inl ((run_bind_error (he.trans hy)).trans (run_bind_error hy).symm)
  · exact .inr ⟨r', run_bind_error hshort⟩

/-- One step that both take, and what comes behind it. -/
theorem after (x : Run α) {f g : α → Run β} (rest : ∀ a, Sooner (f a) (g a)) :
    Sooner (x >>= f) (x >>= g) := (same x).bind rest

theorem ite {b : Bool} {x y : Run α} (h : Sooner x y) (z : Run α) :
    Sooner (if b then x else z) (if b then y else z) := by
  cases b with
  | true => exact h
  | false => exact .same _

theorem anchored (token : Token) {x y : Run α} (h : Sooner x y) :
    Sooner (Eval.anchored token x) (Eval.anchored token y) := by
  intro r
  unfold Eval.anchored
  rcases h r with he | ⟨r', hshort⟩
  · rw [he]
    exact .inl rfl
  · rw [hshort]
    exact .inr ⟨r', rfl⟩

end Sooner

/-- One runner has fewer steps than another. -/
structure Runner.Sooner (run run' : Runner) : Prop where
  evaluate (names : Names) (room : Nat) (e : Expr) :
    Reference.Sooner (run.evaluate names room e) (run'.evaluate names room e)
  execute (sight : Sight) (room : Nat) (s : Stmt) :
    Reference.Sooner (run.execute sight room s) (run'.execute sight room s)
  loop (sight : Sight) (room : Nat) (condition : Expr) (body : Stmt) :
    Reference.Sooner (run.loop sight room condition body) (run'.loop sight room condition body)

namespace Sooner

variable {run run' : Runner} (hr : run.Sooner run')
include hr

-- ===================================================================== calls

theorem evaluateAll (names : Names) (room : Nat) (es : List Expr) :
    Sooner (Reference.evaluateAll run names room es) (Reference.evaluateAll run' names room es) := by
  induction es with
  | nil => exact same _
  | cons e rest ih => exact (hr.evaluate names room e).bind fun _ => ih.bind fun _ => same _

theorem executeAll (sight : Sight) (room : Nat) (body : List Stmt) :
    Sooner (Reference.executeAll run sight room body)
      (Reference.executeAll run' sight room body) := by
  induction body generalizing sight with
  | nil => exact same _
  | cons s rest ih =>
      refine (hr.execute sight room s).bind fun (completion, behind) => ?_
      cases completion with
      | normal => exact ih behind
      | returned v => exact same _

theorem callFunction (room : Nat) (f : FunctionId) (arguments : List Value) :
    Sooner (Reference.callFunction run room f arguments)
      (Reference.callFunction run' room f arguments) := by
  cases room with
  | zero => exact same _
  | succ room =>
      refine after _ fun c => bind ?_ fun _ => same _
      exact after _ fun names => executeAll hr ⟨true, names⟩ room c.declaration.body

theorem invoke (room : Nat) (callee : Value) (arguments : List Value) :
    Sooner (Reference.invoke run room callee arguments)
      (Reference.invoke run' room callee arguments) := by
  cases callee with
  | function f => exact callFunction hr room f arguments
  | cls c =>
      refine after _ fun object => after _ fun h => ?_
      cases h.findMethod? c initializerName with
      | none => exact same _
      | some method => exact after _ fun f => (callFunction hr room f arguments).bind fun _ => same _
  | _ => exact same _

-- ===================================================================== nodes

theorem declareClass (sight : Sight) (room : Nat) (name : Token) (superclass : Option NameRef)
    (methods : List FunDecl) :
    Sooner (Reference.declareClass run sight room name superclass methods)
      (Reference.declareClass run' sight room name superclass methods) := by
  cases superclass with
  | none => exact same _
  | some parent =>
      refine bind ?_ fun above => same _
      exact (hr.evaluate sight.names room parent.asExpr).bind fun _ => same _

theorem evaluateNode (names : Names) (room : Nat) (e : Expr) :
    Sooner (Reference.evaluateNode run names room e) (Reference.evaluateNode run' names room e) := by
  cases e with
  | literal | var | this | super => exact same _
  | grouping id inner => exact hr.evaluate names room inner
  | assign id name value => exact (hr.evaluate names room value).bind fun _ => same _
  | unary id operator operand => exact (hr.evaluate names room operand).bind fun _ => same _
  | get id object name => exact (hr.evaluate names room object).bind fun _ => same _
  | binary id left operator right =>
      exact (hr.evaluate names room left).bind fun _ =>
        (hr.evaluate names room right).bind fun _ => same _
  | logical id left operator right =>
      refine (hr.evaluate names room left).bind fun a => ?_
      cases settles operator a with
      | true => exact same _
      | false => exact hr.evaluate names room right
  | call id callee paren arguments =>
      exact (hr.evaluate names room callee).bind fun f => after _ fun _ =>
        (evaluateAll hr names room arguments).bind fun given => after _ fun _ =>
          (invoke hr room f given).anchored paren
  | set id object name value =>
      refine (hr.evaluate names room object).bind fun o => ?_
      cases o with
      | object o => exact (hr.evaluate names room value).bind fun _ => same _
      | _ => exact same _

theorem executeNode (sight : Sight) (room : Nat) (s : Stmt) :
    Sooner (Reference.executeNode run sight room s) (Reference.executeNode run' sight room s) := by
  cases s with
  | expression id e => exact (hr.evaluate sight.names room e).bind fun _ => same _
  | print id e => exact (hr.evaluate sight.names room e).bind fun _ => same _
  | varDecl id name initializer =>
      cases initializer with
      | none => exact same _
      | some e =>
          exact after _ fun (home, behind) => (hr.evaluate behind.names room e).bind fun _ => same _
  | block id body => exact (executeAll hr sight.inside room body).bind fun _ => same _
  | ifThen id condition thenBranch =>
      refine (hr.evaluate sight.names room condition).bind fun v => ?_
      cases v.isTruthy with
      | true => exact (hr.execute sight room thenBranch).bind fun _ => same _
      | false => exact same _
  | ifElse id condition thenBranch elseBranch =>
      refine (hr.evaluate sight.names room condition).bind fun v => ?_
      cases v.isTruthy with
      | true => exact (hr.execute sight room thenBranch).bind fun _ => same _
      | false => exact (hr.execute sight room elseBranch).bind fun _ => same _
  | whileLoop id condition body => exact (hr.loop sight room condition body).bind fun _ => same _
  | funDecl f => exact same _
  | returnStmt id keyword value =>
      cases value with
      | none => exact same _
      | some e => exact (hr.evaluate sight.names room e).bind fun _ => same _
  | classDecl id name superclass methods =>
      exact (declareClass hr sight room name superclass methods).bind fun _ => same _

theorem loopNode (sight : Sight) (room : Nat) (condition : Expr) (body : Stmt) :
    Sooner (Reference.loopNode run sight room condition body)
      (Reference.loopNode run' sight room condition body) := by
  refine (hr.evaluate sight.names room condition).bind fun v => ?_
  cases v.isTruthy with
  | false => exact same _
  | true =>
      refine (hr.execute sight room body).bind fun (completion, _) => ?_
      cases completion with
      | normal => exact hr.loop sight room condition body
      | returned v => exact same _

end Sooner

/-- One step more. -/
theorem runner_sooner_succ (fuel : Nat) : (runner fuel).Sooner (runner (fuel + 1)) := by
  induction fuel with
  | zero => exact ⟨fun _ _ _ => .exhausted _, fun _ _ _ => .exhausted _, fun _ _ _ _ => .exhausted _⟩
  | succ fuel ih => exact ⟨.evaluateNode ih, .executeNode ih, .loopNode ih⟩

/-- **More steps change nothing.** -/
theorem runner_sooner {fuel more : Nat} (h : fuel ≤ more) : (runner fuel).Sooner (runner more) := by
  induction h with
  | refl => exact ⟨fun _ _ _ => .same _, fun _ _ _ => .same _, fun _ _ _ _ => .same _⟩
  | @step more _ ih =>
      have hstep := runner_sooner_succ more
      exact ⟨fun names room e => (ih.evaluate names room e).trans (hstep.evaluate names room e),
        fun sight room s => (ih.execute sight room s).trans (hstep.execute sight room s),
        fun sight room c b => (ih.loop sight room c b).trans (hstep.loop sight room c b)⟩

end Reference

end Lox
