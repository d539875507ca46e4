/-
A `return` unwinds exactly one call. In an accepted program nothing returns at top
level; a call of a function ends with the first value that its activation returns,
and nothing of the activation happens after that; and an initializer, whose call
yields its object whatever the body returned, never returns anything but nil.
-/
import Lox.Proofs.Return.Activation
import Lox.Proofs.Fault.Placed

namespace Lox

open Session (Prepares History)
open Lockstep (run_bind_ok run_bind_error)

variable {fuel room : Nat} {run : Runner}

-- ============================================================ what is returned

/-- A value that one of some `return` statements can return. -/
def Returnable (returns : List (Option Expr)) (value : Value) : Prop :=
  ∃ given ∈ returns, given = none → value = .nil

theorem Returnable.left {a : List (Option Expr)} (b : List (Option Expr)) {value : Value}
    (h : Returnable a value) : Returnable (a ++ b) value := by
  obtain ⟨given, hmem, hvalue⟩ := h
  exact ⟨given, List.mem_append_left b hmem, hvalue⟩

theorem Returnable.right (a : List (Option Expr)) {b : List (Option Expr)} {value : Value}
    (h : Returnable b value) : Returnable (a ++ b) value := by
  obtain ⟨given, hmem, hvalue⟩ := h
  exact ⟨given, List.mem_append_right a hmem, hvalue⟩

/-- A runner that returns what its statements can return. -/
structure Runner.Answers (run : Runner) : Prop where
  execute (room : Nat) (s : Stmt) : Yields (Returnable s.returns) (run.execute room s)
  loop (room : Nat) (condition : Expr) (body : Stmt) :
    Yields (Returnable body.returns) (run.loop room condition body)

namespace Yields

theorem inNewFrame {allowed : Value → Prop} {y : Eval Completion} (outer : FrameId)
    (bindings : Bindings Value) (h : Yields allowed y) :
    Yields allowed (Eval.inNewFrame outer bindings y) := by
  intro m value m' hrun
  rw [Agree.inNewFrame_eq] at hrun
  split at hrun
  · rename_i hy
    cases hrun
    exact h _ value _ hy
  · cases hrun

theorem executeAll (hr : run.Answers) (room : Nat) (body : List Stmt) :
    Yields (Returnable (Stmt.returnsAll body)) (Eval.executeAll run room body) := by
  induction body with
  | nil => exact normal
  | cons s rest ih =>
      exact next ((hr.execute room s).mono fun _ h => h.left _) (ih.mono fun _ h => h.right _)

theorem performNode (hr : run.Answers) (room : Nat) (s : Stmt) :
    Yields (Returnable s.returns) (Eval.performNode run room s) := by
  cases s with
  | block id body => exact bind fun frame => inNewFrame frame .empty (executeAll hr room body)
  | ifThen id condition thenBranch =>
      refine bind fun v => ?_
      split
      · exact hr.execute room thenBranch
      · exact normal
  | ifElse id condition thenBranch elseBranch =>
      refine bind fun v => ?_
      split
      · exact (hr.execute room thenBranch).mono fun _ h => h.left _
      · exact (hr.execute room elseBranch).mono fun _ h => h.right _
  | whileLoop id condition body => exact hr.loop room condition body
  | returnStmt id keyword value =>
      cases value with
      | none => exact returned ⟨none, List.mem_singleton_self _, fun _ => rfl⟩
      | some e => exact bind fun v => returned ⟨some e, List.mem_singleton_self _, nofun⟩
  | varDecl id name initializer =>
      cases initializer with
      | none => exact bind fun _ => normal
      | some e => exact bind fun _ => bind fun _ => normal
  | print id e => exact bind fun _ => bind fun _ => normal
  | funDecl f => exact bind fun _ => bind fun _ => bind fun _ => normal
  | expression | classDecl => exact bind fun _ => normal

theorem loopNode (hr : run.Answers) (room : Nat) (condition : Expr) (body : Stmt) :
    Yields (Returnable body.returns) (Eval.loopNode run room condition body) := by
  refine bind fun v => ?_
  split
  · exact next (hr.execute room body) (hr.loop room condition body)
  · exact normal

/-- Whatever the bound on the steps is. -/
theorem answers_runner (fuel : Nat) : (Eval.runner fuel).Answers := by
  induction fuel with
  | zero => exact ⟨fun _ _ => stop .exhausted, fun _ _ _ => stop .exhausted⟩
  | succ fuel ih =>
      exact ⟨fun room s => bind fun _ => performNode ih room s, fun room => loopNode ih room⟩

end Yields

/-- The body of a bare function returns nil, if anything. -/
theorem FunDecl.Bare.returns_nil {f : FunDecl} (h : f.Bare) {m m' : Machine} {value : Value}
    (ran : Eval.executeAll (Eval.runner fuel) room f.body m = .ok (.returned value) m') :
    value = .nil := by
  obtain ⟨given, hmem, hvalue⟩ :=
    Yields.executeAll (Yields.answers_runner fuel) room f.body m value m' ran
  exact hvalue (h given hmem)

/-- Initializers are bare on a machine on which everything is known. -/
theorem Machine.Known.bare {known : List Token} {m : Machine} (hm : m.Known known) {f : FunctionId}
    {c : Closure} (hc : m.heap.functions[f]? = some c) (hinit : c.isInitializer = true) :
    c.declaration.Bare := by
  have hf := hm.functions f
  rw [hc] at hf
  cases hf with
  | some alike => exact alike.held.2 hinit

-- ================================================================ one call

/-- **A `return` unwinds exactly one call.** In whatever session of accepted programs, no statement of
a program returns to the top level. A call of a function that is no initializer ends as its
activation does in which a `return` is an exception, whoever observes both: with the value that
was returned first, or nil, and nothing of the activation happens after that. And what an
initializer returns, of all those that exist at any moment of the run, is nil. -/
theorem return_unwinds {bodies : List (List Stmt)} {s s' : Session} {text : List Char}
    {label : String} {body : List Stmt} (before : History bodies s)
    (accepted : s.Prepares text label body s') (fuel room : Nat) :
    (∀ statement ∈ body, ∀ (fuel room : Nat) (m : Machine) (c : Completion) (m' : Machine),
        Eval.execute fuel room statement m = .ok c m' → c = .normal)
      ∧ (∀ (check : Check) (alarm : Stop) (fuel room : Nat) (f : FunctionId) (c : Closure)
          (arguments : List Value) (m : Machine),
        m.heap.functions[f]? = some c → c.isInitializer = false →
          Called m.scope (Unwinding.activate check alarm fuel room c arguments ⟨m, []⟩)
            (Eval.callFunction (Eval.watchedRunner check alarm fuel) (room + 1) f arguments m))
      ∧ ∀ k, k = (Eval.interpret fuel room body).left s'.machine
            ∨ (∃ node, Enters fuel room body s'.machine node k) →
          ∀ (f : FunctionId) (c : Closure), k.heap.functions[f]? = some c →
            c.isInitializer = true →
            ∀ (fuel room : Nat) (m : Machine) (value : Value) (m' : Machine),
              Eval.executeAll (Eval.runner fuel) room c.declaration.body m
                = .ok (.returned value) m' → value = .nil := by
  obtain ⟨-, hclear, -⟩ := Lockstep.prepares_cases accepted
  refine ⟨?_, ?_, ?_⟩
  · intro statement hmem fuel room m c m' ran
    cases c with
    | normal => rfl
    | returned value =>
        obtain ⟨given, hgiven, -⟩ :=
          (Yields.answers_runner fuel).execute room statement m value m' ran
        have hnone := returns_eq_nil_of_accepted hclear
        rw [Stmt.returnsAll_eq_nil] at hnone
        rw [hnone statement hmem] at hgiven
        cases hgiven
  · intro check alarm fuel room f c arguments m hc hplain
    exact called_of_not_initializer check alarm fuel room hc hplain arguments
  · intro k hk f c hc hinit fuel' room' m value m' ran
    have haccounts := accounts_of_prepares before accepted fuel room
    have hknown : k.Known (Session.tokens (body :: bodies)) := by
      rcases hk with rfl | ⟨node, henters⟩
      · exact haccounts.known_left
      · obtain ⟨late, hne⟩ := henters.exists_watch
        exact ((haccounts.spots ⟨late, node, k⟩).resolve_left hne).2
    exact (hknown.bare hc hinit).returns_nil ran

/-- A program whose calls return out of loops and blocks, one of them in an initializer. -/
def returningText : List Char :=
  ("class A \x7b init() \x7b while (true) \x7b return; \x7d \x7d \x7d "
    ++ "fun f() \x7b for (;;) \x7b \x7b return A(); \x7d print nil; \x7d \x7d f();").toList

/-- Whether a run leaves an initializer behind and a function that is none. -/
def leavesBoth (r : EStateM.Result Stop Machine Unit) : Bool :=
  match r with
  | .ok _ m | .error _ m =>
    m.heap.functions.any (·.isInitializer) && m.heap.functions.any (!·.isInitializer)

theorem return_unwinds_returning :
    ∃ body s' m, (Session.start false 0).Prepares returningText "" body s'
      ∧ m = (Eval.interpret 60 9 body).left s'.machine
      ∧ (∀ statement ∈ body, ∀ m c m', Eval.execute 60 9 statement m = .ok c m' → c = .normal)
      ∧ (∃ (f : FunctionId) (c : Closure), m.heap.functions[f]? = some c ∧ c.isInitializer = false
        ∧ Called m.scope
          (Unwinding.activate (fun _ _ => true) .exhausted 60 9 c [] ⟨m, []⟩)
          (Eval.callFunction (Eval.watchedRunner (fun _ _ => true) .exhausted 60) 10 f [] m))
      ∧ ∃ (f : FunctionId) (c : Closure), m.heap.functions[f]? = some c ∧ c.isInitializer = true
        ∧ ∀ value m', Eval.executeAll (Eval.runner 60) 9 c.declaration.body m
          = .ok (.returned value) m' → value = .nil := by
  have hboth : runsTo returningText 60 9 leavesBoth = true := by decide +kernel
  obtain ⟨body, s', accepted, htest⟩ := exists_of_runsTo hboth
  obtain ⟨htop, hcalls, hinitializers⟩ := return_unwinds (.start false 0) accepted 60 9
  have hleft : ∀ m, m = (Eval.interpret 60 9 body).left s'.machine →
      m.heap.functions.any (·.isInitializer) = true
        ∧ m.heap.functions.any (!·.isInitializer) = true := by
    rintro m rfl
    unfold leavesBoth at htest
    unfold Eval.left
    split at htest <;> rename_i hrun <;> rw [hrun] <;> exact Bool.and_eq_true_iff.mp htest
  obtain ⟨m, hm⟩ : ∃ m, m = (Eval.interpret 60 9 body).left s'.machine := ⟨_, rfl⟩
  obtain ⟨hinitializer, hplain⟩ := hleft m hm
  rw [Array.any_eq_true] at hinitializer hplain
  obtain ⟨f, hf, hinit⟩ := hinitializer
  obtain ⟨g, hg, hnone⟩ := hplain
  refine ⟨body, s', m, accepted, hm, fun statement hmem => htop statement hmem 60 9, ?_, ?_⟩
  · refine ⟨g, _, Array.getElem?_eq_getElem hg, by simpa using hnone, ?_⟩
    exact hcalls _ _ _ _ _ _ _ _ (Array.getElem?_eq_getElem hg) (by simpa using hnone)
  · exact ⟨f, _, Array.getElem?_eq_getElem hf, hinit, fun value m' =>
      hinitializers m (.inl hm) f _ (Array.getElem?_eq_getElem hf) hinit 60 9 m value m'⟩

end Lox
