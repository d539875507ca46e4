/-
The `return` statements of a body that belong to it: those that stand in its
blocks, branches and loops, but not those of functions declared in it. A program
that the resolver accepts has none at its top level, and the initializers that it
declares, however deep, have none with a value.
-/
import Lox.Proofs.Likeness.Tree

namespace Lox

mutual

/-- What the `return` statements of a statement return, those of functions declared in it aside. -/
def Stmt.returns : Stmt → List (Option Expr)
  | .returnStmt _ _ value => [value]
  | .block _ body => Stmt.returnsAll body
  | .ifThen _ _ thenBranch => thenBranch.returns
  | .ifElse _ _ thenBranch elseBranch => thenBranch.returns ++ elseBranch.returns
  | .whileLoop _ _ body => body.returns
  | .expression .. | .print .. | .varDecl .. | .funDecl _ | .classDecl .. => []

def Stmt.returnsAll : List Stmt → List (Option Expr)
  | [] => []
  | s :: rest => s.returns ++ Stmt.returnsAll rest

end

theorem Stmt.returnsAll_eq_nil {body : List Stmt} :
    Stmt.returnsAll body = [] ↔ ∀ s ∈ body, s.returns = [] := by
  induction body with
  | nil => exact ⟨fun _ => nofun, fun _ => rfl⟩
  | cons s rest ih =>
      rw [Stmt.returnsAll, List.append_eq_nil_iff, ih, List.forall_mem_cons]

/-- A function that returns no value of its own choice. -/
def FunDecl.Bare (f : FunDecl) : Prop := ∀ value ∈ Stmt.returnsAll f.body, value = none

/-- What may be returned at a place. -/
def Surroundings.Allows (around : Surroundings) (value : Option Expr) : Prop :=
  around.function ≠ .none ∧ (around.function = .initializer → value = none)

theorem Survey.clear_append {a b : Survey} (h : (a ++ b).faults = []) :
    a.faults = [] ∧ b.faults = [] := by
  rwa [faults_append, List.append_eq_nil_iff] at h

theorem Surroundings.allows_of_clear {around : Surroundings} {keyword : Token}
    {value : Option Expr} (h : (around.returnFaults keyword value.isSome).faults = []) :
    around.Allows value := by
  obtain ⟨houtside, hvalue⟩ := Survey.clear_append h
  refine ⟨fun hnone => ?_, fun hinitializer => ?_⟩
  · rw [if_pos hnone] at houtside
    cases houtside
  · cases value with
    | none => rfl
    | some e =>
        rw [if_pos (by simp [hinitializer])] at hvalue
        cases hvalue

mutual

/-- The resolver lets a `return` pass only where it is allowed. -/
theorem Stmt.allows_of_clear {around : Surroundings} : ∀ {scopes : Scopes} (s : Stmt),
    (s.resolve around scopes).2.faults = [] → ∀ value ∈ s.returns, around.Allows value
  | _, .returnStmt _ _ value, h => by
      intro v hv
      rw [List.mem_singleton.1 hv]
      exact Surroundings.allows_of_clear (Survey.clear_append h).1
  | _, .block _ body, h => Stmt.allows_of_clear_all body h
  | _, .ifThen _ _ thenBranch, h => thenBranch.allows_of_clear (Survey.clear_append h).2
  | _, .ifElse _ _ thenBranch elseBranch, h => by
      obtain ⟨hfirst, helse⟩ := Survey.clear_append h
      intro v hv
      rcases List.mem_append.1 hv with hv | hv
      · exact thenBranch.allows_of_clear (Survey.clear_append hfirst).2 v hv
      · exact elseBranch.allows_of_clear helse v hv
  | _, .whileLoop _ _ body, h => body.allows_of_clear (Survey.clear_append h).2
  | _, .expression .., _ | _, .print .., _ | _, .varDecl .., _ | _, .funDecl _, _
  | _, .classDecl .., _ => nofun

theorem Stmt.allows_of_clear_all {around : Surroundings} : ∀ {scopes : Scopes} (body : List Stmt),
    (Stmt.resolveAll around scopes body).2.faults = [] →
      ∀ value ∈ Stmt.returnsAll body, around.Allows value
  | _, [], _ => nofun
  | _, s :: rest, h => by
      obtain ⟨hfirst, hrest⟩ := Survey.clear_append h
      intro v hv
      rcases List.mem_append.1 hv with hv | hv
      · exact s.allows_of_clear hfirst v hv
      · exact Stmt.allows_of_clear_all rest hrest v hv

end

/-- The initializers that a class declares are bare. -/
theorem FunDecl.bare_of_clear {inClass : ClassKind} {scopes : Scopes} (f : FunDecl)
    (h : (f.resolve ⟨f.methodKind, inClass⟩ scopes).faults = [])
    (hinit : (f.name.lexeme == initializerName) = true) : f.Bare := by
  intro value hv
  obtain ⟨id, name, params, body⟩ := f
  refine (Stmt.allows_of_clear_all body (Survey.clear_append h).2 value hv).2 ?_
  unfold FunDecl.methodKind
  rw [if_pos hinit]

/-- **Nothing returns at top level** in a program that the resolver accepts. -/
theorem returns_eq_nil_of_accepted {body : List Stmt} (h : (resolveProgram body).faults = []) :
    Stmt.returnsAll body = [] := by
  rw [List.eq_nil_iff_forall_not_mem]
  intro value hv
  exact (Stmt.allows_of_clear_all body h value hv).1 rfl

end Lox
