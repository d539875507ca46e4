/-
The resolver goes through a part of a program wherever it goes through the whole:
with a visit to a node come the visits to everything in it.
-/
import Lox.Proofs.Lockstep.Session

namespace Lox

/-- The visits to a node and all that is in it, in the scopes of a visit. -/
def Visit.within (v : Visit) : List Visit :=
  match v.node with
  | .expression e => e.visits v.around v.scopes
  | .statement s => s.visits v.around v.scopes

/-- Visits that go to all that is in the nodes they go to. The name of a superclass stands for
itself alone. -/
def Thorough (visits : List Visit) : Prop :=
  ∀ v ∈ visits, v.naming = none → ∀ w ∈ v.within, w ∈ visits

namespace Thorough

variable {visits more : List Visit}

theorem nil : Thorough [] := nofun

theorem append (h : Thorough visits) (h' : Thorough more) : Thorough (visits ++ more) := by
  intro v hv hnaming w hw
  rcases List.mem_append.mp hv with hv | hv
  · exact List.mem_append_left _ (h v hv hnaming w hw)
  · exact List.mem_append_right _ (h' v hv hnaming w hw)

/-- A node comes before what is in it. -/
theorem node {v : Visit} (hself : v.within = v :: visits) (h : Thorough visits) :
    Thorough (v :: visits) := by
  intro u hu hnaming w hw
  rcases List.mem_cons.mp hu with rfl | hu
  · rwa [hself] at hw
  · exact List.mem_cons_of_mem _ (h u hu hnaming w hw)

end Thorough

mutual

theorem Expr.visits_thorough (around : Surroundings) (scopes : Scopes) :
    ∀ e : Expr, Thorough (e.visits around scopes)
  | .literal .. | .var .. | .this .. | .super .. => .node rfl .nil
  | .assign _ _ value => .node rfl (value.visits_thorough around scopes)
  | .binary _ left _ right | .logical _ left _ right =>
      .node rfl ((left.visits_thorough around scopes).append (right.visits_thorough around scopes))
  | .unary _ _ operand => .node rfl (operand.visits_thorough around scopes)
  | .grouping _ inner => .node rfl (inner.visits_thorough around scopes)
  | .call _ callee _ arguments =>
      .node rfl ((callee.visits_thorough around scopes).append
        (Expr.visitsAll_thorough around scopes arguments))
  | .get _ object _ => .node rfl (object.visits_thorough around scopes)
  | .set _ object _ value =>
      .node rfl ((value.visits_thorough around scopes).append (object.visits_thorough around scopes))

theorem Expr.visitsAll_thorough (around : Surroundings) (scopes : Scopes) :
    ∀ es : List Expr, Thorough (Expr.visitsAll around scopes es)
  | [] => .nil
  | e :: rest => (e.visits_thorough around scopes).append
      (Expr.visitsAll_thorough around scopes rest)

end

theorem Expr.visitsOptional_thorough (around : Surroundings) (scopes : Scopes) (e : Option Expr) :
    Thorough (Expr.visitsOptional around scopes e) := by
  cases e with
  | none => exact .nil
  | some e => exact e.visits_thorough around scopes

theorem NameRef.visits_thorough (around : Surroundings) (introduced : Scopes) (name : Token)
    (parent : Option NameRef) : Thorough (NameRef.visits around introduced name parent) := by
  cases parent with
  | none => exact .nil
  | some parent =>
      intro v hv hnaming
      cases List.mem_singleton.mp hv
      cases hnaming

mutual

theorem Stmt.visits_thorough (around : Surroundings) (scopes : Scopes) :
    ∀ s : Stmt, Thorough (s.visits around scopes)
  | .expression _ e | .print _ e => .node rfl (e.visits_thorough around scopes)
  | .varDecl _ _ initializer => .node rfl (Expr.visitsOptional_thorough around _ initializer)
  | .block _ body => .node rfl (Stmt.visitsAll_thorough around _ body)
  | .ifThen _ condition thenBranch =>
      .node rfl ((condition.visits_thorough around scopes).append
        (Stmt.visits_thorough around scopes thenBranch))
  | .ifElse _ condition thenBranch elseBranch =>
      .node rfl (((condition.visits_thorough around scopes).append
        (Stmt.visits_thorough around scopes thenBranch)).append
          (Stmt.visits_thorough around _ elseBranch))
  | .whileLoop _ condition body =>
      .node rfl ((condition.visits_thorough around scopes).append
        (Stmt.visits_thorough around scopes body))
  | .funDecl f => .node rfl (FunDecl.visits_thorough _ _ f)
  | .returnStmt _ _ value => .node rfl (Expr.visitsOptional_thorough around scopes value)
  | .classDecl _ name superclass methods =>
      .node rfl ((NameRef.visits_thorough around _ name superclass).append
        (FunDecl.visitsAll_thorough _ _ methods))

theorem Stmt.visitsAll_thorough (around : Surroundings) (scopes : Scopes) :
    ∀ body : List Stmt, Thorough (Stmt.visitsAll around scopes body)
  | [] => .nil
  | s :: rest => (Stmt.visits_thorough around scopes s).append
      (Stmt.visitsAll_thorough around _ rest)

theorem FunDecl.visits_thorough (around : Surroundings) (scopes : Scopes) :
    ∀ f : FunDecl, Thorough (f.visits around scopes)
  | .mk _ _ _ body => Stmt.visitsAll_thorough around _ body

theorem FunDecl.visitsAll_thorough (inClass : ClassKind) (scopes : Scopes) :
    ∀ methods : List FunDecl, Thorough (FunDecl.visitsAll inClass scopes methods)
  | [] => .nil
  | f :: rest => (FunDecl.visits_thorough _ scopes f).append
      (FunDecl.visitsAll_thorough inClass scopes rest)

end

/-- The visits to the programs of a session are thorough. -/
theorem Session.visits_thorough (bodies : List (List Stmt)) : Thorough (Session.visits bodies) := by
  induction bodies with
  | nil => exact .nil
  | cons body rest ih => exact (Stmt.visitsAll_thorough .topLevel [] body).append ih

end Lox
