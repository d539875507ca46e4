/-
The way of the resolver through a program, written down: every node with the
scopes that stood around it when the resolver came to it. Whatever the resolver
reports, links and faults alike, it has found at one of these visits
(`Survey.Accounts`), so a statement about all visits is a statement about the
whole of resolution.
-/
import Lox.Proofs.Binding.Node

namespace Lox

/-- The resolver at a node. -/
structure Visit where
  node : Node
  around : Surroundings
  /-- The scopes in which the node is resolved. -/
  scopes : Scopes
  /-- The class that names its superclass here, if the node is the name of a superclass. -/
  naming : Option String

-- =============================================================== the visits

mutual

def Expr.visits (around : Surroundings) (scopes : Scopes) (e : Expr) : List Visit :=
  ⟨.expression e, around, scopes, none⟩ ::
    match e with
    | .literal .. | .var .. | .this .. | .super .. => []
    | .assign _ _ value => value.visits around scopes
    | .binary _ left _ right => left.visits around scopes ++ right.visits around scopes
    | .logical _ left _ right => left.visits around scopes ++ right.visits around scopes
    | .unary _ _ operand => operand.visits around scopes
    | .grouping _ inner => inner.visits around scopes
    | .call _ callee _ arguments =>
      callee.visits around scopes ++ Expr.visitsAll around scopes arguments
    | .get _ object _ => object.visits around scopes
    | .set _ object _ value => value.visits around scopes ++ object.visits around scopes

def Expr.visitsAll (around : Surroundings) (scopes : Scopes) : List Expr → List Visit
  | [] => []
  | e :: rest => e.visits around scopes ++ Expr.visitsAll around scopes rest

end

def Expr.visitsOptional (around : Surroundings) (scopes : Scopes) : Option Expr → List Visit
  | none => []
  | some e => e.visits around scopes

/-- The scopes in which the methods of a class are resolved. -/
def Scopes.ofMethods (scopes : Scopes) : Option NameRef → Scopes
  | none => .holding "this" :: scopes
  | some _ => .holding "this" :: .holding "super" :: scopes

/-- The kind of a class by its superclass. -/
def ClassKind.ofSuperclass : Option NameRef → ClassKind
  | .none => .plain
  | .some _ => .subclass

/-- The visit to the name of a superclass: the class itself is already in scope. -/
def NameRef.visits (around : Surroundings) (introduced : Scopes) (name : Token) :
    Option NameRef → List Visit
  | none => []
  | some parent => [⟨.expression parent.asExpr, around, introduced, some name.lexeme⟩]

mutual

def Stmt.visits (around : Surroundings) (scopes : Scopes) (s : Stmt) : List Visit :=
  ⟨.statement s, around, scopes, none⟩ ::
    match s with
    | .expression _ e => e.visits around scopes
    | .print _ e => e.visits around scopes
    | .varDecl _ name initializer =>
      Expr.visitsOptional around (scopes.declare name).1 initializer
    | .block _ body => Stmt.visitsAll around (.empty :: scopes) body
    | .ifThen _ condition thenBranch =>
      condition.visits around scopes ++ thenBranch.visits around scopes
    | .ifElse _ condition thenBranch elseBranch =>
      condition.visits around scopes ++ thenBranch.visits around scopes
        ++ elseBranch.visits around (thenBranch.resolve around scopes).1
    | .whileLoop _ condition body => condition.visits around scopes ++ body.visits around scopes
    | .funDecl f => f.visits ⟨.function, around.inClass⟩ (scopes.introduce f.name).1
    | .returnStmt _ _ value => Expr.visitsOptional around scopes value
    | .classDecl _ name superclass methods =>
      NameRef.visits around (scopes.introduce name).1 name superclass
        ++ FunDecl.visitsAll (.ofSuperclass superclass)
          (Scopes.ofMethods (scopes.introduce name).1 superclass) methods

def Stmt.visitsAll (around : Surroundings) (scopes : Scopes) : List Stmt → List Visit
  | [] => []
  | s :: rest =>
    s.visits around scopes ++ Stmt.visitsAll around (s.resolve around scopes).1 rest

/-- The visits inside a function. -/
def FunDecl.visits (around : Surroundings) (scopes : Scopes) : FunDecl → List Visit
  | .mk _ _ params body =>
    Stmt.visitsAll around (Scopes.introduceAll (.empty :: scopes) params).1 body

/-- The visits inside the methods of a class. -/
def FunDecl.visitsAll (inClass : ClassKind) (scopes : Scopes) : List FunDecl → List Visit
  | [] => []
  | f :: rest => f.visits ⟨f.methodKind, inClass⟩ scopes ++ FunDecl.visitsAll inClass scopes rest

end

/-- The visits to a whole program. -/
def programVisits (body : List Stmt) : List Visit := Stmt.visitsAll .topLevel [] body

-- ============================================= the nodes that are visited

mutual

theorem Expr.map_node_visits (around : Surroundings) (scopes : Scopes) :
    ∀ e : Expr, (e.visits around scopes).map Visit.node = e.nodes
  | .literal .. | .var .. | .this .. | .super .. => rfl
  | .assign _ _ value => by
      simp [Expr.visits, Expr.nodes, Expr.map_node_visits around scopes value]
  | .binary _ left _ right => by
      simp [Expr.visits, Expr.nodes, Expr.map_node_visits around scopes left,
        Expr.map_node_visits around scopes right]
  | .logical _ left _ right => by
      simp [Expr.visits, Expr.nodes, Expr.map_node_visits around scopes left,
        Expr.map_node_visits around scopes right]
  | .unary _ _ operand => by
      simp [Expr.visits, Expr.nodes, Expr.map_node_visits around scopes operand]
  | .grouping _ inner => by
      simp [Expr.visits, Expr.nodes, Expr.map_node_visits around scopes inner]
  | .call _ callee _ arguments => by
      simp [Expr.visits, Expr.nodes, Expr.map_node_visits around scopes callee,
        Expr.map_node_visitsAll around scopes arguments]
  | .get _ object _ => by
      simp [Expr.visits, Expr.nodes, Expr.map_node_visits around scopes object]
  | .set _ object _ value => by
      simp [Expr.visits, Expr.nodes, Expr.map_node_visits around scopes object,
        Expr.map_node_visits around scopes value]

theorem Expr.map_node_visitsAll (around : Surroundings) (scopes : Scopes) :
    ∀ es : List Expr, (Expr.visitsAll around scopes es).map Visit.node = Expr.nodesAll es
  | [] => rfl
  | e :: rest => by
      simp [Expr.visitsAll, Expr.nodesAll, Expr.map_node_visits around scopes e,
        Expr.map_node_visitsAll around scopes rest]

end

theorem Expr.map_node_visitsOptional (around : Surroundings) (scopes : Scopes) (e : Option Expr) :
    (Expr.visitsOptional around scopes e).map Visit.node = Expr.nodesOptional e := by
  cases e with
  | none => rfl
  | some e => exact e.map_node_visits around scopes

theorem NameRef.map_node_visits (around : Surroundings) (introduced : Scopes) (name : Token)
    (parent : Option NameRef) :
    (NameRef.visits around introduced name parent).map Visit.node
      = NameRef.nodesOptional parent := by
  cases parent <;> rfl

mutual

/-- Resolution visits the nodes of a statement in their order, each of them once. -/
theorem Stmt.map_node_visits (around : Surroundings) (scopes : Scopes) :
    ∀ s : Stmt, (s.visits around scopes).map Visit.node = s.nodes
  | .expression _ e => by simp [Stmt.visits, Stmt.nodes, Expr.map_node_visits]
  | .print _ e => by simp [Stmt.visits, Stmt.nodes, Expr.map_node_visits]
  | .varDecl _ name initializer => by
      simp [Stmt.visits, Stmt.nodes, Expr.map_node_visitsOptional]
  | .block _ body => by
      simp [Stmt.visits, Stmt.nodes, Stmt.map_node_visitsAll around _ body]
  | .ifThen _ condition thenBranch => by
      simp [Stmt.visits, Stmt.nodes, Expr.map_node_visits,
        Stmt.map_node_visits around scopes thenBranch]
  | .ifElse _ condition thenBranch elseBranch => by
      simp [Stmt.visits, Stmt.nodes, Expr.map_node_visits,
        Stmt.map_node_visits around scopes thenBranch,
        Stmt.map_node_visits around _ elseBranch]
  | .whileLoop _ condition body => by
      simp [Stmt.visits, Stmt.nodes, Expr.map_node_visits,
        Stmt.map_node_visits around scopes body]
  | .funDecl f => by
      simp [Stmt.visits, Stmt.nodes, FunDecl.map_node_visits _ _ f]
  | .returnStmt _ _ value => by
      simp [Stmt.visits, Stmt.nodes, Expr.map_node_visitsOptional]
  | .classDecl _ name superclass methods => by
      simp [Stmt.visits, Stmt.nodes, NameRef.map_node_visits,
        FunDecl.map_node_visitsAll _ _ methods]

theorem Stmt.map_node_visitsAll (around : Surroundings) (scopes : Scopes) :
    ∀ body : List Stmt, (Stmt.visitsAll around scopes body).map Visit.node = Stmt.nodesAll body
  | [] => rfl
  | s :: rest => by
      simp [Stmt.visitsAll, Stmt.nodesAll, Stmt.map_node_visits around scopes s,
        Stmt.map_node_visitsAll around _ rest]

theorem FunDecl.map_node_visits (around : Surroundings) (scopes : Scopes) :
    ∀ f : FunDecl, (f.visits around scopes).map Visit.node = f.nodes
  | .mk _ _ _ body => by
      simp [FunDecl.visits, FunDecl.nodes, Stmt.map_node_visitsAll around _ body]

theorem FunDecl.map_node_visitsAll (inClass : ClassKind) (scopes : Scopes) :
    ∀ methods : List FunDecl,
      (FunDecl.visitsAll inClass scopes methods).map Visit.node = FunDecl.nodesAll methods
  | [] => rfl
  | f :: rest => by
      simp [FunDecl.visitsAll, FunDecl.nodesAll, FunDecl.map_node_visits _ scopes f,
        FunDecl.map_node_visitsAll inClass scopes rest]

end

-- ==================================================== what a visit finds

/-- The faults in the parameters of a function, which begin a scope of their own. -/
def FunDecl.paramFaults (scopes : Scopes) (f : FunDecl) : Survey :=
  (Scopes.introduceAll (.empty :: scopes) f.params).2

/-- The faults in the parameters of some methods. -/
def FunDecl.paramFaultsAll (scopes : Scopes) : List FunDecl → Survey
  | [] => .empty
  | f :: rest => f.paramFaults scopes ++ FunDecl.paramFaultsAll scopes rest

/-- What a class finds about its own name and the name of its superclass. -/
def Scopes.ownSuperclass (name : Token) : Option NameRef → Survey
  | none => .empty
  | some parent =>
    if parent.name.lexeme == name.lexeme then .fault .inheritsFromItself parent.name else .empty

/-- What the resolver finds at a node itself, its parts left out. -/
def Visit.finding (v : Visit) : Survey :=
  match v.node with
  | .expression (.var id name) => v.scopes.readVariable id name
  | .expression (.assign id name _) => v.scopes.link id name.lexeme
  | .expression (.this id keyword) => (Expr.this id keyword).resolve v.around v.scopes
  | .expression (.super id keyword name) => (Expr.super id keyword name).resolve v.around v.scopes
  | .expression _ => .empty
  | .statement (.varDecl _ name _) => (v.scopes.declare name).2
  | .statement (.funDecl f) =>
    (v.scopes.introduce f.name).2 ++ f.paramFaults (v.scopes.introduce f.name).1
  | .statement (.returnStmt _ keyword value) => v.around.returnFaults keyword value.isSome
  | .statement (.classDecl _ name superclass methods) =>
    (v.scopes.introduce name).2 ++ Scopes.ownSuperclass name superclass
      ++ FunDecl.paramFaultsAll (Scopes.ofMethods (v.scopes.introduce name).1 superclass) methods
  | .statement _ => .empty

/-- A survey holds what was found beforehand and what some visits find, and nothing else. -/
structure Survey.Accounts (survey before : Survey) (visits : List Visit) : Prop where
  links : ∀ link,
    link ∈ survey.links ↔ link ∈ before.links ∨ ∃ v ∈ visits, link ∈ v.finding.links
  faults : ∀ fault,
    fault ∈ survey.faults ↔ fault ∈ before.faults ∨ ∃ v ∈ visits, fault ∈ v.finding.faults

namespace Survey.Accounts

variable {a b p q : Survey} {us vs : List Visit}

/-- Without visits there is what was found beforehand. -/
theorem nil (a : Survey) : a.Accounts a [] := by
  constructor <;> simp

theorem append (ha : a.Accounts p us) (hb : b.Accounts q vs) :
    (a ++ b).Accounts (p ++ q) (us ++ vs) where
  links link := by
    simp only [Survey.links_append, List.mem_append, ha.links, hb.links, or_and_right, exists_or]
    exact or_or_or_comm
  faults fault := by
    simp only [Survey.faults_append, List.mem_append, ha.faults, hb.faults, or_and_right,
      exists_or]
    exact or_or_or_comm

/-- What comes first and needs no visit was found beforehand. -/
theorem after (ha : a.Accounts .empty us) (p : Survey) : (p ++ a).Accounts p us := by
  have h := (nil p).append ha
  rwa [Survey.append_empty] at h

/-- What was found beforehand was found at one more visit. -/
theorem gather {v : Visit} (ha : a.Accounts p us)
    (hlinks : ∀ link, link ∈ v.finding.links ↔ link ∈ p.links)
    (hfaults : ∀ fault, fault ∈ v.finding.faults ↔ fault ∈ p.faults) :
    a.Accounts .empty (v :: us) where
  links link := by simp [ha.links, hlinks, Survey.empty]
  faults fault := by simp [ha.faults, hfaults, Survey.empty]

/-- What was found beforehand is just what one more visit finds. -/
theorem visit {v : Visit} (ha : a.Accounts v.finding us) : a.Accounts .empty (v :: us) :=
  ha.gather (fun _ => .rfl) fun _ => .rfl

end Survey.Accounts

-- ================================================ all that is ever found

mutual

theorem Expr.accounts (around : Surroundings) (scopes : Scopes) :
    ∀ e : Expr, (e.resolve around scopes).Accounts .empty (e.visits around scopes)
  | .literal .. | .var .. | .this .. | .super .. => .visit (.nil _)
  | .assign id name value => by
      have h := (Expr.accounts around scopes value).append (.nil (scopes.link id name.lexeme))
      rw [List.append_nil] at h
      exact .visit h
  | .binary _ left _ right =>
      .visit ((Expr.accounts around scopes left).append (Expr.accounts around scopes right))
  | .logical _ left _ right =>
      .visit ((Expr.accounts around scopes left).append (Expr.accounts around scopes right))
  | .unary _ _ operand => .visit (Expr.accounts around scopes operand)
  | .grouping _ inner => .visit (Expr.accounts around scopes inner)
  | .call _ callee _ arguments =>
      .visit ((Expr.accounts around scopes callee).append
        (Expr.accountsAll around scopes arguments))
  | .get _ object _ => .visit (Expr.accounts around scopes object)
  | .set _ object _ value =>
      .visit ((Expr.accounts around scopes value).append (Expr.accounts around scopes object))

theorem Expr.accountsAll (around : Surroundings) (scopes : Scopes) :
    ∀ es : List Expr,
      (Expr.resolveAll around scopes es).Accounts .empty (Expr.visitsAll around scopes es)
  | [] => .nil _
  | e :: rest => (Expr.accounts around scopes e).append (Expr.accountsAll around scopes rest)

end

theorem Expr.accountsOptional (around : Surroundings) (scopes : Scopes) (e : Option Expr) :
    (Expr.resolveOptional around scopes e).Accounts .empty
      (Expr.visitsOptional around scopes e) := by
  cases e with
  | none => exact .nil _
  | some e => exact e.accounts around scopes

mutual

/-- All that resolving a statement finds is found at its visits. -/
theorem Stmt.accounts (around : Surroundings) (scopes : Scopes) :
    ∀ s : Stmt, (s.resolve around scopes).2.Accounts .empty (s.visits around scopes)
  | .expression _ e => .visit (e.accounts around scopes)
  | .print _ e => .visit (e.accounts around scopes)
  | .varDecl _ name initializer => .visit
      ((Expr.accountsOptional around (scopes.declare name).1 initializer).after _)
  | .block _ body => .visit (Stmt.accountsAll around (.empty :: scopes) body)
  | .ifThen _ condition thenBranch => .visit ((condition.accounts around scopes).append
      (Stmt.accounts around scopes thenBranch))
  | .ifElse _ condition thenBranch elseBranch => .visit
      (((condition.accounts around scopes).append (Stmt.accounts around scopes thenBranch)).append
        (Stmt.accounts around (thenBranch.resolve around scopes).1 elseBranch))
  | .whileLoop _ condition body => .visit ((condition.accounts around scopes).append
      (Stmt.accounts around scopes body))
  | .funDecl f => .visit ((Survey.Accounts.nil _).append
      (FunDecl.accounts ⟨.function, around.inClass⟩ (scopes.introduce f.name).1 f))
  | .returnStmt _ _ value => .visit ((Expr.accountsOptional around scopes value).after _)
  | .classDecl _ name none methods => by
      have h := (Survey.Accounts.nil (scopes.introduce name).2).append
        (FunDecl.accountsAll .plain (.holding "this" :: (scopes.introduce name).1) methods)
      refine .gather h (fun link => ?_) fun fault => ?_ <;>
        simp [Visit.finding, Scopes.ownSuperclass, Scopes.ofMethods]
  | .classDecl _ name (some parent) methods => by
      have h := ((Survey.Accounts.nil (scopes.introduce name).2).append
        ((Survey.Accounts.nil (Scopes.ownSuperclass name (some parent))).append
          (.visit (v := ⟨.expression parent.asExpr, around, (scopes.introduce name).1,
            some name.lexeme⟩) (.nil _)))).append
        (FunDecl.accountsAll .subclass
          (.holding "this" :: .holding "super" :: (scopes.introduce name).1) methods)
      refine .gather h (fun link => ?_) fun fault => ?_ <;>
        simp [Visit.finding, Scopes.ofMethods]

theorem Stmt.accountsAll (around : Surroundings) (scopes : Scopes) :
    ∀ body : List Stmt,
      (Stmt.resolveAll around scopes body).2.Accounts .empty (Stmt.visitsAll around scopes body)
  | [] => .nil _
  | s :: rest => (Stmt.accounts around scopes s).append
      (Stmt.accountsAll around (s.resolve around scopes).1 rest)

theorem FunDecl.accounts (around : Surroundings) (scopes : Scopes) :
    ∀ f : FunDecl, (f.resolve around scopes).Accounts (f.paramFaults scopes)
      (f.visits around scopes)
  | .mk _ _ params body =>
      (Stmt.accountsAll around (Scopes.introduceAll (.empty :: scopes) params).1 body).after _

theorem FunDecl.accountsAll (inClass : ClassKind) (scopes : Scopes) :
    ∀ methods : List FunDecl, (FunDecl.resolveMethods inClass scopes methods).Accounts
      (FunDecl.paramFaultsAll scopes methods) (FunDecl.visitsAll inClass scopes methods)
  | [] => .nil _
  | f :: rest => (FunDecl.accounts ⟨f.methodKind, inClass⟩ scopes f).append
      (FunDecl.accountsAll inClass scopes rest)

end

/-- The survey of a program is what its visits find. -/
theorem programVisits_accounts (body : List Stmt) :
    (resolveProgram body).Accounts .empty (programVisits body) :=
  Stmt.accountsAll .topLevel [] body

end Lox
