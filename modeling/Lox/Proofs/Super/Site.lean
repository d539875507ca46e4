/-
Where the nodes of a program stand with respect to its classes. A site is a node
with the innermost class whose methods it stands in; the name of a superclass
stands outside of its class. The sites are told by the tree alone.
-/
import Lox.Proofs.Binding.Node

namespace Lox

/-- The statement that declares a class. -/
structure ClassDecl where
  id : NodeId
  name : Token
  superclass : Option NameRef
  methods : List FunDecl

def ClassDecl.statement (c : ClassDecl) : Stmt := .classDecl c.id c.name c.superclass c.methods

/-- A node and the innermost class whose methods it stands in. -/
structure Site where
  node : Node
  cls : Option ClassDecl

/-- Some nodes, all with the same class around them. -/
def Site.within (cls : Option ClassDecl) (nodes : List Node) : List Site := nodes.map (⟨·, cls⟩)

mutual

def Stmt.sites (cls : Option ClassDecl) (s : Stmt) : List Site :=
  ⟨.statement s, cls⟩ ::
    match s with
    | .expression _ e => Site.within cls e.nodes
    | .print _ e => Site.within cls e.nodes
    | .varDecl _ _ initializer => Site.within cls (Expr.nodesOptional initializer)
    | .block _ body => Stmt.sitesAll cls body
    | .ifThen _ condition thenBranch => Site.within cls condition.nodes ++ thenBranch.sites cls
    | .ifElse _ condition thenBranch elseBranch =>
      Site.within cls condition.nodes ++ thenBranch.sites cls ++ elseBranch.sites cls
    | .whileLoop _ condition body => Site.within cls condition.nodes ++ body.sites cls
    | .funDecl f => f.sites cls
    | .returnStmt _ _ value => Site.within cls (Expr.nodesOptional value)
    | .classDecl id name superclass methods =>
      Site.within cls (NameRef.nodesOptional superclass)
        ++ FunDecl.sitesAll (some ⟨id, name, superclass, methods⟩) methods

def Stmt.sitesAll (cls : Option ClassDecl) : List Stmt → List Site
  | [] => []
  | s :: rest => s.sites cls ++ Stmt.sitesAll cls rest

/-- The sites in the body of a function. -/
def FunDecl.sites (cls : Option ClassDecl) : FunDecl → List Site
  | .mk _ _ _ body => Stmt.sitesAll cls body

def FunDecl.sitesAll (cls : Option ClassDecl) : List FunDecl → List Site
  | [] => []
  | f :: rest => f.sites cls ++ FunDecl.sitesAll cls rest

end

/-- The sites of a program, which no class is around. -/
def programSites (body : List Stmt) : List Site := Stmt.sitesAll none body

theorem Site.map_node_within (cls : Option ClassDecl) (nodes : List Node) :
    (Site.within cls nodes).map Site.node = nodes := by
  unfold Site.within
  rw [List.map_map]
  exact List.map_id nodes

mutual

/-- Every node has one site. -/
theorem Stmt.map_node_sites (cls : Option ClassDecl) :
    ∀ s : Stmt, (s.sites cls).map Site.node = s.nodes
  | .expression _ e | .print _ e => by simp [Stmt.sites, Stmt.nodes, Site.map_node_within]
  | .varDecl _ _ e | .returnStmt _ _ e => by
      simp [Stmt.sites, Stmt.nodes, Site.map_node_within]
  | .block _ body => by
      simp [Stmt.sites, Stmt.nodes, Stmt.map_node_sitesAll cls body]
  | .ifThen _ condition thenBranch => by
      simp [Stmt.sites, Stmt.nodes, Site.map_node_within, Stmt.map_node_sites cls thenBranch]
  | .ifElse _ condition thenBranch elseBranch => by
      simp [Stmt.sites, Stmt.nodes, Site.map_node_within, Stmt.map_node_sites cls thenBranch,
        Stmt.map_node_sites cls elseBranch]
  | .whileLoop _ condition body => by
      simp [Stmt.sites, Stmt.nodes, Site.map_node_within, Stmt.map_node_sites cls body]
  | .funDecl f => by
      simp [Stmt.sites, Stmt.nodes, FunDecl.map_node_sites cls f]
  | .classDecl id name superclass methods => by
      simp [Stmt.sites, Stmt.nodes, Site.map_node_within, FunDecl.map_node_sitesAll _ methods]

theorem Stmt.map_node_sitesAll (cls : Option ClassDecl) :
    ∀ body : List Stmt, (Stmt.sitesAll cls body).map Site.node = Stmt.nodesAll body
  | [] => rfl
  | s :: rest => by
      simp [Stmt.sitesAll, Stmt.nodesAll, Stmt.map_node_sites cls s,
        Stmt.map_node_sitesAll cls rest]

theorem FunDecl.map_node_sites (cls : Option ClassDecl) :
    ∀ f : FunDecl, (f.sites cls).map Site.node = f.nodes
  | .mk _ _ _ body => by
      simp [FunDecl.sites, FunDecl.nodes, Stmt.map_node_sitesAll cls body]

theorem FunDecl.map_node_sitesAll (cls : Option ClassDecl) :
    ∀ methods : List FunDecl,
      (FunDecl.sitesAll cls methods).map Site.node = FunDecl.nodesAll methods
  | [] => rfl
  | f :: rest => by
      simp [FunDecl.sitesAll, FunDecl.nodesAll, FunDecl.map_node_sites cls f,
        FunDecl.map_node_sitesAll cls rest]

end

end Lox
