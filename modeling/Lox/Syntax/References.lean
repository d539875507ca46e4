/-
References: the nodes of a tree whose meaning depends on the scopes around them.
Names that are read, names that are assigned to, `this` and `super` are such
nodes; property names are not, for they are looked up in an object.

The lists are in pre-order: a node comes before its parts, and the parts in the
order in which the node keeps them.
-/
import Lox.Syntax.Basic

namespace Lox

inductive ReferenceKind where
  | name
  | assignment
  | this
  | super
deriving DecidableEq

/-- A reference: the node and the token that names what it refers to. -/
structure Reference where
  kind : ReferenceKind
  id : NodeId
  token : Token

mutual

def Expr.references : Expr → List Reference
  | .literal .. => []
  | .var id name => [⟨.name, id, name⟩]
  | .assign id name value => ⟨.assignment, id, name⟩ :: value.references
  | .binary _ left _ right => left.references ++ right.references
  | .logical _ left _ right => left.references ++ right.references
  | .unary _ _ operand => operand.references
  | .grouping _ inner => inner.references
  | .call _ callee _ arguments => callee.references ++ Expr.referencesAll arguments
  | .get _ object _ => object.references
  | .set _ object _ value => object.references ++ value.references
  | .this id keyword => [⟨.this, id, keyword⟩]
  | .super id keyword _ => [⟨.super, id, keyword⟩]

def Expr.referencesAll : List Expr → List Reference
  | [] => []
  | e :: rest => e.references ++ Expr.referencesAll rest

end

def Expr.referencesOptional : Option Expr → List Reference
  | none => []
  | some e => e.references

/-- A superclass is read like a variable. -/
def NameRef.references (parent : NameRef) : List Reference := [⟨.name, parent.id, parent.name⟩]

mutual

def Stmt.references : Stmt → List Reference
  | .expression _ e => e.references
  | .print _ e => e.references
  | .varDecl _ _ initializer => Expr.referencesOptional initializer
  | .block _ body => Stmt.referencesAll body
  | .ifThen _ condition thenBranch => condition.references ++ thenBranch.references
  | .ifElse _ condition thenBranch elseBranch =>
    condition.references ++ thenBranch.references ++ elseBranch.references
  | .whileLoop _ condition body => condition.references ++ body.references
  | .funDecl f => f.references
  | .returnStmt _ _ value => Expr.referencesOptional value
  | .classDecl _ _ superclass methods =>
    (superclass.map NameRef.references).getD [] ++ FunDecl.referencesAll methods

def Stmt.referencesAll : List Stmt → List Reference
  | [] => []
  | s :: rest => s.references ++ Stmt.referencesAll rest

def FunDecl.references : FunDecl → List Reference
  | .mk _ _ _ body => Stmt.referencesAll body

def FunDecl.referencesAll : List FunDecl → List Reference
  | [] => []
  | f :: rest => f.references ++ FunDecl.referencesAll rest

end

end Lox
