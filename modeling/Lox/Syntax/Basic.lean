/-
The syntax tree. Every node has an identity, a number that no other node of the
same session has: two mentions of one name are different references and may
mean different variables, so what is known about a reference is kept under its
identity and never under its spelling.

The reader numbers a node when it is complete. Children are therefore numbered
before their parents, and the parts of a text from left to right.
-/
import Lox.Token

namespace Lox

/-- The identity of a node. -/
abbrev NodeId := Nat

/-- The values that a program can write down. -/
inductive Constant where
  | nil
  | boolean (b : Bool)
  | number (x : Float)
  | string (s : String)

inductive Expr where
  /-- A constant; the token is missing where the text leaves the constant out. -/
  | literal (id : NodeId) (value : Constant) (token : Option Token)
  | var (id : NodeId) (name : Token)
  | assign (id : NodeId) (name : Token) (value : Expr)
  | binary (id : NodeId) (left : Expr) (operator : Token) (right : Expr)
  /-- A binary operator that may leave its right side alone. -/
  | logical (id : NodeId) (left : Expr) (operator : Token) (right : Expr)
  | unary (id : NodeId) (operator : Token) (operand : Expr)
  | grouping (id : NodeId) (inner : Expr)
  /-- A call; `paren` closes the arguments. -/
  | call (id : NodeId) (callee : Expr) (paren : Token) (arguments : List Expr)
  | get (id : NodeId) (object : Expr) (name : Token)
  | set (id : NodeId) (object : Expr) (name : Token) (value : Expr)
  | this (id : NodeId) (keyword : Token)
  | super (id : NodeId) (keyword : Token) (method : Token)

/-- A name that stands where an expression could: the superclass of a class. -/
structure NameRef where
  id : NodeId
  name : Token

/-- Naming a superclass is reading a variable. -/
def NameRef.asExpr (parent : NameRef) : Expr := .var parent.id parent.name

mutual

inductive Stmt where
  | expression (id : NodeId) (e : Expr)
  | print (id : NodeId) (e : Expr)
  | varDecl (id : NodeId) (name : Token) (initializer : Option Expr)
  | block (id : NodeId) (body : List Stmt)
  | ifThen (id : NodeId) (condition : Expr) (thenBranch : Stmt)
  | ifElse (id : NodeId) (condition : Expr) (thenBranch elseBranch : Stmt)
  | whileLoop (id : NodeId) (condition : Expr) (body : Stmt)
  | funDecl (f : FunDecl)
  | returnStmt (id : NodeId) (keyword : Token) (value : Option Expr)
  | classDecl (id : NodeId) (name : Token) (superclass : Option NameRef) (methods : List FunDecl)

/-- A function with its name: a declaration of its own, or a method. -/
inductive FunDecl where
  | mk (id : NodeId) (name : Token) (params : List Token) (body : List Stmt)

end

def Expr.id : Expr → NodeId
  | .literal id .. | .var id .. | .assign id .. | .binary id .. | .logical id .. | .unary id ..
  | .grouping id .. | .call id .. | .get id .. | .set id .. | .this id .. | .super id .. => id

namespace FunDecl

def id : FunDecl → NodeId
  | .mk id _ _ _ => id

def name : FunDecl → Token
  | .mk _ name _ _ => name

def params : FunDecl → List Token
  | .mk _ _ params _ => params

def body : FunDecl → List Stmt
  | .mk _ _ _ body => body

/-- The number of arguments that a call has to bring. -/
def arity (f : FunDecl) : Nat := f.params.length

end FunDecl

def Stmt.id : Stmt → NodeId
  | .expression id .. | .print id .. | .varDecl id .. | .block id .. | .ifThen id ..
  | .ifElse id .. | .whileLoop id .. | .returnStmt id .. | .classDecl id .. => id
  | .funDecl f => f.id

/-- The method of this name makes an instance ready for use. -/
def initializerName : String := "init"

end Lox
