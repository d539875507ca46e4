/-
The tree view: a tree written out with a bracket for every node, the node's
operator or word first. Positions and identities are left out.
-/
import Lox.Syntax.Basic
import Lox.Decimal.Layout

namespace Lox

/-- A node in brackets: its word, then its parts. -/
def bracket (word : String) (parts : List String) : String :=
  let inner := " ".intercalate parts
  if inner.isEmpty then "(" ++ word ++ ")" else "(" ++ word ++ " " ++ inner ++ ")"

/-- A constant as in a program text; numbers always show a fraction or an exponent. -/
def Constant.view : Constant → String
  | .nil => "nil"
  | .boolean b => if b then "true" else "false"
  | .number x => Decimal.Style.plain.write x
  | .string s => "\"" ++ s ++ "\""

mutual

def Expr.view : Expr → String
  | .literal _ value _ => value.view
  | .var _ name => name.lexeme
  | .assign _ name value => bracket ("assign " ++ name.lexeme) [value.view]
  | .binary _ left operator right => bracket operator.lexeme [left.view, right.view]
  | .logical _ left operator right => bracket operator.lexeme [left.view, right.view]
  | .unary _ operator operand => bracket operator.lexeme [operand.view]
  | .grouping _ inner => bracket "group" [inner.view]
  | .call _ callee _ arguments => bracket "call" (callee.view :: Expr.viewAll arguments)
  | .get _ object name => bracket "get" [object.view, name.lexeme]
  | .set _ object name value => bracket "set" [object.view, name.lexeme, value.view]
  | .this _ _ => "this"
  | .super _ _ method => bracket "super" [method.lexeme]

def Expr.viewAll : List Expr → List String
  | [] => []
  | e :: rest => e.view :: Expr.viewAll rest

end

/-- The parts of a statement that may hold an expression or leave it out. -/
def Expr.viewOptional : Option Expr → List String
  | none => []
  | some e => [e.view]

mutual

def Stmt.view : Stmt → String
  | .expression _ e => bracket ";" [e.view]
  | .print _ e => bracket "print" [e.view]
  | .varDecl _ name none => bracket "var" [name.lexeme]
  | .varDecl _ name (some e) => bracket "var" [name.lexeme, "=", e.view]
  | .block _ body => bracket "block" (Stmt.viewAll body)
  | .ifThen _ condition thenBranch => bracket "if" [condition.view, thenBranch.view]
  | .ifElse _ condition thenBranch elseBranch =>
    bracket "if-else" [condition.view, thenBranch.view, elseBranch.view]
  | .whileLoop _ condition body => bracket "while" [condition.view, body.view]
  | .funDecl f => f.view
  | .returnStmt _ _ value => bracket "return" (Expr.viewOptional value)
  | .classDecl _ name superclass methods =>
    let word :=
      match superclass with
      | none => name.lexeme
      | some parent => name.lexeme ++ " < " ++ parent.name.lexeme
    bracket ("class " ++ word) (FunDecl.viewAll methods)

def Stmt.viewAll : List Stmt → List String
  | [] => []
  | s :: rest => s.view :: Stmt.viewAll rest

def FunDecl.view : FunDecl → String
  | .mk _ name params body =>
    let names := " ".intercalate (params.map Token.lexeme)
    bracket ("fun " ++ name.lexeme ++ "(" ++ names ++ ")") (Stmt.viewAll body)

def FunDecl.viewAll : List FunDecl → List String
  | [] => []
  | f :: rest => f.view :: FunDecl.viewAll rest

end

end Lox
