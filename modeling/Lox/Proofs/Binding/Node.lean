/-
The nodes of a tree that a run can enter: all expressions and all statements,
each before its parts. The name of a superclass is entered like any variable;
methods are made and never entered as statements, so only their bodies count.

`Node.Proper` is what a node has to be for the resolver and the evaluator to
agree about it: its operator is one the evaluator knows, no name that it
declares or mentions is a reserved word, and no branch of it declares a name.
-/
import Lox.Binding.Resolve
import Lox.Text.Name

namespace Lox

inductive Node where
  | expression (e : Expr)
  | statement (s : Stmt)

def Node.id : Node → NodeId
  | .expression e => e.id
  | .statement s => s.id

-- ================================================================ the nodes

mutual

def Expr.nodes (e : Expr) : List Node :=
  .expression e ::
    match e with
    | .literal .. | .var .. | .this .. | .super .. => []
    | .assign _ _ value => value.nodes
    | .binary _ left _ right => left.nodes ++ right.nodes
    | .logical _ left _ right => left.nodes ++ right.nodes
    | .unary _ _ operand => operand.nodes
    | .grouping _ inner => inner.nodes
    | .call _ callee _ arguments => callee.nodes ++ Expr.nodesAll arguments
    | .get _ object _ => object.nodes
    | .set _ object _ value => value.nodes ++ object.nodes

def Expr.nodesAll : List Expr → List Node
  | [] => []
  | e :: rest => e.nodes ++ Expr.nodesAll rest

end

def Expr.nodesOptional : Option Expr → List Node
  | none => []
  | some e => e.nodes

/-- The node of a superclass that is named. -/
def NameRef.nodesOptional : Option NameRef → List Node
  | none => []
  | some parent => [.expression parent.asExpr]

mutual

def Stmt.nodes (s : Stmt) : List Node :=
  .statement s ::
    match s with
    | .expression _ e => e.nodes
    | .print _ e => e.nodes
    | .varDecl _ _ initializer => Expr.nodesOptional initializer
    | .block _ body => Stmt.nodesAll body
    | .ifThen _ condition thenBranch => condition.nodes ++ thenBranch.nodes
    | .ifElse _ condition thenBranch elseBranch =>
      condition.nodes ++ thenBranch.nodes ++ elseBranch.nodes
    | .whileLoop _ condition body => condition.nodes ++ body.nodes
    | .funDecl f => f.nodes
    | .returnStmt _ _ value => Expr.nodesOptional value
    | .classDecl _ _ superclass methods =>
      NameRef.nodesOptional superclass ++ FunDecl.nodesAll methods

def Stmt.nodesAll : List Stmt → List Node
  | [] => []
  | s :: rest => s.nodes ++ Stmt.nodesAll rest

/-- The nodes of the body of a function. -/
def FunDecl.nodes : FunDecl → List Node
  | .mk _ _ _ body => Stmt.nodesAll body

def FunDecl.nodesAll : List FunDecl → List Node
  | [] => []
  | f :: rest => f.nodes ++ FunDecl.nodesAll rest

end

-- ============================================================= proper nodes

/-- A token that is no reserved word. -/
def Token.Free (token : Token) : Prop := token.lexeme ∉ Text.reservedWords

/-- The name that a statement declares in the scope it stands in. -/
def Stmt.declares : Stmt → Option Token
  | .varDecl _ name _ => some name
  | .funDecl f => some f.name
  | .classDecl _ name _ _ => some name
  | _ => none

/-- The binary operators that the evaluator knows, those that short-cut aside. -/
def binaryOperators : List String := ["+", "==", "!=", "-", "*", "/", ">", ">=", "<", "<="]

/-- The unary operators that the evaluator knows. -/
def unaryOperators : List String := ["-", "!"]

def Node.Proper : Node → Prop
  | .expression (.var _ name) => name.Free
  | .expression (.assign _ name _) => name.Free
  | .expression (.binary _ _ operator _) => operator.lexeme ∈ binaryOperators
  | .expression (.unary _ operator _) => operator.lexeme ∈ unaryOperators
  | .expression (.this _ keyword) => keyword.lexeme = "this"
  | .expression _ => True
  | .statement (.varDecl _ name _) => name.Free
  | .statement (.funDecl f) => f.name.Free ∧ ∀ param ∈ f.params, param.Free
  | .statement (.classDecl _ name _ methods) =>
    name.Free ∧ ∀ f ∈ methods, ∀ param ∈ f.params, param.Free
  | .statement (.ifThen _ _ thenBranch) => thenBranch.declares = none
  | .statement (.ifElse _ _ thenBranch elseBranch) =>
    thenBranch.declares = none ∧ elseBranch.declares = none
  | .statement (.whileLoop _ _ body) => body.declares = none
  | .statement _ => True

theorem Token.Free.ne_this {token : Token} (h : token.Free) : token.lexeme ≠ "this" := by
  intro he
  exact h (by rw [he]; decide)

theorem Token.Free.ne_super {token : Token} (h : token.Free) : token.lexeme ≠ "super" := by
  intro he
  exact h (by rw [he]; decide)

/-- A node stands in its own list. -/
theorem Expr.mem_nodes (e : Expr) : .expression e ∈ e.nodes := by
  cases e <;> exact List.mem_cons_self

theorem Stmt.mem_nodes (s : Stmt) : .statement s ∈ s.nodes := by
  cases s <;> exact List.mem_cons_self

end Lox
