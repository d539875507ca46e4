/-
The grammar of expressions. One function reads one level of binding strength;
each is given the reader of the levels inside it, and `assignment` ties the knot
by nesting depth. Every nesting passes a character, so a depth beyond the length
of the text is never reached (`Grammar/Program.lean` starts there).

Levels from the loosest to the tightest:

    assignment   target = value            groups to the right
    or, and      a or b, a and b           group to the left
    equality     a == b, a != b            groups to the left
    comparison   a > b, a >= b, ...        groups to the left
    term         a + b, a - b              groups to the left
    factor       a * b, a / b              groups to the left
    unary        !a, -a
    call         a(b), a.name              groups to the left
    primary      constants, names, this, super.name, (a)
-/
import Lox.Grammar.Words

namespace Lox.Parser

-- ================================================================= primary

/-- Turns what a constant reader found into a node. -/
def literal (p : Parser (Constant × Token)) : Parser Expr := do
  let (value, token) ← p
  pure (.literal (← freshId) value (some token))

def thisExpr : Parser Expr := do
  let token ← keyword .keyword "this"
  pure (.this (← freshId) token)

/-- `super` must be followed by the name of a method. -/
def superExpr : Parser Expr := do
  let token ← keyword .keyword "super"
  committed do
    symbol '.'
    let method ← identifier
    pure (.super (← freshId) token method)

def variableExpr : Parser Expr := do
  let name ← identifier
  pure (.var (← freshId) name)

/-- An opening bracket must be closed. -/
def groupingExpr (expression : Parser Expr) : Parser Expr := do
  symbol '('
  committed do
    let inner ← expression
    symbol ')'
    pure (.grouping (← freshId) inner)

def primary (expression : Parser Expr) : Parser Expr :=
  choice .expression [
    literal numberConstant,
    literal stringConstant,
    literal (wordConstant "true" (.boolean true)),
    literal (wordConstant "false" (.boolean false)),
    literal (wordConstant "nil" .nil),
    thisExpr,
    superExpr,
    variableExpr,
    groupingExpr expression]

-- =================================================================== calls

/-- What may follow a callee or an object. -/
inductive Suffix where
  | call (paren : Token) (arguments : List Expr)
  | get (name : Token)

/-- A list of things between commas; it may be empty. -/
def commaSeparated {α : Type} (item : Parser α) : Parser (List α) := do
  let found ← optional do
    let first ← item
    let more ← many do
      symbol ','
      item
    pure (first :: more)
  pure (found.getD [])

/-- Arguments in brackets. Too many are refused at the opening bracket. -/
def callSuffix (expression : Parser Expr) : Parser Suffix := do
  let place ← skipTrivia
  symbol '('
  let arguments ← commaSeparated expression
  let paren ← symbolToken .rightParen ')'
  if maxArguments < arguments.length then failAt .refusal .tooManyArguments place
  else pure (.call paren arguments)

def getSuffix : Parser Suffix := do
  symbol '.'
  let name ← identifier
  pure (.get name)

/-- Wraps an expression into what follows it, from left to right. -/
def applySuffixes (e : Expr) : List Suffix → Parser Expr
  | [] => pure e
  | .call paren arguments :: rest => do
    applySuffixes (.call (← freshId) e paren arguments) rest
  | .get name :: rest => do
    applySuffixes (.get (← freshId) e name) rest

def call (expression : Parser Expr) : Parser Expr := do
  let head ← primary expression
  let suffixes ← many (firstOf none [callSuffix expression, getSuffix])
  applySuffixes head suffixes

-- =============================================================== operators

def unaryOperators : List String := ["!", "-"]

/-- Prefix operators to any depth, the innermost before a call. -/
def unary (expression : Parser Expr) : Nat → Parser Expr
  | 0 => exhausted
  | depth + 1 => fun s =>
    choice .expression [
      do
        let token ← operator unaryOperators
        let operand ← unary expression depth
        pure (.unary (← freshId) token operand),
      call expression] s

/-- How a node is made of its operator and operands. -/
abbrev Joiner := NodeId → Expr → Token → Expr → Expr

/-- Joins operands from left to right. -/
def foldLeft (join : Joiner) (left : Expr) : List (Token × Expr) → Parser Expr
  | [] => pure left
  | (token, right) :: rest => do
    foldLeft join (join (← freshId) left token right) rest

/-- One level of binary operators that group to the left. -/
def leftAssociative (join : Joiner) (token : Parser Token) (operand : Parser Expr) :
    Parser Expr := do
  let first ← operand
  let more ← many do
    let op ← token
    let right ← operand
    pure (op, right)
  foldLeft join first more

def factor (unary : Parser Expr) : Parser Expr :=
  leftAssociative .binary (operator ["*", "/"]) unary

def term (unary : Parser Expr) : Parser Expr :=
  leftAssociative .binary (operator ["+", "-"]) (factor unary)

/-- Of two spellings that begin alike the longer comes first. -/
def comparison (unary : Parser Expr) : Parser Expr :=
  leftAssociative .binary (operator [">=", "<=", ">", "<"]) (term unary)

def equality (unary : Parser Expr) : Parser Expr :=
  leftAssociative .binary (operator ["==", "!="]) (comparison unary)

def logicalAnd (unary : Parser Expr) : Parser Expr :=
  leftAssociative .logical (keyword .logicalAnd "and") (equality unary)

def logicalOr (unary : Parser Expr) : Parser Expr :=
  leftAssociative .logical (keyword .logicalOr "or") (logicalAnd unary)

-- ============================================================== assignment

/-- An assignment whose target was read as an expression. Only variables and fields can be assigned
to; anything else is refused at the equals sign. -/
def assignTo (target : Expr) (equals : Token) (value : Expr) : Parser Expr :=
  match target with
  | .var _ name => do pure (.assign (← freshId) name value)
  | .get _ object name => do pure (.set (← freshId) object name value)
  | _ => failAt .refusal .invalidTarget equals.place

/-- Assignments nested to the given depth, and with them all expressions. -/
def assignment : Nat → Parser Expr
  | 0 => exhausted
  | depth + 1 => fun s =>
    (do
      let target ← logicalOr (unary (assignment depth) (depth + 1))
      let source ← optional do
        let equals ← equalSign
        let value ← assignment depth
        pure (equals, value)
      match source with
      | none => pure target
      | some (equals, value) => assignTo target equals value) s

end Lox.Parser
