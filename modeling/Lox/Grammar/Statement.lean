/-
The grammar of statements and declarations. A reserved word at the start commits
to its statement: what follows must fit, and nothing else is tried.

A declaration inside braces or at top level is read by `recovering`: when it
fails, the fault goes on record and reading resumes behind it, so that one pass
finds every fault of a text.
-/
import Lox.Grammar.Expression
import Lox.Source.Recovery

namespace Lox.Parser

/-- Reads a reserved word that leaves no trace in the tree. -/
def word (spelling : String) : Parser Unit := do
  let _ ← keyword .keyword spelling

-- ================================================================ recovery

/-- Reads one declaration. A failure of any weight goes on record, and the cursor moves to where
reading can resume, never back before the declaration. Fails softly, and without a record, at the
end of the text and before `closer`. -/
def recovering (closer : Option Char) (declaration : Parser Stmt) : Parser (Option Stmt) := do
  let _ ← skipTrivia
  fun s =>
    let start := s.cursor.skipGap
    if start.atEnd || start.rest.head? == closer then
      .error ⟨.soft, ⟨.expected .declaration, start.place⟩⟩ s
    else
      match declaration s with
      | .ok stmt s' => .ok (some stmt) s'
      | .error e s' =>
        let reached := start.advance (e.fault.place.offset - start.offset).toNat
        .ok none { s' with
          cursor := reached.resume
          recovered := s'.recovered ++ [e.fault] }

/-- Declarations up to the end of the text or to `closer`, those that failed left out. -/
def declarations (closer : Option Char) (declaration : Parser Stmt) : Parser (List Stmt) := do
  let found ← many (recovering closer declaration)
  pure (found.filterMap id)

/-- Declarations in braces. -/
def braced (declaration : Parser Stmt) : Parser (List Stmt) := do
  symbol '{'
  committed do
    let body ← declarations (some '}') declaration
    symbol '}'
    pure body

-- ======================================================= simple statements

def expressionStmt (expression : Parser Expr) : Parser Stmt := do
  let e ← expression
  committed do
    symbol ';'
    pure (.expression (← freshId) e)

def printStmt (expression : Parser Expr) : Parser Stmt := do
  word "print"
  committed do
    let e ← expression
    symbol ';'
    pure (.print (← freshId) e)

def returnStmt (expression : Parser Expr) : Parser Stmt := do
  let token ← keyword .keyword "return"
  committed do
    let value ← optional expression
    symbol ';'
    pure (.returnStmt (← freshId) token value)

def varDecl (expression : Parser Expr) : Parser Stmt := do
  word "var"
  committed do
    let name ← identifier
    let initializer ← optional do
      let _ ← equalSign
      expression
    symbol ';'
    pure (.varDecl (← freshId) name initializer)

def blockStmt (block : Parser (List Stmt)) : Parser Stmt := do
  let body ← block
  pure (.block (← freshId) body)

-- ===================================================== compound statements

def ifStmt (expression : Parser Expr) (statement : Parser Stmt) : Parser Stmt := do
  word "if"
  committed do
    symbol '('
    let condition ← expression
    symbol ')'
    let thenBranch ← statement
    let elseBranch ← optional do
      word "else"
      statement
    match elseBranch with
    | none => pure (.ifThen (← freshId) condition thenBranch)
    | some elseBranch => pure (.ifElse (← freshId) condition thenBranch elseBranch)

def whileStmt (expression : Parser Expr) (statement : Parser Stmt) : Parser Stmt := do
  word "while"
  committed do
    symbol '('
    let condition ← expression
    symbol ')'
    let body ← statement
    pure (.whileLoop (← freshId) condition body)

/-- The first clause of a `for`: nothing, a variable of the loop, or an expression. -/
def forInitializer (expression : Parser Expr) : Parser (Option Stmt) :=
  firstOf none [
    do symbol ';'; pure none,
    do pure (some (← varDecl expression)),
    do pure (some (← expressionStmt expression))]

/-- A missing condition always holds. -/
def loopCondition : Option Expr → Parser Expr
  | some e => pure e
  | none => do pure (.literal (← freshId) (.boolean true) none)

/-- The increment is done behind the body. -/
def loopBody (body : Stmt) : Option Expr → Parser Stmt
  | none => pure body
  | some e => do
    let step := Stmt.expression (← freshId) e
    pure (.block (← freshId) [body, step])

/-- The initializer comes before the loop. -/
def loopBlock (loop : Stmt) : Option Stmt → Parser Stmt
  | none => pure loop
  | some first => do pure (.block (← freshId) [first, loop])

/-- A `for` is a `while` whose body ends in the increment, inside a block that begins with the
initializer. -/
def forLoop (initializer : Option Stmt) (condition increment : Option Expr) (body : Stmt) :
    Parser Stmt := do
  let condition ← loopCondition condition
  let body ← loopBody body increment
  loopBlock (.whileLoop (← freshId) condition body) initializer

def forStmt (expression : Parser Expr) (statement : Parser Stmt) : Parser Stmt := do
  word "for"
  committed do
    symbol '('
    let initializer ← forInitializer expression
    let condition ← optional expression
    symbol ';'
    let increment ← optional expression
    symbol ')'
    let body ← statement
    forLoop initializer condition increment body

/-- Statements nested to the given depth. -/
def statement (expression : Parser Expr) (block : Parser (List Stmt)) : Nat → Parser Stmt
  | 0 => exhausted
  | depth + 1 => fun s =>
    choice .statement [
      forStmt expression (statement expression block depth),
      ifStmt expression (statement expression block depth),
      printStmt expression,
      returnStmt expression,
      whileStmt expression (statement expression block depth),
      blockStmt block,
      expressionStmt expression] s

-- ============================================================ declarations

/-- A name, parameters and a body. Too many parameters are refused at the name. -/
def function (block : Parser (List Stmt)) : Parser FunDecl := do
  let place ← skipTrivia
  let name ← identifier
  symbol '('
  let params ← commaSeparated identifier
  symbol ')'
  let body ← block
  if maxArguments < params.length then failAt .refusal .tooManyParameters place
  else pure (.mk (← freshId) name params body)

def funDecl (block : Parser (List Stmt)) : Parser Stmt := do
  word "fun"
  committed do
    pure (.funDecl (← function block))

/-- The name behind a less-than sign. -/
def superclass : Parser NameRef := do
  symbol '<'
  let name ← identifier
  pure ⟨← freshId, name⟩

def classDecl (block : Parser (List Stmt)) : Parser Stmt := do
  word "class"
  committed do
    let name ← identifier
    let parent ← optional superclass
    symbol '{'
    let methods ← many (function block)
    symbol '}'
    pure (.classDecl (← freshId) name parent methods)

/-- Declarations nested to the given depth, statements among them. -/
def declaration (expression : Parser Expr) : Nat → Parser Stmt
  | 0 => exhausted
  | depth + 1 => fun s =>
    let block := braced (declaration expression depth)
    choice .declaration [
      classDecl block,
      funDecl block,
      varDecl expression,
      statement expression block (depth + 1)] s

end Lox.Parser
