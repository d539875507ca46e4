/-
The words of a tree, and the trees that the grammar has. Writing a tree down
word by word gives a text back (`render`); a tree that came out of the grammar
is canonical, which says of every node that its parts bind at least as strongly
as its place asks for. Brackets are nodes of their own, so no bracket is ever
put in or left out.
-/
import Lox.Proofs.Binding.Node
import Lox.Proofs.Reading.Word
import Lox.Grammar.Program

namespace Lox

/-- The word that a token was made of. -/
def Token.word (token : Token) : Word :=
  match token.kind with
  | .identifier => .name token.lexeme
  | .number => .number token.lexeme
  | .string => .string token.lexeme
  | .keyword | .logicalAnd | .logicalOr => .keyword token.lexeme
  | _ => .symbol token.lexeme

/-- Punctuation and reserved words: the words that are the same in every text. -/
def Word.Fixed : Word → Prop
  | .symbol s => s ∈ symbols
  | .keyword s => s ∈ Text.reservedWords
  | _ => False

-- ================================================================ the words

/-- Things behind commas. -/
def Word.commasMore (items : List (List Word)) : List Word :=
  items.flatMap fun ws => .symbol "," :: ws

/-- Things between commas. -/
def Word.commas : List (List Word) → List Word
  | [] => []
  | ws :: rest => ws ++ Word.commasMore rest

/-- Names between commas. -/
def Token.wordsAll (tokens : List Token) : List Word :=
  Word.commas (tokens.map fun token => [token.word])

mutual

def Expr.words : Expr → List Word
  | .literal _ _ none => [.keyword "true"]
  | .literal _ _ (some token) => [token.word]
  | .var _ name => [name.word]
  | .assign _ name value => name.word :: .symbol "=" :: value.words
  | .binary _ left operator right => left.words ++ operator.word :: right.words
  | .logical _ left operator right => left.words ++ operator.word :: right.words
  | .unary _ operator operand => operator.word :: operand.words
  | .grouping _ inner => .symbol "(" :: (inner.words ++ [.symbol ")"])
  | .call _ callee paren arguments =>
    callee.words ++ .symbol "(" :: (Expr.wordsAll arguments ++ [paren.word])
  | .get _ object name => object.words ++ [.symbol ".", name.word]
  | .set _ object name value =>
    object.words ++ .symbol "." :: name.word :: .symbol "=" :: value.words
  | .this _ keyword => [keyword.word]
  | .super _ keyword method => [keyword.word, .symbol ".", method.word]

/-- Expressions between commas. -/
def Expr.wordsAll : List Expr → List Word
  | [] => []
  | e :: rest => e.words ++ Expr.wordsMore rest

/-- Expressions behind commas. -/
def Expr.wordsMore : List Expr → List Word
  | [] => []
  | e :: rest => .symbol "," :: (e.words ++ Expr.wordsMore rest)

end

/-- An initializer behind its sign. -/
def Expr.wordsInit : Option Expr → List Word
  | none => []
  | some e => .symbol "=" :: e.words

def Expr.wordsOptional : Option Expr → List Word
  | none => []
  | some e => e.words

/-- A superclass behind its sign. -/
def NameRef.words : Option NameRef → List Word
  | none => []
  | some parent => [.symbol "<", parent.name.word]

mutual

def Stmt.words : Stmt → List Word
  | .expression _ e => e.words ++ [.symbol ";"]
  | .print _ e => .keyword "print" :: (e.words ++ [.symbol ";"])
  | .varDecl _ name initializer =>
    .keyword "var" :: name.word :: (Expr.wordsInit initializer ++ [.symbol ";"])
  | .block _ body => .symbol "\x7b" :: (Stmt.wordsAll body ++ [.symbol "\x7d"])
  | .ifThen _ condition thenBranch =>
    .keyword "if" :: .symbol "(" :: (condition.words ++ .symbol ")" :: thenBranch.words)
  | .ifElse _ condition thenBranch elseBranch =>
    .keyword "if" :: .symbol "(" :: (condition.words ++ .symbol ")" :: (thenBranch.words
      ++ .keyword "else" :: elseBranch.words))
  | .whileLoop _ condition body =>
    .keyword "while" :: .symbol "(" :: (condition.words ++ .symbol ")" :: body.words)
  | .funDecl f => .keyword "fun" :: f.words
  | .returnStmt _ keyword value =>
    keyword.word :: (Expr.wordsOptional value ++ [.symbol ";"])
  | .classDecl _ name superclass methods =>
    .keyword "class" :: name.word :: (NameRef.words superclass
      ++ .symbol "\x7b" :: (FunDecl.wordsAll methods ++ [.symbol "\x7d"]))

def Stmt.wordsAll : List Stmt → List Word
  | [] => []
  | s :: rest => s.words ++ Stmt.wordsAll rest

def FunDecl.words : FunDecl → List Word
  | .mk _ name params body =>
    name.word :: .symbol "(" :: (Token.wordsAll params ++ .symbol ")" :: .symbol "\x7b"
      :: (Stmt.wordsAll body ++ [.symbol "\x7d"]))

def FunDecl.wordsAll : List FunDecl → List Word
  | [] => []
  | f :: rest => f.words ++ FunDecl.wordsAll rest

end

/-- A program as a text: all its words, with a blank between any two. -/
def render (body : List Stmt) : String :=
  " ".intercalate ((Stmt.wordsAll body).map fun w => String.ofList w.spelling)

-- =========================================================== binding strength

/-- How strongly a binary operator binds. -/
def operatorLevel (operator : String) : Nat :=
  if operator ∈ ["==", "!="] then 3
  else if operator ∈ [">=", "<=", ">", "<"] then 4
  else if operator ∈ ["+", "-"] then 5
  else 6

/-- How strongly an expression binds: the level of the grammar that reads it, the loosest being
zero. -/
def Expr.level : Expr → Nat
  | .assign .. | .set .. => 0
  | .logical _ _ operator _ => if operator.lexeme = "or" then 1 else 2
  | .binary _ _ operator _ => operatorLevel operator.lexeme
  | .unary .. => 7
  | .call .. | .get .. => 8
  | _ => 9

/-- A token of the given kind and spelling. -/
def Token.Is (kind : TokenKind) (spelling : String) (token : Token) : Prop :=
  token.kind = kind ∧ token.lexeme = spelling

/-- The constant that a number stands for. -/
def Constant.ofNumber (spelling : List Char) : Constant :=
  let whole := spelling.takeWhile Text.isDigit
  .number (Decimal.ofDigits whole (spelling.drop (whole.length + 1)))

/-- What a token of a constant stands for. -/
inductive Token.Denotes : Token → Constant → Prop
  | number {token : Token} (kind : token.kind = .number) :
      token.Denotes (.ofNumber token.lexeme.toList)
  | string {token : Token} (kind : token.kind = .string) : token.Denotes (.string token.lexeme)
  | true {token : Token} (is : token.Is .keyword "true") : token.Denotes (.boolean true)
  | false {token : Token} (is : token.Is .keyword "false") : token.Denotes (.boolean false)
  | nil {token : Token} (is : token.Is .keyword "nil") : token.Denotes .nil

mutual

/-- Expressions that the grammar has. -/
def Expr.Canonical : Expr → Prop
  | .literal _ value none => value = .boolean true
  | .literal _ value (some token) => token.Denotes value
  | .var _ name => name.kind = .identifier
  | .assign _ name value => name.kind = .identifier ∧ value.Canonical
  | .binary _ left operator right =>
    operator.kind = .operator ∧ operator.lexeme ∈ binaryOperators
      ∧ operatorLevel operator.lexeme ≤ left.level ∧ operatorLevel operator.lexeme < right.level
      ∧ left.Canonical ∧ right.Canonical
  | .logical _ left operator right =>
    (operator.Is .logicalOr "or" ∧ 1 ≤ left.level ∧ 1 < right.level
        ∨ operator.Is .logicalAnd "and" ∧ 2 ≤ left.level ∧ 2 < right.level)
      ∧ left.Canonical ∧ right.Canonical
  | .unary _ operator operand =>
    operator.kind = .operator ∧ operator.lexeme ∈ unaryOperators ∧ 7 ≤ operand.level
      ∧ operand.Canonical
  | .grouping _ inner => inner.Canonical
  | .call _ callee paren arguments =>
    8 ≤ callee.level ∧ callee.Canonical ∧ paren.Is .rightParen ")"
      ∧ arguments.length ≤ maxArguments ∧ Expr.CanonicalAll arguments
  | .get _ object name => 8 ≤ object.level ∧ object.Canonical ∧ name.kind = .identifier
  | .set _ object name value =>
    8 ≤ object.level ∧ object.Canonical ∧ name.kind = .identifier ∧ value.Canonical
  | .this _ keyword => keyword.Is .keyword "this"
  | .super _ keyword method => keyword.Is .keyword "super" ∧ method.kind = .identifier

def Expr.CanonicalAll : List Expr → Prop
  | [] => True
  | e :: rest => e.Canonical ∧ Expr.CanonicalAll rest

end

def Expr.CanonicalOptional : Option Expr → Prop
  | none => True
  | some e => e.Canonical

/-- A statement to which an `else` behind it would belong. -/
def Stmt.isOpen : Stmt → Bool
  | .ifThen .. => true
  | .ifElse _ _ _ elseBranch => elseBranch.isOpen
  | .whileLoop _ _ body => body.isOpen
  | _ => false

/-- A superclass that the grammar has. -/
def NameRef.Canonical (parent : NameRef) : Prop := parent.name.kind = .identifier

mutual

/-- Statements that the grammar has. -/
def Stmt.Canonical : Stmt → Prop
  | .expression _ e => e.Canonical
  | .print _ e => e.Canonical
  | .varDecl _ name initializer => name.kind = .identifier ∧ Expr.CanonicalOptional initializer
  | .block _ body => Stmt.CanonicalAll body
  | .ifThen _ condition thenBranch =>
    condition.Canonical ∧ thenBranch.Canonical ∧ thenBranch.declares = none
  | .ifElse _ condition thenBranch elseBranch =>
    condition.Canonical ∧ thenBranch.Canonical ∧ thenBranch.declares = none
      ∧ thenBranch.isOpen = false ∧ elseBranch.Canonical ∧ elseBranch.declares = none
  | .whileLoop _ condition body => condition.Canonical ∧ body.Canonical ∧ body.declares = none
  | .funDecl f => f.Canonical
  | .returnStmt _ keyword value => keyword.Is .keyword "return" ∧ Expr.CanonicalOptional value
  | .classDecl _ name superclass methods =>
    name.kind = .identifier ∧ (∀ parent ∈ superclass, parent.Canonical)
      ∧ FunDecl.CanonicalAll methods

def Stmt.CanonicalAll : List Stmt → Prop
  | [] => True
  | s :: rest => s.Canonical ∧ Stmt.CanonicalAll rest

def FunDecl.Canonical : FunDecl → Prop
  | .mk _ name params body =>
    name.kind = .identifier ∧ (∀ param ∈ params, param.kind = .identifier)
      ∧ params.length ≤ maxArguments ∧ Stmt.CanonicalAll body

def FunDecl.CanonicalAll : List FunDecl → Prop
  | [] => True
  | f :: rest => f.Canonical ∧ FunDecl.CanonicalAll rest

end

-- =================================================================== numbers

def Expr.ids (e : Expr) : List NodeId := e.nodes.map Node.id

def Expr.idsAll (es : List Expr) : List NodeId := (Expr.nodesAll es).map Node.id

def Stmt.ids (s : Stmt) : List NodeId := s.nodes.map Node.id

def Stmt.idsAll (body : List Stmt) : List NodeId := (Stmt.nodesAll body).map Node.id

/-- The numbers in the body of a function. -/
def FunDecl.ids (f : FunDecl) : List NodeId := f.nodes.map Node.id

def FunDecl.idsAll (fs : List FunDecl) : List NodeId := (FunDecl.nodesAll fs).map Node.id

end Lox
