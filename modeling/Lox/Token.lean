/-
Tokens: the words of a program text together with where they stand. A token is
all that the tree keeps of the text, and every error that a program can meet
points at one.
-/

namespace Lox

/-- A place in a text. Lines and columns count from one and offsets from zero; line and column
zero stand for no place at all. -/
structure Place where
  line : Int
  column : Int
  offset : Int
deriving DecidableEq

/-- No place in particular. -/
def Place.nowhere : Place := ⟨0, 0, 0⟩

/-- What a token is for. -/
inductive TokenKind where
  | identifier
  | number
  | string
  /-- A reserved word that the tree keeps. -/
  | keyword
  | operator
  | logicalAnd
  | logicalOr
  | equal
  | rightParen
  | endOfText
  /-- A kind that no program text has. -/
  | other (name : String)
deriving DecidableEq

/-- Kinds are shown in capitals. -/
def TokenKind.name : TokenKind → String
  | .identifier => "IDENTIFIER"
  | .number => "NUMBER"
  | .string => "STRING"
  | .keyword => "KEYWORD"
  | .operator => "OPERATOR"
  | .logicalAnd => "AND"
  | .logicalOr => "OR"
  | .equal => "EQUAL"
  | .rightParen => "RIGHT_PAREN"
  | .endOfText => "EOF"
  | .other name => name

/-- The kind of a given name. -/
def TokenKind.ofName (name : String) : TokenKind :=
  let known : List TokenKind :=
    [.identifier, .number, .string, .keyword, .operator, .logicalAnd, .logicalOr, .equal,
     .rightParen, .endOfText]
  (known.find? fun kind => kind.name == name).getD (.other name)

/-- A word of the text: what it is for, how it is spelt and where it starts. A string is spelt
without its quotes and starts at the first of them. -/
structure Token where
  kind : TokenKind
  lexeme : String
  place : Place
deriving DecidableEq

/-- Place, kind and spelling on one line. -/
def Token.describe (token : Token) : String :=
  s!"{token.place.line}:{token.place.column}: {token.kind.name} {token.lexeme}"

end Lox
