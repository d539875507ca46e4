/-
The words of the grammar. Each reader here passes the trivia before its word and
then either reads the word or fails softly at the place where it should be.
-/
import Lox.Grammar.Parser
import Lox.Text.Lexeme
import Lox.Decimal.Reading

namespace Lox.Parser

/-- Whether a text starts with a word. -/
def startsWith (word : String) (cs : List Char) : Bool := word.toList.isPrefixOf cs

/-- The place one character to the left, on the same line. -/
def before (place : Place) : Place :=
  { place with column := place.column - 1, offset := place.offset - 1 }

/-- Reads a piece of text of `n` characters as a token of the given kind. -/
def takeToken (kind : TokenKind) (n : Nat) : Parser Token := do
  let cursor ← here
  take n
  pure ⟨kind, String.ofList (cursor.rest.take n), cursor.place⟩

-- ================================================ punctuation and keywords

/-- Reads a punctuation mark. -/
def symbol (c : Char) : Parser Unit := do
  let _ ← skipTrivia
  let cursor ← here
  if cursor.rest.head? = some c then take 1 else reject (.symbol c)

/-- Reads a punctuation mark that the tree keeps. -/
def symbolToken (kind : TokenKind) (c : Char) : Parser Token := do
  let _ ← skipTrivia
  let cursor ← here
  if cursor.rest.head? = some c then takeToken kind 1 else reject (.symbol c)

/-- Reads a reserved word. It must not touch another word on either side; where it does, the
failure lies at the character it touches. -/
def keyword (kind : TokenKind) (word : String) : Parser Token := do
  let _ ← skipTrivia
  let cursor ← here
  if !startsWith word cursor.rest then reject (.keyword word)
  else if cursor.previous.any Text.isKeywordChar then
    failAt .soft (.keywordPreceded word) (before cursor.place)
  else
    let after := cursor.advance word.length
    if after.rest.head?.any Text.isKeywordChar then
      failAt .soft (.keywordFollowed word) after.place
    else takeToken kind word.length

/-- Reads the first of some operators that stands at the cursor. -/
def operator (spellings : List String) : Parser Token := do
  let _ ← skipTrivia
  let cursor ← here
  match spellings.find? fun spelling => startsWith spelling cursor.rest with
  | some spelling => takeToken .operator spelling.length
  | none => reject .operator

/-- Reads the sign of assignment, which is no part of a comparison. -/
def equalSign : Parser Token := do
  let _ ← skipTrivia
  let cursor ← here
  match cursor.rest with
  | '=' :: '=' :: _ => reject .operator
  | '=' :: _ => takeToken .equal 1
  | _ => reject .operator

/-- Reads a name: the longest one at the cursor, unless a reserved word ends there. -/
def identifier : Parser Token := do
  let _ ← skipTrivia
  let cursor ← here
  let length := Text.nameLength cursor.rest
  if length = 0 || Text.startsReserved cursor.rest then reject .identifier
  else takeToken .identifier length

-- =============================================================== constants

/-- Reads a number: digits, and a point with digits behind it. -/
def numberConstant : Parser (Constant × Token) := do
  let _ ← skipTrivia
  let cursor ← here
  let length := Text.Lexeme.numberLength cursor.rest
  if length = 0 then reject .expression
  else
    let spelling := cursor.rest.take length
    let whole := spelling.takeWhile Text.isDigit
    let token ← takeToken .number length
    pure (.number (Decimal.ofDigits whole (spelling.drop (whole.length + 1))), token)

/-- Reads a string: everything up to the next quote, line ends included. -/
def stringConstant : Parser (Constant × Token) := do
  let _ ← skipTrivia
  let cursor ← here
  match cursor.rest with
  | '"' :: rest =>
    let content := rest.takeWhile (· ≠ '"')
    if content.length < rest.length then
      let text := String.ofList content
      take (content.length + 2)
      pure (.string text, ⟨.string, text, cursor.place⟩)
    else reject .expression
  | _ => reject .expression

/-- Reads a constant that is spelt as a reserved word. -/
def wordConstant (word : String) (value : Constant) : Parser (Constant × Token) := do
  let token ← keyword .keyword word
  pure (value, token)

end Lox.Parser
