/-
Recovery: where reading resumes after a fault. Lexemes are thrown away up to
and including the first semicolon, or up to the first word that begins a
statement; what lies inside a string or a comment counts as neither. At least
one lexeme goes, so a fault can never be met twice at one place.
-/
import Lox.Source.Trivia
import Lox.Text.Lexeme

namespace Lox

/-- The words in front of which reading resumes. -/
def statementWords : List String :=
  ["class", "fun", "var", "for", "if", "while", "print", "return"]

namespace Cursor

/-- The lexeme at the cursor. -/
def lexeme (c : Cursor) : List Char := c.rest.take (Text.Lexeme.length c.rest)

/-- Whether the lexeme at the cursor begins a statement. -/
def atStatementWord (c : Cursor) : Bool :=
  statementWords.any fun word => word.toList == c.lexeme

/-- Throws the lexeme at the cursor away, and the gap behind it. -/
def passLexeme (c : Cursor) : Cursor := (c.advance c.lexeme.length).skipGap

/-- Throws lexemes away until reading can resume; `fuel` bounds their number. -/
def resumeWithin (c : Cursor) : Nat → Cursor
  | 0 => c
  | fuel + 1 =>
    if c.atEnd then c
    else
      let after := c.passLexeme
      if c.lexeme == [';'] || after.atEnd || after.atStatementWord then after
      else after.resumeWithin fuel

/-- Where reading resumes after a fault at the cursor. There are no more lexemes than
characters. -/
def resume (c : Cursor) : Cursor := c.skipGap.resumeWithin c.rest.length

end Cursor

end Lox
