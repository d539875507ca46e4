/-
Trivia: what may stand between two words of a program and means nothing. There
are two readings of it.

The grammar passes spaces, tabulators and line ends, and comments that run to
the end of the line; a backslash before the newline carries a comment on to the
next line. Recovery works on a text that the grammar has refused, so it passes
every blank there is, and a comment ends at its newline whatever stands before.

Both are measured first (`triviaLength`, `gapLength`) and passed in one move.
-/
import Lox.Source.Cursor
import Lox.Text.Blank

namespace Lox

/-- The white space of a program text. -/
def isSpace (c : Char) : Bool := c == ' ' || c == '\n' || c == '\t' || c == '\r'

-- =============================================================== measures

/-- The length of the trivia at the start of a text; `inComment` says that the text begins inside a
comment. -/
def triviaLength (inComment : Bool) : List Char → Nat
  | [] => 0
  | [c] =>
    if inComment then 1 else if isSpace c then 1 else 0
  | c :: d :: rest =>
    if inComment then
      if c == '\\' && d == '\n' then triviaLength true rest + 2
      else triviaLength (c ≠ '\n') (d :: rest) + 1
    else if c == '/' && d == '/' then triviaLength true rest + 2
    else if isSpace c then triviaLength false (d :: rest) + 1
    else 0

/-- The length of the blanks and comments at the start of a text, for recovery. -/
def gapLength (inComment : Bool) : List Char → Nat
  | [] => 0
  | [c] =>
    if inComment then 1 else if Text.isBlank c then 1 else 0
  | c :: d :: rest =>
    if inComment then gapLength (c ≠ '\n') (d :: rest) + 1
    else if c == '/' && d == '/' then gapLength true rest + 2
    else if Text.isBlank c then gapLength false (d :: rest) + 1
    else 0

-- ================================================================== moves

namespace Cursor

/-- Passes the trivia of the grammar. -/
def skipTrivia (c : Cursor) : Cursor := c.advance (triviaLength false c.rest)

/-- Passes every blank and comment. -/
def skipGap (c : Cursor) : Cursor := c.advance (gapLength false c.rest)

end Cursor

end Lox
