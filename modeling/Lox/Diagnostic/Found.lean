/-
What stands at a place where reading stopped: the next lexeme on the line, or
the end of the line, or the end of the whole text.
-/
import Lox.Text.Lexeme
import Lox.Text.Lines

namespace Lox

/-- What stands at a place of a text. -/
inductive Found where
  | lexeme (text : String)
  | endOfLine
  | endOfInput
deriving DecidableEq

namespace Found

/-- The part of a line from a column on. Columns below the first count from the end of the line,
column 0 being its last character. -/
def fromColumn (line : List Char) (column : Int) : List Char :=
  if 1 ≤ column then line.drop (column - 1).toNat
  else line.drop (line.length - (1 - column).toNat)

/-- The line of a given number. Line 0 is the last one, and numbers below it count back from
there. -/
def lineAt? (lines : List (List Char)) (number : Int) : Option (List Char) :=
  if 1 ≤ number then lines[(number - 1).toNat]?
  else if (1 - number).toNat ≤ lines.length then lines[lines.length - (1 - number).toNat]?
  else none

/-- What stands at a line and column. Blanks before the lexeme do not count, and behind the last
line there is the end of the input. -/
def atPlace (source : List Char) (line column : Int) : Found :=
  let lines := Text.lines source
  match lineAt? lines line with
  | none => .endOfInput
  | some content =>
    match Text.trimLeft (fromColumn content column) with
    | [] => if line = lines.length then .endOfInput else .endOfLine
    | rest => .lexeme (String.ofList (rest.take (Text.Lexeme.shownLength rest)))

/-- A lexeme in quotes, or the end in words. -/
def describe : Found → String
  | .lexeme text => "'" ++ text ++ "'"
  | .endOfLine => "end of line"
  | .endOfInput => "end of input"

/-- The phrase by which a report names what was found. Reports say nothing about the end of a
line. -/
def subject : Found → String
  | .lexeme text => " at '" ++ text ++ "'"
  | .endOfLine => ""
  | .endOfInput => " at end"

end Found

end Lox
