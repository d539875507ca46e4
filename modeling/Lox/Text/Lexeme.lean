/-
Lexemes without grammar: where the next word of a text ends when nothing is
known about the text. Recovery and error messages need it, for both start at a
place where the grammar has already failed.

The two readings agree on words and numbers. Recovery takes a whole string as
one lexeme and every operator character for itself (`length`); a message shows
the quote alone and an operator in full (`shownLength`).
-/
import Lox.Text.Blank
import Lox.Text.Digit
import Lox.Text.Name

namespace Lox.Text.Lexeme

/-- How many characters at the start of a text form a number: digits, and a point with digits
behind it. 0 when there is no digit. -/
def numberLength (cs : List Char) : Nat :=
  let whole := (cs.takeWhile isDigit).length
  if whole = 0 then 0
  else
    match cs.drop whole with
    | '.' :: rest =>
      let fraction := (rest.takeWhile isDigit).length
      if fraction = 0 then whole else whole + 1 + fraction
    | _ => whole

/-- How many characters a string at the start of a text has, quotes included. Without a closing
quote it runs to the end of the text. -/
def stringLength : List Char → Nat
  | '"' :: rest =>
    let inner := (rest.takeWhile (· ≠ '"')).length
    if inner < rest.length then inner + 2 else inner + 1
  | _ => 0

/-- The length of the lexeme at the start of a text that does not start with a blank: a string, a
word, a number, or else one character. -/
def length (cs : List Char) : Nat :=
  if cs.isEmpty then 0
  else max 1 (max (stringLength cs) (max (nameLength cs) (numberLength cs)))

/-- The length of an operator of two characters at the start of a text; 0 when there is none. -/
def comparisonLength : List Char → Nat
  | c :: '=' :: _ => if c == '=' || c == '!' || c == '<' || c == '>' then 2 else 0
  | _ => 0

/-- The length of what a message shows of a text that does not start with a blank. -/
def shownLength (cs : List Char) : Nat :=
  if cs.isEmpty then 0
  else max 1 (max (comparisonLength cs) (max (nameLength cs) (numberLength cs)))

end Lox.Text.Lexeme
