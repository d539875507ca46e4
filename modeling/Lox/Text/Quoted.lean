/-
Quoted words in messages: a text in single quotes, or in double quotes when it
holds a single quote and no double one. What cannot be printed is written with a
backslash.
-/
import Lox.Text.Hidden

namespace Lox.Text

/-- A number in hexadecimal digits, filled up with zeros to a width. -/
def hexText (width n : Nat) : List Char :=
  let digits := Nat.toDigits 16 n
  List.replicate (width - digits.length) '0' ++ digits

/-- The escape of a character by its place: two, four or eight hexadecimal digits, as many as the
place needs. -/
def placeEscape (c : Char) : List Char :=
  let n := c.toNat
  if n < 0x100 then '\\' :: 'x' :: hexText 2 n
  else if n < 0x10000 then '\\' :: 'u' :: hexText 4 n
  else '\\' :: 'U' :: hexText 8 n

/-- A character between quotes of the given kind. -/
def escaped (quote c : Char) : List Char :=
  if c == quote || c == '\\' then ['\\', c]
  else if c == '\n' then ['\\', 'n']
  else if c == '\r' then ['\\', 'r']
  else if c == '\t' then ['\\', 't']
  else if isHidden c then placeEscape c
  else [c]

/-- A text in quotes. -/
def quoted (s : String) : String :=
  let cs := s.toList
  let quote := if cs.contains '\'' && !cs.contains '"' then '"' else '\''
  String.ofList (quote :: cs.flatMap (escaped quote) ++ [quote])

end Lox.Text
