/-
Names and reserved words. A name is a letter or underscore followed by letters,
digits and underscores, all of them ASCII, and no reserved word that stands
alone: `classy` is a name and `class` is not.

Two further classes decide where a reserved word may stand as a keyword: next to
it neither a letter, digit nor underscore of ASCII may stand, nor a dollar sign.
-/
import Lox.Text.Word

namespace Lox.Text

/-- The words that no name may be. -/
def reservedWords : List String :=
  ["and", "class", "else", "false", "for", "fun", "if", "nil", "or",
   "print", "return", "super", "this", "true", "var", "while"]

/-- A name may begin with this character. -/
def isNameStart (c : Char) : Bool :=
  ('a' ≤ c && c ≤ 'z') || ('A' ≤ c && c ≤ 'Z') || c == '_'

/-- A name may go on with this character. -/
def isNameChar (c : Char) : Bool := isAsciiAlnum c || c == '_'

/-- A keyword must not touch this character. -/
def isKeywordChar (c : Char) : Bool := isNameChar c || c == '$'

/-- How many characters at the start of a text are spelt like a name; 0 when none is. Reserved
words count as well. -/
def nameLength (cs : List Char) : Nat :=
  match cs with
  | [] => 0
  | c :: rest => if isNameStart c then 1 + (rest.takeWhile isNameChar).length else 0

/-- A reserved word stands at the start of a text and ends at a word boundary. -/
def startsReserved (cs : List Char) : Bool :=
  reservedWords.any fun word =>
    word.toList.isPrefixOf cs && wordEndsBefore (cs.drop word.length)

end Lox.Text
