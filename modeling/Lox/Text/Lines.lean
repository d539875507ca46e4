/-
A text as a sequence of lines, the line ends of other systems, and tabulators.
-/

namespace Lox.Text

/-- The lines of a text. A line ends before a newline and the last one at the end of the text, so
there is one line more than there are newlines. -/
def lines : List Char → List (List Char)
  | [] => [[]]
  | '\n' :: rest => [] :: lines rest
  | c :: rest =>
    match lines rest with
    | [] => [[c]]
    | first :: others => (c :: first) :: others

/-- There is always a first line. -/
theorem lines_ne_nil (cs : List Char) : lines cs ≠ [] := by
  fun_cases lines cs <;> simp

/-- A text without the newline at its end, if there is one. -/
def withoutFinalNewline (cs : List Char) : List Char :=
  if cs.getLast? = some '\n' then cs.dropLast else cs

/-- Every carriage return, and the newline behind it if there is one, becomes one newline. -/
def unifyNewlines : List Char → List Char
  | '\r' :: '\n' :: rest => '\n' :: unifyNewlines rest
  | '\r' :: rest => '\n' :: unifyNewlines rest
  | c :: rest => c :: unifyNewlines rest
  | [] => []

/-- Tabulators filled up with spaces to the next column that is a multiple of eight; `column`
characters stand before the text on its line. -/
def expandTabs (column : Nat) : List Char → List Char
  | [] => []
  | '\t' :: rest =>
    let width := 8 - column % 8
    List.replicate width ' ' ++ expandTabs (column + width) rest
  | c :: rest => c :: expandTabs (if c == '\n' || c == '\r' then 0 else column + 1) rest

end Lox.Text
