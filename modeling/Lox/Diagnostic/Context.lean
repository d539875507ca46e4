/-
The window: the lines of a text around a fault, each with its number, and a
caret below the column at fault. Numbers are set right in four places, and the
caret line always has as many blanks there; a number of five digits moves its
line by one and leaves the caret where it is.
-/
import Lox.Text.Lines

namespace Lox.Diagnostic

/-- A number set right in at least four places. -/
def lineNumber (n : Nat) : String :=
  let digits := toString n
  String.ofList (List.replicate (4 - digits.length) ' ') ++ digits

/-- A numbered line of the text. -/
def numberedLine (n : Nat) (line : List Char) : String :=
  lineNumber n ++ " | " ++ String.ofList line

/-- The line below a numbered line that points at a column. -/
def caretLine (column : Int) : String :=
  "     | " ++ String.ofList (List.replicate (column - 1).toNat ' ') ++ "^"

/-- The rows of the window: all lines with numbers within `margin` of `line`, and the caret behind
line `line` itself. -/
def windowRows (source : List Char) (line column margin : Int) : List String :=
  let numbered := (Text.lines source).zipIdx 1
  numbered.flatMap fun (content, n) =>
    if line - margin ≤ n && n ≤ line + margin then
      numberedLine n content :: (if (n : Int) = line then [caretLine column] else [])
    else []

/-- The window as one text. -/
def window (source : List Char) (line column margin : Int) : String :=
  "\n".intercalate (windowRows source line column margin)

end Lox.Diagnostic
