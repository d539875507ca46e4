/-
Reports: how the end of a program is told on the error channel. A report on a
text that was refused shows the line at fault and a hint or two; a report on a
running program shows the line. A text that was typed at the prompt stands above
its report already, so there the line is left out.
-/
import Lox.Session

namespace Lox

/-- A text as it stands on a channel: each line ended by a newline. -/
def ended (lines : List String) : String := String.join (lines.map (· ++ "\n"))

/-- The lines about a place of a text; a fault that points nowhere has none. -/
def placeLines (source : Option (List Char)) (line column : Int) : List String :=
  match source with
  | some text => [Diagnostic.window text line column 0]
  | none => []

namespace Diagnostic

/-- The report on a program that was refused for this fault among others. -/
def refusalLines (source : Option (List Char)) (d : Diagnostic) : List String :=
  d.format :: ((if 0 < d.line then placeLines source d.line d.column else [])
    ++ d.suggestions.map fun s => "  Hint: " ++ s)

end Diagnostic

/-- The report on a program that was stopped by a fault. -/
def RuntimeFault.lines (source : Option (List Char)) (fault : RuntimeFault) : List String :=
  fault.diagnostic.format ::
    match fault.token with
    | some token => placeLines source token.place.line token.place.column
    | none => []

namespace Outcome

/-- The reports on a program that did not start. -/
def refusals : Outcome → List Diagnostic
  | .unreadable reports => reports
  | .illScoped faults => faults.map ScopeFault.diagnostic
  | _ => []

/-- What the error channel shows of an outcome. Leaving by `exit` is no fault. -/
def report (source : Option (List Char)) (outcome : Outcome) : String :=
  match outcome with
  | .stopped (.fault fault) => ended (fault.lines source)
  | _ => ended (outcome.refusals.flatMap (Diagnostic.refusalLines source))

end Outcome

end Lox
