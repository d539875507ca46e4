/-
Paths of files. A path is a row of steps divided by slashes. An empty step and a
step that is a single dot lead nowhere, so paths that differ in such steps alone
lead to the same file, and each has one plain spelling. A step of two dots stays:
where it leads is known to the file system only.
-/

namespace Lox.Script

/-- The steps of a path. -/
def pathSteps : List Char → List (List Char)
  | [] => [[]]
  | '/' :: rest => [] :: pathSteps rest
  | c :: rest =>
    match pathSteps rest with
    | [] => [[c]]
    | step :: steps => (c :: step) :: steps

/-- Whether a step leads to another place. -/
def leadsOn (step : List Char) : Bool := !step.isEmpty && step != ['.']

/-- A path without the steps that lead nowhere. A slash at its start stays. -/
def plainPath (path : String) : String :=
  let cs := path.toList
  let root := if cs.head? = some '/' then ['/'] else []
  String.ofList (root ++ List.intercalate ['/'] ((pathSteps cs).filter leadsOn))

end Lox.Script
