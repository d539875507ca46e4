/-
Scripts: programs in files. A file is read, and its program is run, or its tree
or its references are shown. The exit code tells a refused program from one that
failed while it ran.
-/
import Lox.Script.Path
import Lox.Transcript
import Lox.Syntax.Printer
import Lox.Syntax.References
import Lox.Text.Utf8

namespace Lox.Script

/-- The exit code when a file cannot be read. -/
def unreadableFile : Int := 1

/-- The exit code when a program was refused. -/
def dataError : Int := 65

/-- The exit code when a program failed while it ran. -/
def softwareError : Int := 70

/-- The files at hand: what a plain path leads to. -/
abbrev Files := String → Option (List UInt8)

/-- The bytes of the file that a path leads to. -/
def bytesAt? (files : Files) (path : String) : Option (List UInt8) := files (plainPath path)

/-- Why a file yields no text. -/
inductive FileFault where
  | missing
  | undecodable (fault : Text.Utf8.Fault)

/-- The text of a file, its line ends unified. -/
def textOf (files : Files) (path : String) : Except FileFault (List Char) :=
  match bytesAt? files path with
  | none => .error .missing
  | some bytes =>
    match Text.Utf8.decode bytes with
    | .ok text => .ok (Text.unifyNewlines text)
    | .error fault => .error (.undecodable fault)

/-- What is said when a file yields no text. -/
def FileFault.lines (path : String) : FileFault → List String
  | .missing =>
    [s!"Error: Script file '{path}' not found",
     "  Hint: Check the file path and make sure the file exists"]
  | .undecodable fault =>
    [s!"Error: Cannot decode file '{path}': {fault.message}",
     "  Hint: Make sure the file is a text file with UTF-8 encoding"]

/-- The text of a file, or the end of the process. -/
def read (files : Files) (path : String) : Except Transcript (List Char) :=
  match textOf files path with
  | .ok text => .ok text
  | .error fault => .error (.fail unreadableFile (fault.lines path))

/-- The report on a file that is to be parsed and yields no text. -/
def FileFault.diagnostic (path : String) : FileFault → Diagnostic
  | .missing => Diagnostic.nowhere ("File not found: " ++ path)
  | .undecodable fault => Diagnostic.nowhere (s!"Cannot decode file {path}: {fault.message}")

/-- The program in a file, or the reports on it. -/
def programIn (files : Files) (path : String) : Except (List Diagnostic) (List Stmt) :=
  match textOf files path with
  | .error fault => .error [fault.diagnostic path]
  | .ok text =>
    match (readProgram text 1).program with
    | .ok body => .ok body
    | .error faults => .error (faultReports text faults)

-- ================================================================ listings

/-- The head of a listing. -/
def heading (line : String) : List String :=
  [line, String.ofList (List.replicate 50 '=')]

/-- The trees of a program. -/
def treeLines (body : List Stmt) : List String :=
  heading s!"Parsed {body.length} top-level statements:" ++ body.map Stmt.view

/-- The kinds of references, in the order in which they are listed. -/
def listedKinds : List ReferenceKind := [.name, .assignment, .this, .super]

/-- One reference and where its name is bound. -/
def referenceLine (distances : Distances) (r : Reference) : String :=
  let binding :=
    match distances[r.id]? with
    | some distance => s!"local, distance {distance}"
    | none => "global"
  s!"  {r.token.place.line}:{r.token.place.column}: {r.token.lexeme} -> {binding}"

/-- All references of a program, kind by kind. -/
def referenceLines (distances : Distances) (body : List Stmt) : List String :=
  let references := Stmt.referencesAll body
  heading s!"Resolved {distances.size} local references:"
    ++ listedKinds.flatMap fun kind =>
      (references.filter fun r => r.kind = kind).map (referenceLine distances)

-- =================================================================== runs

/-- The end of a run: a refused program and a failed one end the process each with its own code. -/
def conclude (s : Session) (text : List Char) (outcome : Outcome) : Transcript :=
  let shown := s.transcript (some text) outcome
  match outcome with
  | .completed => shown
  | .unreadable _ | .illScoped _ => { shown with exit := some dataError }
  | .stopped (.exit code) => { shown with exit := some code }
  | .stopped _ => { shown with exit := some softwareError }

/-- Shows the tree of a script. -/
def showTree (s : Session) (text : List Char) (path : String) : Transcript :=
  match s.read text path with
  | (.error outcome, s) => conclude s text outcome
  | (.ok body, s) => (conclude s text .completed).andThen fun _ => .say (treeLines body)

/-- Shows the references of a script and where they are bound. -/
def showReferences (s : Session) (text : List Char) (path : String) : Transcript :=
  match s.read text path with
  | (.error outcome, s) => conclude s text outcome
  | (.ok body, s) =>
    match s.resolve body with
    | (.error outcome, s) => conclude s text outcome
    | (.ok survey, s) =>
      (conclude s text .completed).andThen fun _ => .say (referenceLines survey.distances body)

/-- Runs a script. -/
def run (s : Session) (text : List Char) (path : String) : Transcript :=
  let (outcome, s) := s.run text path
  conclude s text outcome

end Lox.Script
