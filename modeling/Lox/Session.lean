/-
Sessions: programs that run one after another on one machine. A program is read,
then resolved, then run, and a fault of an earlier stage keeps the later ones
from starting, so a program that is refused has had no effect.

Node numbers go on from one text of a session to the next. Distances of earlier
programs therefore stay valid, and functions that they left behind find their
variables.
-/
import Lox.Grammar.Program
import Lox.Eval.Evaluate

namespace Lox

/-- How a program ended. -/
inductive Outcome where
  | completed
  /-- The text could not be read. -/
  | unreadable (reports : List Diagnostic)
  /-- The program breaks the rules of scoping. -/
  | illScoped (faults : List ScopeFault)
  /-- The program was stopped while it ran. -/
  | stopped (stop : Stop)

/-- A program that nests its calls too deeply has a fault like any other, though no token is to
blame. -/
def Outcome.settled : Outcome → Outcome
  | .stopped .overflow => .stopped (.fault ⟨none, .stackOverflow⟩)
  | outcome => outcome

structure Session where
  machine : Machine
  /-- The number for the next node. -/
  nextId : NodeId

/-- Calls may nest this deep. -/
def callLimit : Nat := 900

/-- A program may take this many steps into its tree, far more than any machine can take. -/
def stepLimit : Nat := Nat.pow 2 60

namespace Session

/-- A session in which nothing has run. With `tracing` each stage reports its steps. -/
def start (tracing : Bool) (clock : Float) : Session := ⟨Machine.start tracing clock, 1⟩

/-- Forgets what was printed and traced so far. -/
def hush (s : Session) : Session :=
  { s with machine := { s.machine with output := "", trace := "" } }

-- ================================================================== stages

/-- Reads a text as a program; `label` says where it came from. -/
def read (s : Session) (text : List Char) (label : String) :
    Except Outcome (List Stmt) × Session :=
  let reading := readProgram text s.nextId
  let s' : Session := ⟨s.machine.noteAll (reading.trace text label), reading.nextId⟩
  match reading.program with
  | .ok body => (.ok body, s')
  | .error faults => (.error (.unreadable (faultReports text faults)), s')

/-- Resolves a program. -/
def resolve (s : Session) (body : List Stmt) : Except Outcome Survey × Session :=
  let survey := resolveProgram body
  let s' := { s with machine := s.machine.noteAll survey.trace }
  if survey.faults.isEmpty then (.ok survey, s') else (.error (.illScoped survey.faults), s')

/-- Takes over the distances of a resolved program. -/
def link (s : Session) (survey : Survey) : Session :=
  { s with machine := { s.machine with distances := s.machine.distances.addLinks survey.links } }

/-- Runs a program whose distances are known. -/
def perform (s : Session) (body : List Stmt) : Outcome × Session :=
  match Eval.interpret stepLimit callLimit body s.machine with
  | .ok () m => (.completed, { s with machine := m })
  | .error stop m => (.stopped stop, { s with machine := m })

/-- Resolves a program and runs it. -/
def runTree (s : Session) (body : List Stmt) : Outcome × Session :=
  match s.resolve body with
  | (.error outcome, s) => (outcome, s)
  | (.ok survey, s) =>
    let (outcome, s) := (s.link survey).perform body
    (outcome.settled, s)

/-- Reads, resolves and runs a program. -/
def run (s : Session) (text : List Char) (label : String) : Outcome × Session :=
  match s.read text label with
  | (.error outcome, s) => (outcome, s)
  | (.ok body, s) => s.runTree body

/-- The global variables. -/
def globals (s : Session) : Bindings Value := s.machine.heap.scopes.bindings globalFrame

end Session

end Lox
