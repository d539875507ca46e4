/-
A line typed at the prompt. It is a command that shows something, or a program;
a line that does not end like a statement is first taken as an expression, whose
value is printed. Every line runs in the same session, and a line that fails
leaves the session ready for the next.
-/
import Lox.Transcript
import Lox.Syntax.Printer

namespace Lox.Prompt

/-- What a line asks for. -/
inductive Request where
  /-- Show the tree of a program. -/
  | showTree (text : List Char)
  /-- Show the distances of a program. -/
  | showDistances (text : List Char)
  /-- Show the global variables. -/
  | showGlobals
  | run (text : List Char)

/-- The text behind a command word and one space. -/
def after? (word : String) (line : List Char) : Option (List Char) :=
  let start := word.toList ++ [' ']
  if start.isPrefixOf line then some (line.drop start.length) else none

def Request.ofLine (line : List Char) : Request :=
  match after? ":parse" line with
  | some text => .showTree text
  | none =>
    match after? ":analyze" line with
    | some text => .showDistances text
    | none => if Text.trim line == ":env".toList then .showGlobals else .run line

/-- A line that ends like a statement is no expression. -/
def endsLikeStatement (line : List Char) : Bool :=
  match (Text.trimRight line).getLast? with
  | some c => c == ';' || c == '\x7d'
  | none => false

-- ================================================================ listings

/-- The text of a value in the listing of variables. Numbers show a fraction or an exponent, and
the other constants have spellings that no program uses. -/
def listed (h : Heap) : Value → String
  | .nil => "None"
  | .boolean b => if b then "True" else "False"
  | .number x => Decimal.Style.plain.write x
  | value => h.text value

/-- The global variables in the order of their names; the natives are left out. -/
def globalLines (s : Session) : List String :=
  let natives := Native.all.map Native.name
  let shown := s.globals.entries.filter fun entry => !natives.contains entry.1
  (shown.mergeSort fun a b => a.1 ≤ b.1).map fun (name, value) =>
    "  " ++ name ++ " = " ++ listed s.machine.heap value

/-- The distances of a program, in the order in which its nodes were numbered. -/
def distanceLines (survey : Survey) : List String :=
  survey.distances.toList.map fun (id, distance) => s!"  node {id} -> distance {distance}"

-- ===================================================================== runs

/-- How texts typed at the prompt are called. -/
def label : String := "<input>"

/-- Shows a listing made from a stage of the session. -/
def listing {α : Type} (result : Except Outcome α × Session) (lines : α → List String) :
    Transcript × Session :=
  match result with
  | (.ok a, s) => ((s.transcript none .completed).andThen fun _ => .say (lines a), s)
  | (.error outcome, s) => (s.transcript none outcome, s)

/-- Reads and resolves a program that is not to run. -/
def survey (s : Session) (text : List Char) : Except Outcome Survey × Session :=
  match s.read text label with
  | (.error outcome, s) => (.error outcome, s)
  | (.ok body, s) => s.resolve body

/-- The program that prints the value of a line, if the line reads as an expression. Node numbers
that were handed out stay used in either case. -/
def printed? (s : Session) (line : List Char) : Option (List Stmt) × Session :=
  if endsLikeStatement line then (none, s)
  else
    let reading := readExpression line s.nextId
    match reading.result with
    | .ok e => (some [.print reading.nextId e], { s with nextId := reading.nextId + 1 })
    | .error _ => (none, { s with nextId := reading.nextId })

/-- Runs a line as a program, or prints its value. -/
def runLine (s : Session) (line : List Char) : Outcome × Session :=
  match printed? s line with
  | (some body, s) => s.runTree body
  | (none, s) => s.run line label

/-- Answers a line. The session's own record of what was shown starts anew with every line. -/
def answer (s : Session) (line : List Char) : Transcript × Session :=
  let s := s.hush
  match Request.ofLine line with
  | .showTree text => listing (s.read text label) fun body => body.map Stmt.view
  | .showDistances text => listing (survey s text) distanceLines
  | .showGlobals => (.say (globalLines s), s)
  | .run text =>
    let (outcome, s) := runLine s text
    (s.transcript none outcome, s)

end Lox.Prompt
