/-
Reading whole texts. A text is read as a program, as a single expression, or as
much of it as one rule of the grammar takes. Whatever is read, the nodes are
numbered on from a given number, and the number to go on with comes back.
-/
import Lox.Grammar.Statement

namespace Lox

/-- What reading a text brought. -/
structure Reading (α : Type) where
  result : Except Failure α
  /-- The faults that recovery passed over. -/
  recovered : List Fault
  /-- The number for the next node. -/
  nextId : NodeId

/-- All faults of a text, in the order in which they were met; the failure that ended reading is
the last. -/
def Reading.faults {α : Type} (r : Reading α) : List Fault :=
  match r.result with
  | .ok _ => r.recovered
  | .error e => r.recovered ++ [e.fault]

namespace Parser

-- ============================================================ the grammar

/-- Declarations nested to the given depth, and everything in them. -/
def declarationAt (depth : Nat) : Parser Stmt := declaration (assignment depth) depth

/-- Declarations in braces. -/
def bracedAt (depth : Nat) : Parser (List Stmt) := braced (declarationAt depth)

/-- Statements nested to the given depth. -/
def statementAt (depth : Nat) : Parser Stmt := statement (assignment depth) (bracedAt depth) depth

/-- Nothing but trivia is left. -/
def endOfText : Parser Unit := do
  let _ ← skipTrivia
  let cursor ← here
  if cursor.atEnd then pure () else reject .endOfText

/-- Declarations to the end of the text. -/
def program (depth : Nat) : Parser (List Stmt) := do
  let body ← declarations none (declarationAt depth)
  endOfText
  pure body

/-- One expression to the end of the text. -/
def singleExpression (depth : Nat) : Parser Expr := do
  let e ← assignment depth
  endOfText
  pure e

-- ============================================================= whole texts

/-- Reads a text from its start by one rule, which may leave some of it. No text nests as deep as it
has characters, so one more is depth enough. -/
def read {α : Type} (p : Nat → Parser α) (text : List Char) (nextId : NodeId) : Reading α :=
  let size := text.length
  match p (size + 1) ⟨Cursor.start text, nextId, [], size⟩ with
  | .ok a s => ⟨.ok a, s.recovered, s.nextId⟩
  | .error e s => ⟨.error e, s.recovered, s.nextId⟩

end Parser

/-- Reads a text as a program. -/
def readProgram (text : List Char) (nextId : NodeId) : Reading (List Stmt) :=
  Parser.read Parser.program text nextId

/-- Reads a text as one expression. -/
def readExpression (text : List Char) (nextId : NodeId) : Reading Expr :=
  Parser.read Parser.singleExpression text nextId

-- ================================================================= reports

/-- The reports on a list of faults of one text. -/
def faultReports (text : List Char) (faults : List Fault) : List Diagnostic :=
  faults.map (Fault.diagnostic text)

/-- The statements of a program, or all its faults. A program with a fault that recovery passed
over is no program, however well the rest reads. -/
def Reading.program {α : Type} (r : Reading α) : Except (List Fault) α :=
  match r.result, r.recovered with
  | .ok a, [] => .ok a
  | _, _ => .error r.faults

/-- The trace of reading a program: a line for each fault that recovery passed over, and one for
success. `label` says where the text came from. -/
def Reading.trace (text : List Char) (label : String) (r : Reading (List Stmt)) : List String :=
  (faultReports text r.recovered).map (fun d => "Recovered from: " ++ d.format)
    ++ match r.program with
      | .ok body => [s!"Parsed {body.length} top-level statements from {label}"]
      | .error _ => []

end Lox
