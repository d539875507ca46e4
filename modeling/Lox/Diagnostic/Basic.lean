/-
Diagnostics: what a person is told about a fault. A diagnostic is already in
words; the faults themselves are kept as causes by the parts that find them
(`Grammar/Fault.lean`, `Binding/Fault.lean`, `Eval/Fault.lean`) and are put
into words only here at the border.
-/
import Lox.Token

namespace Lox

structure Diagnostic where
  /-- The class of fault, the first word of the report. -/
  kind : String
  message : String
  line : Int
  column : Int
  /-- A phrase that names the word at fault; empty when there is nothing to name. -/
  subject : String
  /-- The lines of the text around the fault. -/
  context : Option String
  suggestions : List String

namespace Diagnostic

/-- The class of faults that keep a program from running. -/
def errorKind : String := "Error"

/-- The class of faults that stop a running program. -/
def runtimeKind : String := "RuntimeError"

/-- A fault at a token. -/
def atToken (token : Token) (message : String) : Diagnostic :=
  { kind := errorKind
    message
    line := token.place.line
    column := token.place.column
    subject := if token.kind = .endOfText then " at end" else " at '" ++ token.lexeme ++ "'"
    context := none
    suggestions := [] }

/-- A fault with nothing in a text to point at. -/
def nowhere (message : String) : Diagnostic :=
  ⟨errorKind, message, 0, 0, "", none, []⟩

/-- The report on one line. -/
def format (d : Diagnostic) : String :=
  s!"{d.line}:{d.column}: {d.kind}{d.subject}: {d.message}"

/-- The report with the text around the fault and with advice, as far as there is any. -/
def formatWithContext (d : Diagnostic) : String :=
  let context :=
    match d.context with
    | some text => if text.isEmpty then "" else "\n" ++ text
    | none => ""
  let advice :=
    if d.suggestions.isEmpty then ""
    else "\n  Suggestions:" ++ String.join (d.suggestions.map fun s => "\n    - " ++ s)
  d.format ++ context ++ advice

/-- Several reports, one to a line. -/
def formatAll (ds : List Diagnostic) : String := "\n".intercalate (ds.map format)

end Diagnostic

end Lox
