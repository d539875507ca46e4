/-
Faults of a program text: why the grammar could not go on, and where. A report
adds what stands at that place, the lines around it, and advice.
-/
import Lox.Diagnostic.Basic
import Lox.Diagnostic.Context
import Lox.Diagnostic.Advice

namespace Lox

/-- What the grammar asks for next. -/
inductive Expectation where
  | symbol (c : Char)
  | keyword (word : String)
  | identifier
  | operator
  | expression
  | statement
  | declaration
  | endOfText
deriving DecidableEq

/-- A call or a function has no more than this many arguments or parameters. -/
def maxArguments : Nat := 255

/-- Why a text is refused. -/
inductive FaultCause where
  | expected (what : Expectation)
  /-- A keyword touches the character before it. -/
  | keywordPreceded (word : String)
  /-- A keyword touches the character behind it. -/
  | keywordFollowed (word : String)
  /-- What stands before an equals sign is neither a variable nor a field. -/
  | invalidTarget
  | tooManyArguments
  | tooManyParameters
deriving DecidableEq

def Expectation.describe : Expectation → String
  | .symbol c => "'" ++ String.ofList [c] ++ "'"
  | .keyword word => "Keyword '" ++ word ++ "'"
  | .identifier => "identifier"
  | .operator => "operator"
  | .expression => "expression"
  | .statement => "statement"
  | .declaration => "declaration"
  | .endOfText => "end of text"

def FaultCause.message : FaultCause → String
  | .expected what => "Expected " ++ what.describe
  | .keywordPreceded word =>
    "Expected " ++ (Expectation.keyword word).describe
      ++ ", keyword was immediately preceded by keyword character"
  | .keywordFollowed word =>
    "Expected " ++ (Expectation.keyword word).describe
      ++ ", keyword was immediately followed by keyword character"
  | .invalidTarget => "Invalid assignment target."
  | .tooManyArguments => s!"Can't have more than {maxArguments} arguments."
  | .tooManyParameters => s!"Can't have more than {maxArguments} parameters."

/-- A fault of a text. -/
structure Fault where
  cause : FaultCause
  place : Place
deriving DecidableEq

/-- The report on a fault with the given message. -/
def Diagnostic.atPlace (source : List Char) (place : Place) (message : String) : Diagnostic :=
  let found := Found.atPlace source place.line place.column
  let expected := (Diagnostic.expectedIn message.toList).toList
  { kind := Diagnostic.errorKind
    message
    line := place.line
    column := place.column
    subject := found.subject
    context := some (Diagnostic.window source place.line place.column 2)
    suggestions := Diagnostic.advice message found.describe expected }

/-- The report on a fault of a text. -/
def Fault.diagnostic (source : List Char) (fault : Fault) : Diagnostic :=
  Diagnostic.atPlace source fault.place fault.cause.message

end Lox
