/-
What can stop a running program. Faults of the program itself are reported to
its author; leaving by `exit` is no fault; running out of nesting is told apart,
since only the caller of a whole program can put it into words.

The rest cannot happen to a program that was resolved before it ran. It can
happen when frames or distances are put together by hand, so it has causes of
its own instead of being passed over.
-/
import Lox.Store.Value
import Lox.Diagnostic.Basic

namespace Lox

/-- Why a program cannot go on. -/
inductive RuntimeCause where
  | undefinedVariable (name : String)
  | undefinedProperty (name : String)
  | operandNotNumber
  | operandsNotNumbers
  | operandsNotAddable
  | notCallable
  | wrongArity (expected got : Nat)
  | readOfNonObject
  | writeOfNonObject
  | superclassNotClass
  | exitCodeNotNumber
  | exitCodeNotFinite
  | stackOverflow
deriving DecidableEq

def RuntimeCause.message : RuntimeCause → String
  | .undefinedVariable name => "Undefined variable '" ++ name ++ "'."
  | .undefinedProperty name => "Undefined property '" ++ name ++ "'."
  | .operandNotNumber => "Operand must be a number."
  | .operandsNotNumbers => "Operands must be numbers."
  | .operandsNotAddable => "Operands must be two numbers or two strings."
  | .notCallable => "Can only call functions and classes."
  | .wrongArity expected got => s!"Expected {expected} arguments but got {got}."
  | .readOfNonObject => "Only instances have properties."
  | .writeOfNonObject => "Only instances have fields."
  | .superclassNotClass => "Superclass must be a class."
  | .exitCodeNotNumber => "Exit code must be a number."
  | .exitCodeNotFinite => "Exit code must be a finite number."
  | .stackOverflow => "Stack overflow."

/-- A fault at a token. A native function knows no token; its call lends it one. -/
structure RuntimeFault where
  token : Option Token
  cause : RuntimeCause
deriving DecidableEq

/-- The report on a fault of a running program; without a token it points nowhere. -/
def Diagnostic.runtime (token : Option Token) (message : String) : Diagnostic :=
  let place := token.elim Place.nowhere Token.place
  ⟨runtimeKind, message, place.line, place.column, "", none, []⟩

def RuntimeFault.diagnostic (fault : RuntimeFault) : Diagnostic :=
  Diagnostic.runtime fault.token fault.cause.message

/-- What no resolved program meets. -/
inductive BrokenLink where
  /-- The frame at the resolved distance does not bind the name. -/
  | missingBinding (name : String)
  /-- No distance is known for a mention of `super`. -/
  | missingDistance (id : NodeId)
  /-- The chain of frames is shorter than the resolved distance. -/
  | beyondChain (distance : Nat)
  | unknownUnary (lexeme : String)
  | unknownBinary (lexeme : String)
  /-- A frame holds something else than a class where it should hold the superclass. -/
  | superNotClass (found : Value)
  /-- A value means a thing that is not in the heap. -/
  | dangling

/-- How a running program stopped before its end. -/
inductive Stop where
  | fault (fault : RuntimeFault)
  /-- The program asked to leave with an exit code. -/
  | exit (code : Int)
  /-- Calls nested too deeply. -/
  | overflow
  | broken (link : BrokenLink)
  /-- The bound on the number of steps was reached. -/
  | exhausted

end Lox
