/-
Faults of scoping: what a program may not do with its names, its functions and
its classes, wherever it could be told before the program runs.
-/
import Lox.Diagnostic.Basic

namespace Lox

inductive ScopeFaultCause where
  | redeclared
  | readInOwnInitializer
  | returnOutsideFunction
  | returnValueFromInitializer
  | thisOutsideClass
  | superOutsideClass
  | superWithoutSuperclass
  | inheritsFromItself
deriving DecidableEq

def ScopeFaultCause.message : ScopeFaultCause → String
  | .redeclared => "Already a variable with this name in this scope."
  | .readInOwnInitializer => "Can't read local variable in its own initializer."
  | .returnOutsideFunction => "Can't return from top-level code."
  | .returnValueFromInitializer => "Can't return a value from an initializer."
  | .thisOutsideClass => "Can't use 'this' outside of a class."
  | .superOutsideClass => "Can't use 'super' outside of a class."
  | .superWithoutSuperclass => "Can't use 'super' in a class with no superclass."
  | .inheritsFromItself => "A class can't inherit from itself."

/-- A fault and the token at fault. -/
structure ScopeFault where
  cause : ScopeFaultCause
  token : Token
deriving DecidableEq

def ScopeFault.diagnostic (fault : ScopeFault) : Diagnostic :=
  Diagnostic.atToken fault.token fault.cause.message

end Lox
