/-
Values: what expressions come to. Constants are values of their own; functions,
classes and objects live in the heap (`Store/Heap.lean`), and a value only says
which one is meant, so two values can mean the same object.
-/
import Lox.Syntax.Basic

namespace Lox

abbrev FunctionId := Nat

abbrev ClassId := Nat

abbrev ObjectId := Nat

/-- Functions that the language brings along. -/
inductive Native where
  | clock
  | exit
deriving DecidableEq

namespace Native

def name : Native → String
  | .clock => "clock"
  | .exit => "exit"

def arity : Native → Nat
  | .clock => 0
  | .exit => 1

def all : List Native := [.clock, .exit]

end Native

inductive Value where
  | nil
  | boolean (b : Bool)
  | number (x : Float)
  | string (s : String)
  | native (f : Native)
  | function (id : FunctionId)
  | cls (id : ClassId)
  | object (id : ObjectId)

namespace Value

def ofConstant : Constant → Value
  | .nil => .nil
  | .boolean b => .boolean b
  | .number x => .number x
  | .string s => .string s

/-- Everything but `nil` and `false` counts as true. -/
def isTruthy : Value → Bool
  | .nil => false
  | .boolean b => b
  | _ => true

def isNumber : Value → Bool
  | .number _ => true
  | _ => false

/-- Equality without conversion: numbers compare as numbers, so what is not a number differs from
itself; functions, classes and objects are equal to themselves alone. -/
def equals : Value → Value → Bool
  | .nil, .nil => true
  | .boolean a, .boolean b => a == b
  | .number a, .number b => a == b
  | .string a, .string b => a == b
  | .native a, .native b => a == b
  | .function a, .function b => a == b
  | .cls a, .cls b => a == b
  | .object a, .object b => a == b
  | _, _ => false

end Value

end Lox
