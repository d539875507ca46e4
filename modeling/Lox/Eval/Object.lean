/-
Objects and their methods, and the functions that the language brings along. A
method taken from an object remembers it: it becomes a new function inside a
frame that holds nothing but `this`.
-/
import Lox.Eval.Machine
import Lox.Decimal.Binary

namespace Lox.Eval

/-- The data of a function. -/
def closure (f : FunctionId) : Eval Closure := do
  match (← heap).functions[f]? with
  | some c => pure c
  | none => broken .dangling

/-- The data of an object. -/
def objectData (object : ObjectId) : Eval ObjectData := do
  match (← heap).objects[object]? with
  | some data => pure data
  | none => broken .dangling

/-- A function of its own for one receiver: its scope is a frame that binds `this`, inside the scope
of the method. -/
def bindMethod (method : FunctionId) (receiver : Value) : Eval FunctionId := do
  let c ← closure method
  let frame ← newFrame c.scope (Bindings.empty.set "this" receiver)
  newFunction { c with scope := frame }

/-- The nearest method of a name from a class upwards, bound to a receiver. -/
def boundMethod (c : ClassId) (name : Token) (receiver : Value) : Eval Value := do
  match (← heap).findMethod? c name.lexeme with
  | some method => pure (.function (← bindMethod method receiver))
  | none => fault name (.undefinedProperty name.lexeme)

/-- Reads a property of a value, which must be an object: its field of that name, or else the method
of its class. -/
def getProperty (value : Value) (name : Token) : Eval Value :=
  match value with
  | .object object => do
    let data ← objectData object
    match data.fields.find? name.lexeme with
    | some field => pure field
    | none => boundMethod data.cls name value
  | _ => fault name .readOfNonObject

/-- A method of the superclass, bound to the object at hand. The superclass lies in the frame at
the distance of the reference, the object in the frame just inside that one. -/
def superMethod (id : NodeId) (method : Token) : Eval Value := do
  match ← distance? id with
  | none => broken (.missingDistance id)
  | some distance =>
    let frame ← scope
    let parent ← getAt frame distance "super"
    let receiver ← getAt frame (distance - 1) "this"
    match parent with
    | .cls c => boundMethod c method receiver
    | other => broken (.superNotClass other)

-- ================================================================= natives

/-- Leaves the program. The code loses the digits behind the point. -/
def exitWith {σ : Type} : Value → Halting σ Value
  | .number x =>
    match Decimal.truncate? x with
    | some code => stop (.exit code)
    | none => nativeFault .exitCodeNotFinite
  | _ => nativeFault .exitCodeNotNumber

def callNative (f : Native) (arguments : List Value) : Eval Value :=
  match f with
  | .clock => readClock
  | .exit => exitWith (arguments.headD .nil)

end Lox.Eval
