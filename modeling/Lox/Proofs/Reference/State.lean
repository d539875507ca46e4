/-
The language told without frames and without a distance table. A name in sight
means a location: every execution of a declaration makes a fresh one, and a map
from names to locations is handed from statement to statement. The map is never
changed in place; whoever holds an old one keeps seeing what it saw. A name
that is not in the map is global and looked up in one table.

The state keeps values by location and the global table. Functions, classes and
objects are numbered as in a heap, so values are the values of the language, and
`State.heap` shows a state as a heap that has no frames.
-/
import Lox.Eval.Evaluate

namespace Lox.Reference

/-- Where the value of a variable is kept. -/
abbrev Location := Nat

/-- What the names in sight mean. -/
abbrev Names := Bindings Location

/-- A function value: its declaration and what was in sight of it. -/
structure Closure where
  declaration : FunDecl
  names : Names
  isInitializer : Bool

structure State where
  /-- The values of the variables that are not global. -/
  store : Array Value
  globals : Bindings Value
  functions : Array Closure
  classes : Array ClassData
  objects : Array ObjectData
  /-- What the programs have printed. -/
  output : String
  clock : Float

/-- A closure without what it saw. -/
def Closure.bare (c : Closure) : Lox.Closure := ⟨c.declaration, globalFrame, c.isInitializer⟩

namespace State

/-- A state in which nothing has run: the native functions are the global names. -/
def start (clock : Float) : State :=
  { store := #[]
    globals := Native.all.foldl (fun b f => b.set f.name (Value.native f)) .empty
    functions := #[]
    classes := #[]
    objects := #[]
    output := ""
    clock }

/-- Functions, classes and objects as a heap without frames. -/
def heap (r : State) : Heap := ⟨.empty, r.functions.map Closure.bare, r.classes, r.objects⟩

end State

/-- A computation on a state. -/
abbrev Run := Halting State

open Eval (stop fault broken)

-- =============================================================== locations

/-- A fresh location. -/
def allocate (value : Value) : Run Location := fun r =>
  .ok r.store.size { r with store := r.store.push value }

def write (location : Location) (value : Value) : Run Unit := fun r =>
  .ok () { r with store := r.store.setIfInBounds location value }

def read (location : Location) : Run Value := fun r =>
  match r.store[location]? with
  | some value => .ok value r
  | none => broken .dangling r

def setGlobal (name : String) (value : Value) : Run Unit := fun r =>
  .ok () { r with globals := r.globals.set name value }

-- =================================================================== names

/-- The value of a name: that of its location, or else of the global name. -/
def lookUp (names : Names) (name : Token) : Run Value :=
  match names.find? name.lexeme with
  | some location => read location
  | none => fun r =>
    match r.globals.find? name.lexeme with
    | some value => .ok value r
    | none => fault name (.undefinedVariable name.lexeme) r

/-- The value of a name that must have a location. -/
def remember (names : Names) (name : String) : Run Value :=
  match names.find? name with
  | some location => read location
  | none => broken (.missingBinding name)

/-- Gives a name a new value: in its location, or else in the global table, where it must be
known. -/
def assign (names : Names) (name : Token) (value : Value) : Run Unit :=
  match names.find? name.lexeme with
  | some location => write location value
  | none => fun r =>
    if r.globals.binds name.lexeme then setGlobal name.lexeme value r
    else fault name (.undefinedVariable name.lexeme) r

/-- What a place of a program sees, and whether it lies inside a block or a function. -/
structure Sight where
  inner : Bool
  names : Names

/-- Outside all blocks and functions. -/
def Sight.topLevel : Sight := ⟨false, .empty⟩

/-- The sight inside a block. -/
def Sight.inside (sight : Sight) : Sight := { sight with inner := true }

/-- Declares a name. Inside a block it gets a fresh location and is in sight from here on; no
location means that the name is global. -/
def declare (sight : Sight) (name : String) : Run (Option Location × Sight) := do
  if sight.inner then
    let location ← allocate .nil
    pure (some location, { sight with names := sight.names.set name location })
  else pure (none, sight)

/-- Gives a declared name its value. -/
def settle (home : Option Location) (name : String) (value : Value) : Run Unit :=
  match home with
  | some location => write location value
  | none => setGlobal name value

-- ====================================================== functions, objects

def heap : Run Heap := fun r => .ok r.heap r

def newFunction (f : Closure) : Run FunctionId := fun r =>
  .ok r.functions.size { r with functions := r.functions.push f }

def newClass (c : ClassData) : Run ClassId := fun r =>
  .ok r.classes.size { r with classes := r.classes.push c }

def newObject (o : ObjectData) : Run ObjectId := fun r =>
  .ok r.objects.size { r with objects := r.objects.push o }

def closure (f : FunctionId) : Run Closure := fun r =>
  match r.functions[f]? with
  | some c => .ok c r
  | none => broken .dangling r

def objectData (object : ObjectId) : Run ObjectData := fun r =>
  match r.objects[object]? with
  | some data => .ok data r
  | none => broken .dangling r

/-- Sets a field of an object. -/
def setProperty (object : ObjectId) (name : Token) (value : Value) : Run Unit := fun r =>
  .ok () { r with objects := r.objects.modify object fun o =>
      { o with fields := o.fields.set name.lexeme value } }

/-- A function of its own for one receiver: it sees what the method sees, and `this`. -/
def bindMethod (method : FunctionId) (receiver : Value) : Run FunctionId := do
  let c ← closure method
  let location ← allocate receiver
  newFunction { c with names := c.names.set "this" location }

/-- The nearest method of a name from a class upwards, bound to a receiver. -/
def boundMethod (c : ClassId) (name : Token) (receiver : Value) : Run Value := do
  match (← heap).findMethod? c name.lexeme with
  | some method => pure (.function (← bindMethod method receiver))
  | none => fault name (.undefinedProperty name.lexeme)

/-- Reads a property of a value, which must be an object: its field of that name, or else the method
of its class. -/
def getProperty (value : Value) (name : Token) : Run Value :=
  match value with
  | .object object => do
    let data ← objectData object
    match data.fields.find? name.lexeme with
    | some field => pure field
    | none => boundMethod data.cls name value
  | _ => fault name .readOfNonObject

/-- A method of the class that `super` means here, bound to the object that `this` means here. -/
def superMethod (names : Names) (method : Token) : Run Value := do
  let parent ← remember names "super"
  let receiver ← remember names "this"
  match parent with
  | .cls c => boundMethod c method receiver
  | other => broken (.superNotClass other)

-- ================================================================== effects

/-- Prints a value on a line of its own. -/
def print (value : Value) : Run Unit := fun r =>
  .ok () { r with output := r.output ++ r.heap.text value ++ "\n" }

/-- Reads the clock, which never shows the same time twice. -/
def readClock : Run Value := fun r =>
  .ok (.number r.clock) { r with clock := r.clock + Eval.clockTick }

def callNative (f : Native) (arguments : List Value) : Run Value :=
  match f with
  | .clock => readClock
  | .exit => Eval.exitWith (arguments.headD .nil)

end Lox.Reference
