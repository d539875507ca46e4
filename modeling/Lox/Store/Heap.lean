/-
The heap: frames of variables, functions, classes and objects. Each kind has its
own numbers, handed out in order, and nothing is ever removed, so a number once
given means the same thing for good.

A class is made after its superclass and refers to it by number, so every chain
of superclasses ends; a walk along one takes at most as many steps as there are
classes.
-/
import Lox.Store.Forest
import Lox.Store.Value
import Lox.Decimal.Layout

namespace Lox

/-- A function value: its declaration and the frame it was declared in. -/
structure Closure where
  declaration : FunDecl
  scope : FrameId
  isInitializer : Bool

structure ClassData where
  name : String
  superclass : Option ClassId
  methods : Bindings FunctionId

/-- An object of a class; fields come into being when they are first set. -/
structure ObjectData where
  cls : ClassId
  fields : Bindings Value

structure Heap where
  scopes : Forest Value
  functions : Array Closure
  classes : Array ClassData
  objects : Array ObjectData

/-- The frame of global variables, the oldest of all. -/
def globalFrame : FrameId := 0

namespace Heap

/-- A heap with the native functions in the frame of global variables and nothing else. -/
def initial : Heap :=
  let natives := Native.all.foldl (fun b f => b.set f.name (Value.native f)) Bindings.empty
  ⟨Forest.empty.grow none natives, #[], #[], #[]⟩

-- ============================================================== allocation

def addFrame (h : Heap) (enclosing : FrameId) (bindings : Bindings Value) : Heap :=
  { h with scopes := h.scopes.grow (some enclosing) bindings }

def addFunction (h : Heap) (f : Closure) : Heap := { h with functions := h.functions.push f }

def addClass (h : Heap) (c : ClassData) : Heap := { h with classes := h.classes.push c }

def addObject (h : Heap) (o : ObjectData) : Heap := { h with objects := h.objects.push o }

/-- Binds a name in a frame. -/
def define (h : Heap) (frame : FrameId) (name : String) (value : Value) : Heap :=
  { h with scopes := h.scopes.define frame name value }

/-- Sets a field of an object. -/
def setField (h : Heap) (object : ObjectId) (name : String) (value : Value) : Heap :=
  { h with objects := h.objects.modify object fun o =>
      { o with fields := o.fields.set name value } }

-- ================================================================ classes

/-- The classes from a given one up along superclasses, at most `fuel` of them. -/
def lineageWithin (h : Heap) : Nat → ClassId → List ClassId
  | 0, _ => []
  | fuel + 1, c =>
    match h.classes[c]? with
    | none => []
    | some data =>
      match data.superclass with
      | none => [c]
      | some parent => c :: h.lineageWithin fuel parent

/-- A class and its superclasses, the nearest first. -/
def lineage (h : Heap) (c : ClassId) : List ClassId := h.lineageWithin h.classes.size c

/-- A method that a class itself declares. -/
def ownMethod? (h : Heap) (c : ClassId) (name : String) : Option FunctionId :=
  h.classes[c]?.bind fun data => data.methods.find? name

/-- The nearest method of a name from a class upwards. -/
def findMethod? (h : Heap) (c : ClassId) (name : String) : Option FunctionId :=
  (h.lineage c).findSome? fun ancestor => h.ownMethod? ancestor name

/-- The number of arguments that a call of a value has to bring; nothing for what cannot be called.
A class takes what its initializer takes. -/
def arity? (h : Heap) : Value → Option Nat
  | .native f => some f.arity
  | .function f => h.functions[f]?.map fun closure => closure.declaration.arity
  | .cls c =>
    some (((h.findMethod? c initializerName).bind fun f => h.functions[f]?).elim 0
      fun closure => closure.declaration.arity)
  | _ => none

-- =================================================================== text

def className (h : Heap) (c : ClassId) : String := h.classes[c]?.elim "" ClassData.name

def functionName (h : Heap) (f : FunctionId) : String :=
  h.functions[f]?.elim "" fun closure => closure.declaration.name.lexeme

/-- The text of a value: how a program prints it. -/
def text (h : Heap) : Value → String
  | .nil => "nil"
  | .boolean b => if b then "true" else "false"
  | .number x => Decimal.Style.brief.write x
  | .string s => s
  | .native _ => "<native fn>"
  | .function f => "<fn " ++ h.functionName f ++ ">"
  | .cls c => h.className c
  | .object o => h.objects[o]?.elim "" (fun data => h.className data.cls) ++ " instance"

end Heap

end Lox
