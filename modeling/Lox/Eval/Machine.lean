/-
The machine that programs run on: the heap, the frame that is current, the
distance table, and what was printed. A machine outlives a program; the next
program of the same session finds what this one left behind.
-/
import Lox.Store.Heap
import Lox.Eval.Fault
import Lox.Binding.Distances

namespace Lox

structure Machine where
  heap : Heap
  /-- The current frame. -/
  scope : FrameId
  distances : Distances
  /-- What the programs have printed. -/
  output : String
  /-- The trace of execution; it grows only when `tracing`. -/
  trace : String
  tracing : Bool
  /-- The seconds that the clock shows next. -/
  clock : Float

/-- A machine on which nothing has run. -/
def Machine.start (tracing : Bool) (clock : Float) : Machine :=
  ⟨Heap.initial, globalFrame, ∅, "", "", tracing, clock⟩

/-- Adds a line to the trace. -/
def Machine.note (m : Machine) (line : String) : Machine :=
  { m with trace := m.trace ++ line ++ "\n" }

/-- Adds lines to the trace of a machine that keeps one. -/
def Machine.noteAll (m : Machine) (lines : List String) : Machine :=
  if m.tracing then lines.foldl Machine.note m else m

/-- A computation on some state that may stop; what it did before it stopped stays done. -/
abbrev Halting (σ : Type) := EStateM Stop σ

/-- A computation on a machine. -/
abbrev Eval := Halting Machine

namespace Eval

variable {α σ : Type}

-- ================================================================ stopping

def stop (s : Stop) : Halting σ α := fun m => .error s m

/-- Stops with a fault at a token. -/
def fault (token : Token) (cause : RuntimeCause) : Halting σ α := stop (.fault ⟨some token, cause⟩)

/-- Stops with a fault that knows no token. -/
def nativeFault (cause : RuntimeCause) : Halting σ α := stop (.fault ⟨none, cause⟩)

def broken (link : BrokenLink) : Halting σ α := stop (.broken link)

/-- Lends a token to a fault that knows none. -/
def anchored (token : Token) (p : Halting σ α) : Halting σ α := fun m =>
  match p m with
  | .ok a m' => .ok a m'
  | .error (.fault ⟨none, cause⟩) m' => .error (.fault ⟨some token, cause⟩) m'
  | .error s m' => .error s m'

-- =================================================================== heap

def heap : Eval Heap := fun m => .ok m.heap m

def updateHeap (f : Heap → Heap) : Eval Unit := fun m => .ok () { m with heap := f m.heap }

/-- Adds a frame inside another. -/
def newFrame (enclosing : FrameId) (bindings : Bindings Value) : Eval FrameId := fun m =>
  .ok m.heap.scopes.next { m with heap := m.heap.addFrame enclosing bindings }

def newFunction (f : Closure) : Eval FunctionId := fun m =>
  .ok m.heap.functions.size { m with heap := m.heap.addFunction f }

def newClass (c : ClassData) : Eval ClassId := fun m =>
  .ok m.heap.classes.size { m with heap := m.heap.addClass c }

def newObject (o : ObjectData) : Eval ObjectId := fun m =>
  .ok m.heap.objects.size { m with heap := m.heap.addObject o }

-- ================================================================= scopes

/-- The current frame. -/
def scope : Eval FrameId := fun m => .ok m.scope m

/-- Runs with another frame as the current one. However the run ends, the frame that was current
before is current again. -/
def inScope (frame : FrameId) (p : Eval α) : Eval α := fun m =>
  let outer := m.scope
  match p { m with scope := frame } with
  | .ok a m' => .ok a { m' with scope := outer }
  | .error s m' => .error s { m' with scope := outer }

/-- Runs inside a new frame. -/
def inNewFrame (enclosing : FrameId) (bindings : Bindings Value) (p : Eval α) : Eval α := do
  inScope (← newFrame enclosing bindings) p

/-- Binds a name in the current frame. -/
def define (name : String) (value : Value) : Eval Unit := fun m =>
  .ok () { m with heap := m.heap.define m.scope name value }

/-- The frame a number of steps out from a given one. -/
def ancestor (frame : FrameId) (distance : Nat) : Eval FrameId := do
  match (← heap).scopes.ancestor? frame distance with
  | some outer => pure outer
  | none => broken (.beyondChain distance)

/-- What a frame a number of steps out binds a name to. -/
def getAt (frame : FrameId) (distance : Nat) (name : String) : Eval Value := do
  let holder ← ancestor frame distance
  match (← heap).scopes.local? holder name with
  | some value => pure value
  | none => broken (.missingBinding name)

/-- Binds a name in the frame a number of steps out. -/
def assignAt (frame : FrameId) (distance : Nat) (name : String) (value : Value) : Eval Unit := do
  let holder ← ancestor frame distance
  updateHeap fun h => h.define holder name value

/-- What a name means in a frame. -/
def getNamed (frame : FrameId) (name : Token) : Eval Value := do
  match (← heap).scopes.get? frame name.lexeme with
  | some value => pure value
  | none => fault name (.undefinedVariable name.lexeme)

/-- Gives a name a new value where it is bound, from a frame outwards. -/
def assignNamed (frame : FrameId) (name : Token) (value : Value) : Eval Unit := do
  match (← heap).scopes.holder? frame name.lexeme with
  | some holder => updateHeap fun h => h.define holder name.lexeme value
  | none => fault name (.undefinedVariable name.lexeme)

/-- The distance of a reference; nothing for a global one. -/
def distance? (id : NodeId) : Eval (Option Nat) := fun m => .ok m.distances[id]? m

/-- Reads a name where its reference says it is bound. -/
def lookUp (id : NodeId) (name : Token) : Eval Value := do
  match ← distance? id with
  | some distance => getAt (← scope) distance name.lexeme
  | none => getNamed globalFrame name

/-- Assigns to a name where its reference says it is bound. -/
def assign (id : NodeId) (name : Token) (value : Value) : Eval Unit := do
  match ← distance? id with
  | some distance => assignAt (← scope) distance name.lexeme value
  | none => assignNamed globalFrame name value

-- ================================================================= output

/-- Prints a value on a line of its own. -/
def print (value : Value) : Eval Unit := fun m =>
  .ok () { m with output := m.output ++ m.heap.text value ++ "\n" }

/-- How much later than the last reading the clock shows at the next. -/
def clockTick : Float := 1.0 / 65536.0

/-- Reads the clock, which never shows the same time twice. -/
def readClock : Eval Value := fun m =>
  .ok (.number m.clock) { m with clock := m.clock + clockTick }

end Eval

end Lox
