/-
Forests of frames. A frame holds bindings and may have an enclosing frame; many
frames can share one. Frames are never removed, and a frame is younger than the
one that encloses it, so every chain of enclosing frames ends.

There are two ways along a chain: by name, to the nearest frame that binds it,
and by count, a given number of frames outwards. Both are total here: a walk by
name takes at most as many steps as there are frames.
-/
import Lox.Store.Bindings

namespace Lox

/-- A frame is known by its number, counted from the oldest. -/
abbrev FrameId := Nat

structure Frame (α : Type) where
  enclosing : Option FrameId
  bindings : Bindings α

structure Forest (α : Type) where
  frames : Array (Frame α)

namespace Forest

variable {α : Type}

def empty : Forest α := ⟨#[]⟩

/-- The number that the next frame will have. -/
def next (f : Forest α) : FrameId := f.frames.size

/-- Adds a frame with the given bindings. -/
def grow (f : Forest α) (enclosing : Option FrameId) (bindings : Bindings α) : Forest α :=
  ⟨f.frames.push ⟨enclosing, bindings⟩⟩

-- ============================================================== one frame

/-- The frame that encloses a frame. -/
def enclosing? (f : Forest α) (frame : FrameId) : Option FrameId :=
  f.frames[frame]?.bind Frame.enclosing

/-- The bindings of a frame alone. -/
def bindings (f : Forest α) (frame : FrameId) : Bindings α :=
  match f.frames[frame]? with
  | some content => content.bindings
  | none => .empty

/-- What a name is bound to in a frame itself. -/
def local? (f : Forest α) (frame : FrameId) (name : String) : Option α :=
  (f.bindings frame).find? name

/-- Binds a name in a frame. -/
def define (f : Forest α) (frame : FrameId) (name : String) (value : α) : Forest α :=
  ⟨f.frames.modify frame fun content =>
    { content with bindings := content.bindings.set name value }⟩

-- ================================================================ by name

/-- The nearest frame on a chain that binds a name, at most `fuel` frames looked at. -/
def holderWithin (f : Forest α) (name : String) : Nat → FrameId → Option FrameId
  | 0, _ => none
  | fuel + 1, frame =>
    if (f.bindings frame).binds name then some frame
    else
      match f.enclosing? frame with
      | none => none
      | some outer => f.holderWithin name fuel outer

/-- The nearest frame on a chain that binds a name. -/
def holder? (f : Forest α) (frame : FrameId) (name : String) : Option FrameId :=
  f.holderWithin name f.frames.size frame

/-- What a name means in a frame. -/
def get? (f : Forest α) (frame : FrameId) (name : String) : Option α :=
  (f.holder? frame name).bind fun holder => f.local? holder name

/-- Gives a name a new value where it is bound; nothing when it is bound nowhere on the chain. -/
def assign? (f : Forest α) (frame : FrameId) (name : String) (value : α) : Option (Forest α) :=
  (f.holder? frame name).map fun holder => f.define holder name value

-- =============================================================== by count

/-- The frame a number of steps outwards; nothing when the chain is shorter. -/
def ancestor? (f : Forest α) (frame : FrameId) : Nat → Option FrameId
  | 0 => some frame
  | distance + 1 => (f.enclosing? frame).bind fun outer => f.ancestor? outer distance

/-- The frames around a frame, the nearest first, at most `fuel` of them. -/
def outerWithin (f : Forest α) : Nat → FrameId → List FrameId
  | 0, _ => []
  | fuel + 1, frame =>
    match f.enclosing? frame with
    | none => []
    | some outer => outer :: f.outerWithin fuel outer

/-- The number of frames around a frame. -/
def depth (f : Forest α) (frame : FrameId) : Nat := (f.outerWithin f.frames.size frame).length

end Forest

end Lox
