/-
Bindings: names with what they are bound to, each name once, in the order in
which the names first came. Frames of variables, fields of objects, methods of
classes and the scopes of the resolver are all of this shape.
-/

namespace Lox

structure Bindings (α : Type) where
  entries : List (String × α)

namespace Bindings

variable {α : Type}

/-- Nothing is bound. -/
def empty : Bindings α := ⟨[]⟩

/-- What a name is bound to. -/
def find? (b : Bindings α) (name : String) : Option α :=
  (b.entries.find? fun entry => entry.1 == name).map Prod.snd

/-- Whether a name is bound. -/
def binds (b : Bindings α) (name : String) : Bool := (b.find? name).isSome

/-- The entries with one name bound anew, at its old place or at the end. -/
def setIn (name : String) (value : α) : List (String × α) → List (String × α)
  | [] => [(name, value)]
  | entry :: rest =>
    if entry.1 == name then (name, value) :: rest else entry :: setIn name value rest

/-- Binds a name; a name that is bound already is bound anew. -/
def set (b : Bindings α) (name : String) (value : α) : Bindings α :=
  ⟨setIn name value b.entries⟩

/-- The names, in the order in which they first came. -/
def names (b : Bindings α) : List String := b.entries.map Prod.fst

-- =================================================================== laws

@[simp] theorem find?_empty (name : String) : (empty : Bindings α).find? name = none := rfl

/-- A name that was just bound has its new value, and no other name is touched. -/
theorem find?_set (b : Bindings α) (name other : String) (value : α) :
    (b.set name value).find? other = if name = other then some value else b.find? other := by
  obtain ⟨entries⟩ := b
  simp only [set, find?]
  induction entries with
  | nil => by_cases h : name = other <;> simp [setIn, h]
  | cons entry rest ih =>
    by_cases he : entry.1 = name
    · by_cases h : name = other
      · simp [setIn, he, h]
      · simp [setIn, he, h]
    · by_cases h : entry.1 = other
      · subst h
        simp [setIn, he, Ne.symm he]
      · simpa [setIn, he, h] using ih

@[simp] theorem find?_set_self (b : Bindings α) (name : String) (value : α) :
    (b.set name value).find? name = some value := by simp [find?_set]

theorem find?_set_of_ne (b : Bindings α) {name other : String} (h : name ≠ other) (value : α) :
    (b.set name value).find? other = b.find? other := by simp [find?_set, h]

end Bindings

end Lox
