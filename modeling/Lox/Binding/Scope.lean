/-
Scopes as they stand at a place of a program text: which names are in sight and
how far out they are bound. A name is declared first and ready only when its
initializer is complete. Names outside all scopes are global and not listed, so
the top level has no scope at all.
-/
import Lox.Binding.Fault
import Lox.Store.Bindings
import Lox.Syntax.Basic

namespace Lox

/-- A scope: its names, and whether each of them is ready. -/
abbrev Scope := Bindings Bool

/-- The scopes around a place, the innermost first. -/
abbrev Scopes := List Scope

/-- A reference and how many scopes out its name is bound. -/
structure Link where
  id : NodeId
  name : String
  distance : Nat
deriving DecidableEq

/-- What looking at a part of a program brought: links and faults, in the order of the search. -/
structure Survey where
  links : List Link
  faults : List ScopeFault

namespace Survey

/-- Nothing to say. -/
def empty : Survey := ⟨[], []⟩

/-- A single fault. -/
def fault (cause : ScopeFaultCause) (token : Token) : Survey := ⟨[], [⟨cause, token⟩]⟩

/-- One part after another. -/
def append (a b : Survey) : Survey := ⟨a.links ++ b.links, a.faults ++ b.faults⟩

instance : Append Survey := ⟨append⟩

@[simp] theorem links_append (a b : Survey) : (a ++ b).links = a.links ++ b.links := rfl

@[simp] theorem faults_append (a b : Survey) : (a ++ b).faults = a.faults ++ b.faults := rfl

@[simp] theorem empty_append (a : Survey) : empty ++ a = a := rfl

@[simp] theorem append_empty (a : Survey) : a ++ empty = a := by
  obtain ⟨links, faults⟩ := a
  show Survey.mk _ _ = _
  simp [empty]

theorem append_assoc (a b c : Survey) : a ++ b ++ c = a ++ (b ++ c) := by
  show Survey.mk _ _ = Survey.mk _ _
  simp

end Survey

namespace Scopes

/-- How many scopes out a name is bound; nothing for a global name. -/
def distance? (scopes : Scopes) (name : String) : Option Nat :=
  scopes.findIdx? fun scope => scope.binds name

/-- Links a reference to the scope that binds its name. Global names get no link. -/
def link (scopes : Scopes) (id : NodeId) (name : String) : Survey :=
  match scopes.distance? name with
  | some distance => ⟨[⟨id, name, distance⟩], []⟩
  | none => .empty

/-- Whether a name is declared in the innermost scope and not yet ready. -/
def isPending (scopes : Scopes) (name : String) : Bool :=
  match scopes with
  | [] => false
  | scope :: _ => scope.find? name == some false

/-- Declares a name in the innermost scope, where it must be new. -/
def declare (scopes : Scopes) (name : Token) : Scopes × Survey :=
  match scopes with
  | [] => ([], .empty)
  | scope :: outer =>
    (scope.set name.lexeme false :: outer,
      if scope.binds name.lexeme then .fault .redeclared name else .empty)

/-- Makes a name of the innermost scope ready. -/
def define (scopes : Scopes) (name : Token) : Scopes :=
  match scopes with
  | [] => []
  | scope :: outer => scope.set name.lexeme true :: outer

/-- A name that is ready as soon as it is declared. -/
def introduce (scopes : Scopes) (name : Token) : Scopes × Survey :=
  let (declared, survey) := scopes.declare name
  (declared.define name, survey)

end Scopes

/-- A scope that holds one name, ready from the start. -/
def Scope.holding (name : String) : Scope := Bindings.empty.set name true

end Lox
