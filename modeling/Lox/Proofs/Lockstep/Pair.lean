/-
A machine and a reference state side by side, and what ties them together.

The machine keeps a variable in a frame under its name, the reference keeps it
in a location of its own. `Homes` says which location stands for which name of
which frame. A name gets its home when it is declared and keeps it for good, so
homes only grow; that is why a closure may hold on to the names it saw while its
frame goes on to gain others.

Three facts are carried through a run. `Tied`: a chain of frames, the resolver's
scopes and the names in sight describe one and the same place. `Pair.Ok`: what
the two sides hold agrees, and every function that either side can call was
made at such a place. `Later`: what was tied stays tied.
-/
import Lox.Proofs.Binding.Sound
import Lox.Proofs.Reference.Evaluate
import Lox.Proofs.Store.Forest
import Lox.Proofs.Store.Heap

namespace Lox.Lockstep

open Reference (Location Names)

/-- The location that stands for a name of a frame, once the name is declared there. -/
abbrev Homes := FrameId → String → Option Location

structure Pair where
  homes : Homes
  machine : Machine
  state : Reference.State

namespace Pair

/-- The frames of the machine. -/
abbrev frames (p : Pair) : Forest Value := p.machine.heap.scopes

/-- The same pair with another frame as the current one. -/
def enter (p : Pair) (frame : FrameId) : Pair :=
  { p with machine := { p.machine with scope := frame } }

end Pair

-- =================================================================== places

/-- A frame, the resolver's scopes and the names in sight belong to one place. Each scope has its
frame; a name means the home it has in the innermost frame whose scope binds it; and what is ready
is bound. -/
inductive Tied (homes : Homes) (frames : Forest Value) : FrameId → Scopes → Names → Prop
  | top : Tied homes frames globalFrame [] .empty
  | inner {frame outer : FrameId} {scope : Scope} {scopes : Scopes} {names seen : Names}
      (around : Tied homes frames outer scopes names)
      (enclosed : frames.enclosing? frame = some outer)
      (younger : outer < frame)
      (sees : ∀ name, seen.find? name
        = if scope.binds name then homes frame name else names.find? name)
      (housed : ∀ name, scope.binds name = true → (homes frame name).isSome)
      (ready : ∀ name, scope.find? name = some true → (frames.local? frame name).isSome) :
      Tied homes frames frame (scope :: scopes) seen

/-- The place at which a pair is: the current frame is tied to the scopes, and it has no names but
those of the innermost scope. -/
structure Pair.At (p : Pair) (scopes : Scopes) (names : Names) : Prop where
  tied : Tied p.homes p.frames p.machine.scope scopes names
  own : ∀ scope ∈ scopes.head?, ∀ name, (p.homes p.machine.scope name).isSome →
    scope.binds name = true

-- ================================================================ functions

/-- The resolver has been through a function in the given scopes and found nothing wrong. -/
structure Known (visits : List Visit) (around : Surroundings) (scopes : Scopes) (f : FunDecl) :
    Prop where
  visited : ∀ v ∈ f.visits around scopes, v ∈ visits
  distinct : (f.paramFaults scopes).faults = []
  free : ∀ param ∈ f.params, param.Free

/-- A function of both sides that was made at one place; its body was resolved in the scopes that
`inside` adds to those of the place. -/
def Pair.Function (p : Pair) (visits : List Visit) (inside : Scopes → Scopes) (f : FunctionId)
    (holds : Bool → Scopes → Prop) : Prop :=
  ∃ (c : Closure) (c' : Reference.Closure) (around : Surroundings) (scopes : Scopes),
    p.machine.heap.functions[f]? = some c ∧ p.state.functions[f]? = some c'
      ∧ Tied p.homes p.frames c.scope scopes c'.names
      ∧ Known visits around (inside scopes) c.declaration
      ∧ holds c.isInitializer scopes

/-- A function that can be called. An initializer was bound to its object. -/
def Pair.Callable (p : Pair) (visits : List Visit) (f : FunctionId) : Prop :=
  p.Function visits id f fun initializer scopes =>
    initializer = true → ∃ outer, scopes = .holding "this" :: outer

/-- A method of a class. It is called only when it was bound, and `this` is in scope then. -/
def Pair.Method (p : Pair) (visits : List Visit) (f : FunctionId) : Prop :=
  p.Function visits (.holding "this" :: ·) f fun _ _ => True

/-- A value that means nothing but what is in the heap, functions among it that can be called. -/
def Pair.Sane (p : Pair) (visits : List Visit) : Value → Prop
  | .function f => p.Callable visits f
  | .object o => o < p.machine.heap.objects.size
  | _ => True

-- ================================================================ agreement

/-- The two sides of a pair agree, and the machine is one that resolved programs lead to. -/
structure Pair.Ok (visits : List Visit) (p : Pair) : Prop where
  output : p.machine.output = p.state.output
  clock : p.machine.clock = p.state.clock
  heap : p.machine.heap.bare = p.state.heap
  globals : p.frames.bindings globalFrame = p.state.globals
  root : p.frames.enclosing? globalFrame = none
  rooted : globalFrame < p.frames.next
  /-- Only names of frames have homes, and homes are locations. -/
  inside : ∀ frame name location, p.homes frame name = some location →
    frame < p.frames.next ∧ location < p.state.store.size
  apart : ∀ frame name other name' location, p.homes frame name = some location →
    p.homes other name' = some location → frame = other ∧ name = name'
  /-- What a frame binds is the value of a location. -/
  housed : ∀ frame name value, frame ≠ globalFrame → p.frames.local? frame name = some value →
    ∃ location, p.homes frame name = some location ∧ p.state.store[location]? = some value
  sane : ∀ frame name value, p.frames.local? frame name = some value → p.Sane visits value
  parents : ∀ frame value, p.frames.local? frame "super" = some value → ∃ c, value = .cls c
  fields : ∀ (o : ObjectId) data name value, p.machine.heap.objects[o]? = some data →
    data.fields.find? name = some value → p.Sane visits value
  methods : ∀ (c : ClassId) data name f, p.machine.heap.classes[c]? = some data →
    data.methods.find? name = some f → p.Method visits f
  sound : ∀ v ∈ visits, v.Sound p.machine.distances

-- =================================================================== growth

/-- Nothing that one pair has is lost or moved in another. -/
structure Grown (p q : Pair) : Prop where
  homes : ∀ frame name location, p.homes frame name = some location →
    q.homes frame name = some location
  next : p.frames.next ≤ q.frames.next
  enclosing : ∀ frame outer, p.frames.enclosing? frame = some outer →
    q.frames.enclosing? frame = some outer
  bound : ∀ frame name, (p.frames.local? frame name).isSome → (q.frames.local? frame name).isSome
  functions : ∀ (f : FunctionId) c, p.machine.heap.functions[f]? = some c →
    q.machine.heap.functions[f]? = some c
  closures : ∀ (f : FunctionId) c, p.state.functions[f]? = some c →
    q.state.functions[f]? = some c
  objects : p.machine.heap.objects.size ≤ q.machine.heap.objects.size
  distances : q.machine.distances = p.machine.distances

/-- A pair at a later moment of a run, in the same frame. No frame that there was has new names,
except that the current one may, unless it is to be `still`. -/
structure Later (still : Bool) (p q : Pair) : Prop extends Grown p q where
  scope : q.machine.scope = p.machine.scope
  kept : ∀ frame, frame < p.frames.next → still = true ∨ frame ≠ p.machine.scope →
    q.homes frame = p.homes frame

section

variable {visits : List Visit} {still : Bool} {p q r : Pair} {scopes : Scopes} {names : Names}

theorem Grown.refl (p : Pair) : Grown p p where
  homes _ _ _ h := h
  next := Nat.le_refl _
  enclosing _ _ h := h
  bound _ _ h := h
  functions _ _ h := h
  closures _ _ h := h
  objects := Nat.le_refl _
  distances := rfl

theorem Grown.trans (h : Grown p q) (k : Grown q r) : Grown p r where
  homes frame name location hl := k.homes _ _ _ (h.homes frame name location hl)
  next := Nat.le_trans h.next k.next
  enclosing frame outer he := k.enclosing _ _ (h.enclosing frame outer he)
  bound frame name hb := k.bound _ _ (h.bound frame name hb)
  functions f c hc := k.functions _ _ (h.functions f c hc)
  closures f c hc := k.closures _ _ (h.closures f c hc)
  objects := Nat.le_trans h.objects k.objects
  distances := k.distances.trans h.distances

theorem Later.refl (still : Bool) (p : Pair) : Later still p p where
  toGrown := .refl p
  scope := rfl
  kept _ _ _ := rfl

theorem Later.trans (h : Later still p q) (k : Later still q r) : Later still p r where
  toGrown := h.toGrown.trans k.toGrown
  scope := k.scope.trans h.scope
  kept frame hf hs := by
    rw [k.kept frame (Nat.lt_of_lt_of_le hf h.next) (h.scope ▸ hs), h.kept frame hf hs]

/-- What kept still may just as well have moved. -/
theorem Later.weaken (h : Later true p q) (still : Bool) : Later still p q where
  toGrown := h.toGrown
  scope := h.scope
  kept frame hf _ := h.kept frame hf (Or.inl rfl)

theorem Later.loosen (h : Later still p q) : Later false p q where
  toGrown := h.toGrown
  scope := h.scope
  kept frame hf hs := h.kept frame hf (Or.inr (hs.resolve_left nofun))

/-- Names of a new frame are no names of the frames there were. -/
theorem Later.leave {frame : FrameId} (h : Later true p q) (hf : p.frames.next ≤ frame)
    (k : Later false (q.enter frame) r) : Later true p (r.enter p.machine.scope) where
  homes g name location hg := k.homes _ _ _ (h.homes g name location hg)
  next := Nat.le_trans h.next k.next
  enclosing g outer hg := k.enclosing _ _ (h.enclosing g outer hg)
  bound g name hg := k.bound _ _ (h.bound g name hg)
  functions f c hc := k.functions _ _ (h.functions f c hc)
  closures f c hc := k.closures _ _ (h.closures f c hc)
  objects := Nat.le_trans h.objects k.objects
  distances := k.distances.trans h.distances
  scope := rfl
  kept g hg _ := by
    have hne : g ≠ frame := Nat.ne_of_lt (Nat.lt_of_lt_of_le hg hf)
    exact (k.kept g (Nat.lt_of_lt_of_le hg h.next) (Or.inr hne)).trans (h.kept g hg (Or.inl rfl))

-- ====================================================== what stays as it was

theorem Tied.mono (h : Grown p q) {frame : FrameId}
    (ht : Tied p.homes p.frames frame scopes names) :
    Tied q.homes q.frames frame scopes names := by
  induction ht with
  | top => exact .top
  | @inner frame outer scope scopes names seen _ enclosed younger sees housed ready ih =>
      refine .inner ih (h.enclosing _ _ enclosed) younger ?_ ?_ ?_
      · intro name
        rw [sees name]
        by_cases hb : scope.binds name = true
        · obtain ⟨location, hl⟩ := Option.isSome_iff_exists.1 (housed name hb)
          rw [if_pos hb, if_pos hb, hl, h.homes _ _ _ hl]
        · rw [if_neg hb, if_neg hb]
      · intro name hb
        obtain ⟨location, hl⟩ := Option.isSome_iff_exists.1 (housed name hb)
        rw [h.homes _ _ _ hl]
        rfl
      · intro name hr
        exact h.bound _ _ (ready name hr)

theorem Pair.Function.mono (h : Grown p q) {inside : Scopes → Scopes} {f : FunctionId}
    {holds : Bool → Scopes → Prop} (hf : p.Function visits inside f holds) :
    q.Function visits inside f holds := by
  obtain ⟨c, c', around, scopes, hc, hc', ht, hk, hi⟩ := hf
  exact ⟨c, c', around, scopes, h.functions _ _ hc, h.closures _ _ hc', ht.mono h, hk, hi⟩

theorem Pair.Sane.mono (h : Grown p q) {value : Value} (hv : p.Sane visits value) :
    q.Sane visits value := by
  cases value with
  | function f =>
      have hf : p.Callable visits f := hv
      exact Pair.Function.mono h hf
  | object o => exact Nat.lt_of_lt_of_le hv h.objects
  | nil | boolean | number | string | native | cls => trivial

theorem Pair.sane_nil (p : Pair) : p.Sane visits .nil := trivial

theorem Pair.sane_cls (p : Pair) (c : ClassId) : p.Sane visits (.cls c) := trivial

/-- Which frame is the current one is no matter of agreement. -/
theorem Pair.Ok.enter (hp : p.Ok visits) (frame : FrameId) : (p.enter frame).Ok visits :=
  { hp with }

/-- Every frame of a chain is a frame that there is. -/
theorem Pair.Ok.lt_next (hp : p.Ok visits) {frame : FrameId}
    (h : Tied p.homes p.frames frame scopes names) : frame < p.frames.next := by
  cases h with
  | top => exact hp.rooted
  | inner _ enclosed => exact Forest.lt_next_of_enclosing? enclosed

/-- A pair stays where it is as long as its frame keeps still. -/
theorem Pair.At.later (hp : p.Ok visits) (ha : p.At scopes names) (h : Later true p q) :
    q.At scopes names where
  tied := by
    rw [h.scope]
    exact ha.tied.mono h.toGrown
  own scope hs name hn := by
    rw [h.scope, h.kept _ (hp.lt_next ha.tied) (Or.inl rfl)] at hn
    exact ha.own scope hs name hn

/-- A pair that was at a place is there again when its frame has no names but those of the place. -/
theorem Pair.At.resume {names' : Names} (ha : p.At scopes names) (h : Later still p q)
    (ha' : q.At scopes names') : q.At scopes names where
  tied := by
    rw [h.scope]
    exact ha.tied.mono h.toGrown
  own := ha'.own

end

end Lox.Lockstep
