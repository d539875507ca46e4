/-
The moves of a pair: everything that evaluation does to a machine, with what the
reference does at the same time. A move loses nothing (`grown_…`) and keeps the
two sides in agreement (`Ok.…`). A declaration is two moves, for between them
runs the initializer: the name gets its home first (`house`), its value later
(`put`).
-/
import Lox.Proofs.Lockstep.Pair

namespace Lox.Lockstep

open Reference (Location Names)

variable {visits : List Visit} {p q : Pair}

namespace Pair

/-- A fresh location is the home of a name. -/
def house (p : Pair) (frame : FrameId) (name : String) (value : Value) : Pair where
  homes f x := if f = frame ∧ x = name then some p.state.store.size else p.homes f x
  machine := p.machine
  state := { p.state with store := p.state.store.push value }

/-- A name of a frame is bound, and its location holds the value. -/
def put (p : Pair) (frame : FrameId) (name : String) (location : Location) (value : Value) :
    Pair where
  homes := p.homes
  machine := { p.machine with heap := p.machine.heap.define frame name value }
  state := { p.state with store := p.state.store.setIfInBounds location value }

/-- A global name has a value. -/
def putGlobal (p : Pair) (name : String) (value : Value) : Pair where
  homes := p.homes
  machine := { p.machine with heap := p.machine.heap.define globalFrame name value }
  state := { p.state with globals := p.state.globals.set name value }

/-- A new frame of the machine; the reference has none. -/
def addFrame (p : Pair) (outer : FrameId) : Pair :=
  { p with machine := { p.machine with heap := p.machine.heap.addFrame outer .empty } }

def addFunction (p : Pair) (c : Closure) (c' : Reference.Closure) : Pair where
  homes := p.homes
  machine := { p.machine with heap := p.machine.heap.addFunction c }
  state := { p.state with functions := p.state.functions.push c' }

def addClass (p : Pair) (data : ClassData) : Pair where
  homes := p.homes
  machine := { p.machine with heap := p.machine.heap.addClass data }
  state := { p.state with classes := p.state.classes.push data }

def addObject (p : Pair) (data : ObjectData) : Pair where
  homes := p.homes
  machine := { p.machine with heap := p.machine.heap.addObject data }
  state := { p.state with objects := p.state.objects.push data }

def setField (p : Pair) (object : ObjectId) (name : String) (value : Value) : Pair where
  homes := p.homes
  machine := { p.machine with heap := p.machine.heap.setField object name value }
  state := { p.state with objects := p.state.objects.modify object fun o =>
      { o with fields := o.fields.set name value } }

end Pair

-- ============================================================ declarations

theorem homes_house (frame : FrameId) (name : String) (value : Value) :
    (p.house frame name value).homes frame name = some p.state.store.size := if_pos ⟨rfl, rfl⟩

theorem grown_house {frame : FrameId} {name : String} (hnew : p.homes frame name = none)
    (value : Value) : Grown p (p.house frame name value) where
  homes f x location hl := by
    show (if _ then _ else _) = _
    rw [if_neg, hl]
    rintro ⟨rfl, rfl⟩
    rw [hnew] at hl
    cases hl
  next := Nat.le_refl _
  enclosing _ _ h := h
  bound _ _ h := h
  functions _ _ h := h
  closures _ _ h := h
  objects := Nat.le_refl _
  distances := rfl

theorem Pair.Ok.house (hp : p.Ok visits) {frame : FrameId} {name : String}
    (hframe : frame < p.frames.next) (hnew : p.homes frame name = none) (value : Value) :
    (p.house frame name value).Ok visits where
  output := hp.output
  clock := hp.clock
  heap := hp.heap
  globals := hp.globals
  root := hp.root
  rooted := hp.rooted
  inside f x location hl := by
    show f < p.frames.next ∧ location < (p.state.store.push value).size
    rw [Array.size_push]
    replace hl : (if f = frame ∧ x = name then some p.state.store.size else p.homes f x)
      = some location := hl
    split at hl
    next h =>
      cases hl
      exact ⟨h.1 ▸ hframe, Nat.lt_succ_self _⟩
    · obtain ⟨hf, hx⟩ := hp.inside f x location hl
      exact ⟨hf, Nat.lt_succ_of_lt hx⟩
  apart f x g y location hl hk := by
    replace hl : (if f = frame ∧ x = name then some p.state.store.size else p.homes f x)
      = some location := hl
    replace hk : (if g = frame ∧ y = name then some p.state.store.size else p.homes g y)
      = some location := hk
    split at hl <;> split at hk
    next h k => exact ⟨h.1.trans k.1.symm, h.2.trans k.2.symm⟩
    · cases hl
      exact absurd (hp.inside g y _ hk).2 (Nat.lt_irrefl _)
    · cases hk
      exact absurd (hp.inside f x _ hl).2 (Nat.lt_irrefl _)
    · exact hp.apart f x g y location hl hk
  housed f x v hf hv := by
    obtain ⟨location, hl, hs⟩ := hp.housed f x v hf hv
    refine ⟨location, (grown_house hnew value).homes f x location hl, ?_⟩
    show (p.state.store.push value)[location]? = some v
    rw [Array.getElem?_push, if_neg (Nat.ne_of_lt (hp.inside f x location hl).2), hs]
  sane f x v hv := (hp.sane f x v hv).mono (grown_house hnew value)
  parents := hp.parents
  fields o data x v ho hv := (hp.fields o data x v ho hv).mono (grown_house hnew value)
  methods c data x f hc hf := (hp.methods c data x f hc hf).mono (grown_house hnew value)
  sound := hp.sound

theorem grown_put {frame : FrameId} {name : String} {location : Location} {value : Value}
    (hframe : frame < p.frames.next) : Grown p (p.put frame name location value) where
  homes _ _ _ h := h
  next := Nat.le_of_eq Forest.next_define.symm
  enclosing f outer h := by
    show (p.frames.define frame name value).enclosing? f = some outer
    rw [Forest.enclosing?_define, h]
  bound f x h := by
    show ((p.frames.define frame name value).local? f x).isSome
    rw [Forest.local?_define hframe]
    split
    · rfl
    · exact h
  functions _ _ h := h
  closures _ _ h := h
  objects := Nat.le_refl _
  distances := rfl

theorem Pair.Ok.put (hp : p.Ok visits) {frame : FrameId} {name : String} {location : Location}
    {value : Value} (hlocal : frame ≠ globalFrame) (hhome : p.homes frame name = some location)
    (hv : (p.put frame name location value).Sane visits value)
    (hparent : name = "super" → ∃ c, value = .cls c) :
    (p.put frame name location value).Ok visits := by
  have hframe : frame < p.frames.next := (hp.inside _ _ _ hhome).1
  have hin : location < p.state.store.size := (hp.inside _ _ _ hhome).2
  have hgrown : Grown p (p.put frame name location value) := grown_put hframe
  have hlocal? : ∀ f x, (p.put frame name location value).frames.local? f x
      = if f = frame ∧ x = name then some value else p.frames.local? f x := fun f x =>
    Forest.local?_define hframe
  refine
    { output := hp.output
      clock := hp.clock
      heap := hp.heap
      globals := ?_
      root := Forest.enclosing?_define.trans hp.root
      rooted := Nat.lt_of_lt_of_le hp.rooted hgrown.next
      inside := ?_
      apart := hp.apart
      housed := ?_
      sane := ?_
      parents := ?_
      fields := fun o data x v ho hx => (hp.fields o data x v ho hx).mono hgrown
      methods := fun c data x f hc hf => (hp.methods c data x f hc hf).mono hgrown
      sound := hp.sound }
  · show (p.frames.define frame name value).bindings globalFrame = p.state.globals
    rw [Forest.bindings_define hframe, if_neg hlocal.symm, hp.globals]
  · intro f x other hx
    obtain ⟨hf, ho⟩ := hp.inside f x other hx
    refine ⟨Nat.lt_of_lt_of_le hf hgrown.next, ?_⟩
    show other < (p.state.store.setIfInBounds location value).size
    rwa [Array.size_setIfInBounds]
  · intro f x v hf hx
    rw [hlocal?] at hx
    split at hx
    next h =>
      obtain ⟨rfl, rfl⟩ := h
      cases hx
      refine ⟨location, hhome, ?_⟩
      show (p.state.store.setIfInBounds location value)[location]? = some value
      rw [Array.getElem?_setIfInBounds_self_of_lt hin]
    next h =>
      obtain ⟨other, ho, hs⟩ := hp.housed f x v hf hx
      refine ⟨other, ho, ?_⟩
      show (p.state.store.setIfInBounds location value)[other]? = some v
      rw [Array.getElem?_setIfInBounds_ne, hs]
      rintro rfl
      exact h (hp.apart f x frame name _ ho hhome)
  · intro f x v hx
    rw [hlocal?] at hx
    split at hx
    · cases hx
      exact hv
    · exact (hp.sane f x v hx).mono hgrown
  · intro f v hx
    rw [hlocal?] at hx
    split at hx
    next h =>
      cases hx
      exact hparent h.2.symm
    · exact hp.parents f v hx

-- =========================================================== global names

theorem grown_putGlobal (hp : p.Ok visits) (name : String) (value : Value) :
    Grown p (p.putGlobal name value) where
  homes _ _ _ h := h
  next := Nat.le_of_eq Forest.next_define.symm
  enclosing f outer h := by
    show (p.frames.define globalFrame name value).enclosing? f = some outer
    rw [Forest.enclosing?_define, h]
  bound f x h := by
    show ((p.frames.define globalFrame name value).local? f x).isSome
    rw [Forest.local?_define hp.rooted]
    split
    · rfl
    · exact h
  functions _ _ h := h
  closures _ _ h := h
  objects := Nat.le_refl _
  distances := rfl

theorem Pair.Ok.putGlobal (hp : p.Ok visits) {name : String} {value : Value}
    (hv : (p.putGlobal name value).Sane visits value) (hname : name ≠ "super") :
    (p.putGlobal name value).Ok visits := by
  have hgrown : Grown p (p.putGlobal name value) := grown_putGlobal hp name value
  have hlocal? : ∀ f x, (p.putGlobal name value).frames.local? f x
      = if f = globalFrame ∧ x = name then some value else p.frames.local? f x := fun f x =>
    Forest.local?_define hp.rooted
  refine
    { output := hp.output
      clock := hp.clock
      heap := hp.heap
      globals := ?_
      root := Forest.enclosing?_define.trans hp.root
      rooted := Nat.lt_of_lt_of_le hp.rooted hgrown.next
      inside := fun f x location hl => ?_
      apart := hp.apart
      housed := ?_
      sane := ?_
      parents := ?_
      fields := fun o data x v ho hx => (hp.fields o data x v ho hx).mono hgrown
      methods := fun c data x f hc hf => (hp.methods c data x f hc hf).mono hgrown
      sound := hp.sound }
  · show (p.frames.define globalFrame name value).bindings globalFrame
      = p.state.globals.set name value
    rw [Forest.bindings_define hp.rooted, if_pos rfl, hp.globals]
  · obtain ⟨hf, hx⟩ := hp.inside f x location hl
    exact ⟨Nat.lt_of_lt_of_le hf hgrown.next, hx⟩
  · intro f x v hf hx
    rw [hlocal?, if_neg fun h => hf h.1] at hx
    exact hp.housed f x v hf hx
  · intro f x v hx
    rw [hlocal?] at hx
    split at hx
    · cases hx
      exact hv
    · exact (hp.sane f x v hx).mono hgrown
  · intro f v hx
    rw [hlocal?, if_neg fun h => hname h.2.symm] at hx
    exact hp.parents f v hx

-- ================================================================= frames

theorem grown_addFrame (p : Pair) (outer : FrameId) : Grown p (p.addFrame outer) where
  homes _ _ _ h := h
  next := by
    show p.frames.next ≤ (p.frames.grow (some outer) .empty).next
    rw [Forest.next_grow]
    exact Nat.le_succ _
  enclosing f o h := by
    show (p.frames.grow (some outer) .empty).enclosing? f = some o
    rw [Forest.enclosing?_grow, if_neg (Nat.ne_of_lt (Forest.lt_next_of_enclosing? h)), h]
  bound f x h := by
    obtain ⟨v, hv⟩ := Option.isSome_iff_exists.1 h
    show ((p.frames.grow (some outer) .empty).local? f x).isSome
    rw [Forest.local?_grow, if_neg (Nat.ne_of_lt (Forest.lt_next_of_local? hv)), hv]
    rfl
  functions _ _ h := h
  closures _ _ h := h
  objects := Nat.le_refl _
  distances := rfl

/-- An empty frame adds no binding anywhere. -/
theorem local?_of_addFrame {outer f : FrameId} {x : String} {v : Value}
    (h : (p.addFrame outer).frames.local? f x = some v) : p.frames.local? f x = some v := by
  replace h : (p.frames.grow (some outer) .empty).local? f x = some v := h
  rw [Forest.local?_grow] at h
  split at h
  · cases h
  · exact h

theorem Pair.Ok.addFrame (hp : p.Ok visits) (outer : FrameId) : (p.addFrame outer).Ok visits where
  output := hp.output
  clock := hp.clock
  heap := hp.heap
  globals := by
    show (p.frames.grow (some outer) .empty).bindings globalFrame = p.state.globals
    rw [Forest.bindings_grow_of_lt _ _ hp.rooted, hp.globals]
  root := by
    show (p.frames.grow (some outer) .empty).enclosing? globalFrame = none
    rw [Forest.enclosing?_grow, if_neg (Nat.ne_of_lt hp.rooted), hp.root]
  rooted := Nat.lt_of_lt_of_le hp.rooted (grown_addFrame p outer).next
  inside f x location hl := by
    obtain ⟨hf, hx⟩ := hp.inside f x location hl
    exact ⟨Nat.lt_of_lt_of_le hf (grown_addFrame p outer).next, hx⟩
  apart := hp.apart
  housed f x v hf hv := hp.housed f x v hf (local?_of_addFrame hv)
  sane f x v hv := (hp.sane f x v (local?_of_addFrame hv)).mono (grown_addFrame p outer)
  parents f v hv := hp.parents f v (local?_of_addFrame hv)
  fields o data x v ho hv := (hp.fields o data x v ho hv).mono (grown_addFrame p outer)
  methods c data x f hc hf := (hp.methods c data x f hc hf).mono (grown_addFrame p outer)
  sound := hp.sound

-- ====================================================== functions, objects

theorem Pair.Ok.size_functions (hp : p.Ok visits) :
    p.machine.heap.functions.size = p.state.functions.size := by
  have h := congrArg Array.size (congrArg Heap.functions hp.heap)
  simpa [Heap.bare, Reference.State.heap] using h

theorem Pair.Ok.functions (hp : p.Ok visits) : p.machine.heap.functions.map Closure.bare
    = p.state.functions.map Reference.Closure.bare := congrArg Heap.functions hp.heap

theorem Pair.Ok.classes (hp : p.Ok visits) : p.machine.heap.classes = p.state.classes :=
  congrArg Heap.classes hp.heap

theorem Pair.Ok.objects (hp : p.Ok visits) : p.machine.heap.objects = p.state.objects :=
  congrArg Heap.objects hp.heap

/-- Two heaps agree when functions, classes and objects do. -/
theorem bare_eq_heap {h : Heap} {r : Reference.State}
    (hfunctions : h.functions.map Closure.bare = r.functions.map Reference.Closure.bare)
    (hclasses : h.classes = r.classes) (hobjects : h.objects = r.objects) : h.bare = r.heap := by
  unfold Heap.bare Reference.State.heap
  rw [hfunctions, hclasses, hobjects]

theorem grown_addFunction (p : Pair) (c : Closure) (c' : Reference.Closure) :
    Grown p (p.addFunction c c') where
  homes _ _ _ h := h
  next := Nat.le_refl _
  enclosing _ _ h := h
  bound _ _ h := h
  functions f d hd := by
    show (p.machine.heap.functions.push c)[f]? = some d
    rw [Array.getElem?_push, if_neg (Nat.ne_of_lt (Array.getElem?_eq_some_iff.1 hd).1), hd]
  closures f d hd := by
    show (p.state.functions.push c')[f]? = some d
    rw [Array.getElem?_push, if_neg (Nat.ne_of_lt (Array.getElem?_eq_some_iff.1 hd).1), hd]
  objects := Nat.le_refl _
  distances := rfl

theorem Pair.Ok.addFunction (hp : p.Ok visits) {c : Closure} {c' : Reference.Closure}
    (hc : c.bare = c'.bare) : (p.addFunction c c').Ok visits where
  output := hp.output
  clock := hp.clock
  heap := by
    refine bare_eq_heap ?_ hp.classes hp.objects
    show (p.machine.heap.functions.push c).map Closure.bare
      = (p.state.functions.push c').map Reference.Closure.bare
    rw [Array.map_push, Array.map_push, hc, hp.functions]
  globals := hp.globals
  root := hp.root
  rooted := hp.rooted
  inside := hp.inside
  apart := hp.apart
  housed := hp.housed
  sane f x v hv := (hp.sane f x v hv).mono (grown_addFunction p c c')
  parents := hp.parents
  fields o data x v ho hv := (hp.fields o data x v ho hv).mono (grown_addFunction p c c')
  methods d data x f hd hf := (hp.methods d data x f hd hf).mono (grown_addFunction p c c')
  sound := hp.sound

theorem grown_addClass (p : Pair) (data : ClassData) : Grown p (p.addClass data) where
  homes _ _ _ h := h
  next := Nat.le_refl _
  enclosing _ _ h := h
  bound _ _ h := h
  functions _ _ h := h
  closures _ _ h := h
  objects := Nat.le_refl _
  distances := rfl

theorem Pair.Ok.addClass (hp : p.Ok visits) {data : ClassData}
    (hmethods : ∀ name f, data.methods.find? name = some f → p.Method visits f) :
    (p.addClass data).Ok visits where
  output := hp.output
  clock := hp.clock
  heap := bare_eq_heap hp.functions (congrArg (·.push data) hp.classes) hp.objects
  globals := hp.globals
  root := hp.root
  rooted := hp.rooted
  inside := hp.inside
  apart := hp.apart
  housed := hp.housed
  sane f x v hv := (hp.sane f x v hv).mono (grown_addClass p data)
  parents := hp.parents
  fields o data' x v ho hv := (hp.fields o data' x v ho hv).mono (grown_addClass p data)
  methods c data' x f hc hf := by
    replace hc : (p.machine.heap.classes.push data)[c]? = some data' := hc
    refine Pair.Function.mono (grown_addClass p data) ?_
    rw [Array.getElem?_push] at hc
    split at hc
    · cases hc
      exact hmethods x f hf
    · exact hp.methods c data' x f hc hf
  sound := hp.sound

theorem grown_addObject (p : Pair) (data : ObjectData) : Grown p (p.addObject data) where
  homes _ _ _ h := h
  next := Nat.le_refl _
  enclosing _ _ h := h
  bound _ _ h := h
  functions _ _ h := h
  closures _ _ h := h
  objects := by
    show p.machine.heap.objects.size ≤ (p.machine.heap.objects.push data).size
    rw [Array.size_push]
    exact Nat.le_succ _
  distances := rfl

theorem Pair.Ok.addObject (hp : p.Ok visits) (c : ClassId) :
    (p.addObject ⟨c, .empty⟩).Ok visits where
  output := hp.output
  clock := hp.clock
  heap := bare_eq_heap hp.functions hp.classes (congrArg (·.push ⟨c, .empty⟩) hp.objects)
  globals := hp.globals
  root := hp.root
  rooted := hp.rooted
  inside := hp.inside
  apart := hp.apart
  housed := hp.housed
  sane f x v hv := (hp.sane f x v hv).mono (grown_addObject p _)
  parents := hp.parents
  fields o data x v ho hv := by
    replace ho : (p.machine.heap.objects.push ⟨c, .empty⟩)[o]? = some data := ho
    rw [Array.getElem?_push] at ho
    split at ho
    · cases ho
      cases hv
    · exact (hp.fields o data x v ho hv).mono (grown_addObject p _)
  methods d data x f hd hf := (hp.methods d data x f hd hf).mono (grown_addObject p _)
  sound := hp.sound

theorem grown_setField (p : Pair) (object : ObjectId) (name : String) (value : Value) :
    Grown p (p.setField object name value) where
  homes _ _ _ h := h
  next := Nat.le_refl _
  enclosing _ _ h := h
  bound _ _ h := h
  functions _ _ h := h
  closures _ _ h := h
  objects := by
    show p.machine.heap.objects.size ≤ (p.machine.heap.objects.modify object _).size
    exact Nat.le_of_eq Array.size_modify.symm
  distances := rfl

theorem Pair.Ok.setField (hp : p.Ok visits) {object : ObjectId} {name : String} {value : Value}
    (hv : p.Sane visits value) : (p.setField object name value).Ok visits where
  output := hp.output
  clock := hp.clock
  heap := bare_eq_heap hp.functions hp.classes (congrArg (·.modify object fun o =>
    { o with fields := o.fields.set name value }) hp.objects)
  globals := hp.globals
  root := hp.root
  rooted := hp.rooted
  inside := hp.inside
  apart := hp.apart
  housed := hp.housed
  sane f x v hx := (hp.sane f x v hx).mono (grown_setField p object name value)
  parents := hp.parents
  fields o data x v ho hx := by
    have hgrown := grown_setField p object name value
    replace ho : (p.machine.heap.objects.modify object fun o =>
      { o with fields := o.fields.set name value })[o]? = some data := ho
    rw [Array.getElem?_modify] at ho
    split at ho
    · obtain ⟨old, hold, rfl⟩ := Option.map_eq_some_iff.1 ho
      replace hx : (old.fields.set name value).find? x = some v := hx
      rw [Bindings.find?_set] at hx
      split at hx
      · cases hx
        exact hv.mono hgrown
      · exact (hp.fields o old x v hold hx).mono hgrown
    · exact (hp.fields o data x v ho hx).mono hgrown
  methods d data x f hd hf :=
    (hp.methods d data x f hd hf).mono (grown_setField p object name value)
  sound := hp.sound

end Lox.Lockstep
