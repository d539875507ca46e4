/-
Machines on which the frames of `this` and `super` are in order, and what
evaluation does to a machine, one thing at a time. Values on such a machine mean
what is there; a function among them was made at a place that the resolver has
been to, and a method that a class holds lies in the frame that was made for its
class (`Machine.Framed`). Every move keeps this, and all that is settled
(`Machine.Persists`).
-/
import Lox.Proofs.Super.Frames
import Lox.Proofs.Super.Nearest
import Lox.Proofs.Binding.Sound
import Lox.Proofs.Store.Heap

namespace Lox

/-- What there has been: moments of runs, visits of the resolver, and the sites of all programs. -/
structure Chronicle where
  past : Node → Machine → Prop
  visits : List Visit
  sites : List Site

/-- The resolver has been to a node in the scopes of a visit. -/
def Chronicle.Visited (w : Chronicle) (v : Visit) : Prop :=
  ∃ u ∈ w.visits, u.node = v.node ∧ u.scopes = v.scopes

/-- Visits and sites of one part of a program are known. -/
structure Chronicle.Knows (w : Chronicle) (visits : List Visit) (sites : List Site) : Prop where
  visited : ∀ v ∈ visits, w.Visited v
  sited : ∀ t ∈ sites, t ∈ w.sites

namespace Chronicle.Knows

variable {w : Chronicle} {v : Visit} {t : Site} {a b : List Visit} {c d : List Site}
  {cls : Option ClassDecl} {x y : List Node}

theorem tail (h : w.Knows (v :: a) (t :: c)) : w.Knows a c where
  visited u hu := h.visited u (List.mem_cons_of_mem _ hu)
  sited u hu := h.sited u (List.mem_cons_of_mem _ hu)

theorem left (h : w.Knows (a ++ b) (c ++ d)) : w.Knows a c where
  visited u hu := h.visited u (List.mem_append_left _ hu)
  sited u hu := h.sited u (List.mem_append_left _ hu)

theorem right (h : w.Knows (a ++ b) (c ++ d)) : w.Knows b d where
  visited u hu := h.visited u (List.mem_append_right _ hu)
  sited u hu := h.sited u (List.mem_append_right _ hu)

/-- Of nodes with one class around them. -/
theorem first (h : w.Knows (a ++ b) (Site.within cls (x ++ y))) :
    w.Knows a (Site.within cls x) := by
  unfold Site.within at h ⊢
  rw [List.map_append] at h
  exact h.left

theorem second (h : w.Knows (a ++ b) (Site.within cls (x ++ y))) :
    w.Knows b (Site.within cls y) := by
  unfold Site.within at h ⊢
  rw [List.map_append] at h
  exact h.right

/-- A node that is known. -/
theorem head (h : w.Knows (v :: a) (t :: c)) : w.Visited v ∧ t ∈ w.sites :=
  ⟨h.visited v List.mem_cons_self, h.sited t List.mem_cons_self⟩

end Chronicle.Knows

/-- The body of a function is known, in some scopes and with a class around it. -/
structure FunDecl.Placed (w : Chronicle) (around : Surroundings) (scopes : Scopes)
    (cls : Option ClassDecl) (f : FunDecl) : Prop where
  known : w.Knows (f.visits around scopes) (f.sites cls)
  free : ∀ param ∈ f.params, param.Free

/-- A closure that is marked as an initializer by its name, as methods are. -/
def Closure.Titled (c : Closure) : Prop :=
  c.isInitializer = (c.declaration.name.lexeme == initializerName)

namespace Machine

/-- A method that was bound is an initializer by its name; a function that lies in an ordinary frame
is none, whatever its name. -/
inductive Marked (m : Machine) (c : Closure) : Prop
  | bound (titled : c.Titled) (receiver : (m.heap.scopes.local? c.scope "this").isSome)
  | plain (unmarked : c.isInitializer = false) (there : c.scope < m.heap.scopes.next)
      (ordinary : m.Ordinary c.scope)

/-- A function whose body is known at the place where it was made. -/
def Callable (w : Chronicle) (m : Machine) (f : FunctionId) : Prop :=
  ∃ (c : Closure) (around : Surroundings) (scopes : Scopes) (cls : Option ClassDecl),
    m.heap.functions[f]? = some c ∧ Chain w.past m c.scope scopes cls
      ∧ c.declaration.Placed w around scopes cls ∧ m.Marked c

/-- A method that is not bound. Its body is known inside of a frame of `this`. -/
def Method (w : Chronicle) (m : Machine) (name : String) (f : FunctionId) : Prop :=
  ∃ (c : Closure) (around : Surroundings) (scopes : Scopes) (cls : Option ClassDecl)
    (S : ClassDecl) (outer : FrameId),
    m.heap.functions[f]? = some c ∧ Chain w.past m outer scopes cls
      ∧ Home w.past m S outer c.scope
      ∧ c.declaration.Placed w around (scopes.ofMethods S.superclass) (some S)
      ∧ c.declaration.name.lexeme = name ∧ c.Titled

/-- A value that means nothing but what is there. -/
def Sane (w : Chronicle) (m : Machine) : Value → Prop
  | .function f => m.Callable w f
  | .cls c => c < m.heap.classes.size
  | .object o => o < m.heap.objects.size
  | _ => True

/-- The frames of `this` and `super` are in order, and whatever can be called was made at a place that
is known. -/
structure Framed (w : Chronicle) (m : Machine) : Prop extends m.Tidy w.past where
  root : m.heap.scopes.enclosing? globalFrame = none
  rooted : globalFrame < m.heap.scopes.next
  top : m.Ordinary globalFrame
  sane : ∀ frame name value, m.heap.scopes.local? frame name = some value → m.Sane w value
  fields : ∀ (o : ObjectId) data name value, m.heap.objects[o]? = some data →
    data.fields.find? name = some value → m.Sane w value
  methods : ∀ (c : ClassId) data name f, m.heap.classes[c]? = some data →
    data.methods.find? name = some f → m.Method w name f
  layered : m.heap.Layered
  sound : ∀ v ∈ w.visits, v.Sound m.distances

/-- A machine at a later moment of a run. -/
structure Later (m m' : Machine) : Prop extends m.Persists m' where
  scope : m'.scope = m.scope
  distances : m'.distances = m.distances

variable {w : Chronicle} {m m' : Machine} {frame : FrameId}

theorem Later.refl (m : Machine) : m.Later m where
  toPersists := .refl m
  scope := rfl
  distances := rfl

theorem Later.trans {a b c : Machine} (h : a.Later b) (h' : b.Later c) : a.Later c where
  toPersists := h.toPersists.trans h'.toPersists
  scope := h'.scope.trans h.scope
  distances := h'.distances.trans h.distances

/-- Between two moments, all that changed are heap and what is no matter of frames. -/
theorem Persists.later (h : m.Persists m') (hscope : m'.scope = m.scope)
    (hdistances : m'.distances = m.distances) : m.Later m' := ⟨h, hscope, hdistances⟩

theorem Marked.mono {c : Closure} (h : m.Marked c) (hm : m.Persists m') : m'.Marked c := by
  cases h with
  | bound titled receiver => exact .bound titled (hm.receiver receiver)
  | plain unmarked there ordinary =>
      exact .plain unmarked (Nat.lt_of_lt_of_le there hm.next) (hm.ordinary _ there ordinary)

theorem Callable.mono {f : FunctionId} (h : m.Callable w f) (hm : m.Persists m') :
    m'.Callable w f := by
  obtain ⟨c, around, scopes, cls, hf, hc, hk, hmarked⟩ := h
  exact ⟨c, around, scopes, cls, hm.functions f c hf, hc.mono hm, hk, hmarked.mono hm⟩

theorem Method.mono {name : String} {f : FunctionId} (h : m.Method w name f)
    (hm : m.Persists m') : m'.Method w name f := by
  obtain ⟨c, around, scopes, cls, S, outer, hf, hc, hh, hk⟩ := h
  exact ⟨c, around, scopes, cls, S, outer, hm.functions f c hf, hc.mono hm, hh.mono hm, hk⟩

theorem Sane.mono {value : Value} (h : m.Sane w value) (hm : m.Persists m') : m'.Sane w value := by
  cases value with
  | function f => exact Callable.mono h hm
  | cls c => exact hm.lt_classes h
  | object o => exact hm.lt_objects h
  | nil | boolean | number | string | native => trivial

/-- The current frame is at a place that is known, and an ordinary one. -/
structure Place (w : Chronicle) (m : Machine) (scopes : Scopes) (cls : Option ClassDecl) :
    Prop where
  chain : Chain w.past m m.scope scopes cls
  ordinary : m.Ordinary m.scope

theorem sane_nil (w : Chronicle) (m : Machine) : m.Sane w .nil := trivial

theorem sane_ofConstant (w : Chronicle) (m : Machine) (c : Constant) :
    m.Sane w (.ofConstant c) := by
  cases c <;> trivial

-- ==================================================================== moves

/-- A machine that persists is in order when all that is new is. -/
theorem Framed.move (hm : m.Framed w) (hp : m.Persists m') (hd : m'.distances = m.distances)
    (hthis : ∀ frame, (m'.heap.scopes.local? frame "this").isSome →
      (m.heap.scopes.local? frame "this").isSome ∨ ∃ o, o < m'.heap.objects.size
        ∧ m'.heap.scopes.bindings frame = Bindings.empty.set "this" (.object o)
        ∧ m'.BoundTo w.past frame o)
    (hsuper : ∀ frame, (m'.heap.scopes.local? frame "super").isSome →
      (m.heap.scopes.local? frame "super").isSome ∨ ∃ (S : ClassDecl) (c : ClassId),
        c < m'.heap.classes.size
          ∧ m'.heap.scopes.bindings frame = Bindings.empty.set "super" (.cls c)
          ∧ S.Made w.past m' frame c)
    (hbound : ∀ frame name value, m'.heap.scopes.local? frame name = some value →
      m.heap.scopes.local? frame name = some value ∨ m'.Sane w value)
    (hfields : ∀ (o : ObjectId) data name value, m'.heap.objects[o]? = some data →
      data.fields.find? name = some value →
      (∃ old, m.heap.objects[o]? = some old ∧ old.fields.find? name = some value)
        ∨ m'.Sane w value)
    (hclasses : ∀ (c : ClassId) data, m'.heap.classes[c]? = some data →
      m.heap.classes[c]? = some data ∨ (∀ name f, data.methods.find? name = some f → m'.Method w name f)
        ∧ ∀ parent, data.superclass = some parent → parent < c) :
    m'.Framed w where
  receivers frame hf := by
    rcases hthis frame hf with hold | hnew
    · obtain ⟨o, ho, hb, hbound⟩ := hm.receivers frame hold
      exact ⟨o, hp.lt_objects ho, by rw [hp.special frame "this" (.inl rfl) hold, hb],
        hbound.mono hp⟩
    · exact hnew
  parents frame hf := by
    rcases hsuper frame hf with hold | hnew
    · obtain ⟨S, c, hc, hb, hmade⟩ := hm.parents frame hold
      exact ⟨S, c, hp.lt_classes hc, by rw [hp.special frame "super" (.inr rfl) hold, hb],
        hmade.mono hp⟩
    · exact hnew
  root := (hp.enclosing globalFrame hm.rooted).trans hm.root
  rooted := Nat.lt_of_lt_of_le hm.rooted hp.next
  top := hp.ordinary globalFrame hm.rooted hm.top
  sane frame name value hv :=
    (hbound frame name value hv).elim (fun hold => (hm.sane frame name value hold).mono hp) id
  fields o data name value ho hv := by
    rcases hfields o data name value ho hv with ⟨old, hold, hv'⟩ | hnew
    · exact (hm.fields o old name value hold hv').mono hp
    · exact hnew
  methods c data name f hc hf := by
    rcases hclasses c data hc with hold | hnew
    · exact (hm.methods c data name f hold hf).mono hp
    · exact hnew.1 name f hf
  layered c data parent hc hparent := by
    rcases hclasses c data hc with hold | hnew
    · exact hm.layered c data parent hold hparent
    · exact hnew.2 parent hparent
  sound v hv := by
    rw [hd]
    exact hm.sound v hv

/-- Nothing but heap and distances counts. -/
theorem Framed.of_heap (hm : m.Framed w) (hheap : m'.heap = m.heap)
    (hd : m'.distances = m.distances) : m'.Framed w := by
  refine hm.move (.of_heap hheap) hd (fun _ h => .inl ?_) (fun _ h => .inl ?_)
    (fun _ _ _ h => .inl ?_) (fun _ data _ _ ho h => .inl ⟨data, ?_, h⟩) fun _ _ h => .inl ?_
  · rwa [hheap] at h
  · rwa [hheap] at h
  · rwa [hheap] at h
  · rwa [hheap] at ho
  · rwa [hheap] at h

-- =================================================================== binding

section

variable {name : String} {value : Value}

/-- Another name does not touch the special ones. -/
theorem local?_define_special (hlt : frame < m.heap.scopes.next) (hname : ¬ Special name)
    (other : FrameId) {special : String} (hs : Special special) :
    (m.heap.define frame name value).scopes.local? other special
      = m.heap.scopes.local? other special := by
  show (m.heap.scopes.define frame name value).local? other special = _
  rw [Forest.local?_define hlt, if_neg]
  rintro ⟨-, rfl⟩
  exact hname hs

/-- A frame that binds a special name is no ordinary one. -/
theorem Ordinary.ne {other : FrameId} (ho : m.Ordinary frame) {special : String}
    (hs : Special special) (hsome : (m.heap.scopes.local? other special).isSome) :
    other ≠ frame := by
  rintro rfl
  rw [ho special hs] at hsome
  cases hsome

theorem bindings_define_of_ne (hlt : frame < m.heap.scopes.next) {other : FrameId}
    (hne : other ≠ frame) : (m.heap.define frame name value).scopes.bindings other
      = m.heap.scopes.bindings other := by
  show (m.heap.scopes.define frame name value).bindings other = _
  rw [Forest.bindings_define hlt, if_neg hne]

/-- Binding a name of the program in an ordinary frame leaves settled what is. -/
theorem persists_define (hlt : frame < m.heap.scopes.next) (ho : m.Ordinary frame)
    (hname : ¬ Special name) :
    m.Persists { m with heap := m.heap.define frame name value } where
  next := Nat.le_of_eq Forest.next_define.symm
  enclosing _ _ := Forest.enclosing?_define
  special _ _ hs hsome := bindings_define_of_ne hlt (ho.ne hs hsome)
  ordinary other _ hother special hs := by
    rw [local?_define_special hlt hname other hs]
    exact hother special hs
  functions _ _ h := h
  classes _ _ h := h
  objects _ data h := ⟨data, h, rfl⟩

theorem Framed.define (hm : m.Framed w) (hlt : frame < m.heap.scopes.next)
    (ho : m.Ordinary frame) (hname : ¬ Special name) (hv : m.Sane w value) :
    Framed w { m with heap := m.heap.define frame name value } := by
  have hp : m.Persists { m with heap := m.heap.define frame name value } :=
    persists_define hlt ho hname
  refine hm.move hp rfl (fun other h => .inl ?_) (fun other h => .inl ?_) (fun other x v h => ?_)
    (fun _ data _ _ ho h => .inl ⟨data, ho, h⟩) fun _ _ h => .inl h
  · rwa [local?_define_special hlt hname other (.inl rfl)] at h
  · rwa [local?_define_special hlt hname other (.inr rfl)] at h
  · replace h : (m.heap.scopes.define frame name value).local? other x = some v := h
    rw [Forest.local?_define hlt] at h
    split at h
    · cases h
      exact .inr (hv.mono hp)
    · exact .inl h

end

-- ==================================================================== frames

theorem persists_addFrame (m : Machine) (outer : FrameId) (b : Bindings Value) :
    m.Persists { m with heap := m.heap.addFrame outer b } where
  next := by
    show m.heap.scopes.next ≤ (m.heap.scopes.grow (some outer) b).next
    rw [Forest.next_grow]
    exact Nat.le_succ _
  enclosing frame hlt := by
    show (m.heap.scopes.grow (some outer) b).enclosing? frame = _
    rw [Forest.enclosing?_grow, if_neg (Nat.ne_of_lt hlt)]
  special frame name _ hsome := by
    obtain ⟨v, hv⟩ := Option.isSome_iff_exists.1 hsome
    exact Forest.bindings_grow_of_lt (some outer) b (Forest.lt_next_of_local? hv)
  ordinary frame hlt ho name hs := by
    show (m.heap.scopes.grow (some outer) b).local? frame name = none
    rw [Forest.local?_grow, if_neg (Nat.ne_of_lt hlt)]
    exact ho name hs
  functions _ _ h := h
  classes _ _ h := h
  objects _ data h := ⟨data, h, rfl⟩

theorem local?_addFrame (m : Machine) (outer : FrameId) (b : Bindings Value) (frame : FrameId)
    (name : String) : (m.heap.addFrame outer b).scopes.local? frame name
      = if frame = m.heap.scopes.next then b.find? name else m.heap.scopes.local? frame name :=
  Forest.local?_grow (some outer) b

theorem bindings_addFrame (m : Machine) (outer : FrameId) (b : Bindings Value) :
    (m.heap.addFrame outer b).scopes.bindings m.heap.scopes.next = b := by
  show (m.heap.scopes.grow (some outer) b).bindings m.heap.scopes.next = b
  unfold Forest.bindings Forest.grow Forest.next
  rw [Array.getElem?_push_size]

theorem enclosing?_addFrame (m : Machine) (outer : FrameId) (b : Bindings Value) :
    (m.heap.addFrame outer b).scopes.enclosing? m.heap.scopes.next = some outer := by
  show (m.heap.scopes.grow (some outer) b).enclosing? m.heap.scopes.next = _
  rw [Forest.enclosing?_grow, if_pos rfl]

/-- A new frame may bind names of the program. -/
theorem Framed.addFrame (hm : m.Framed w) (outer : FrameId) {b : Bindings Value}
    (hb : ∀ name, Special name → b.find? name = none)
    (hv : ∀ name value, b.find? name = some value → m.Sane w value) :
    Framed w { m with heap := m.heap.addFrame outer b } := by
  have hp := persists_addFrame m outer b
  have hspecial : ∀ frame name, Special name →
      ((m.heap.addFrame outer b).scopes.local? frame name).isSome →
      (m.heap.scopes.local? frame name).isSome := by
    intro frame name hs h
    rw [local?_addFrame] at h
    split at h
    · rw [hb name hs] at h
      cases h
    · exact h
  refine hm.move hp rfl (fun frame h => .inl (hspecial frame "this" (.inl rfl) h))
    (fun frame h => .inl (hspecial frame "super" (.inr rfl) h)) (fun frame name v h => ?_)
    (fun _ data _ _ ho h => .inl ⟨data, ho, h⟩) fun _ _ h => .inl h
  replace h : (m.heap.addFrame outer b).scopes.local? frame name = some v := h
  rw [local?_addFrame] at h
  split at h
  · exact .inr ((hv name v h).mono hp)
  · exact .inl h

-- ============================================== functions, classes, objects

/-- More functions; those that there were keep their numbers. -/
theorem persists_functions {functions : Array Closure}
    (h : ∀ (f : FunctionId) (c : Closure), m.heap.functions[f]? = some c →
      functions[f]? = some c) :
    m.Persists { m with heap := { m.heap with functions } } where
  next := Nat.le_refl _
  enclosing _ _ := rfl
  special _ _ _ _ := rfl
  ordinary _ _ ho := ho
  functions := h
  classes _ _ h := h
  objects _ data h := ⟨data, h, rfl⟩

/-- A function that nothing means yet may be any. -/
theorem Framed.functions (hm : m.Framed w) {functions : Array Closure}
    (h : ∀ (f : FunctionId) (c : Closure), m.heap.functions[f]? = some c →
      functions[f]? = some c) :
    Framed w { m with heap := { m.heap with functions } } :=
  hm.move (persists_functions h) rfl (fun _ h => .inl h) (fun _ h => .inl h)
    (fun _ _ _ h => .inl h) (fun _ data _ _ ho h => .inl ⟨data, ho, h⟩) fun _ _ h => .inl h

theorem persists_addClass (m : Machine) (data : ClassData) :
    m.Persists { m with heap := m.heap.addClass data } where
  next := Nat.le_refl _
  enclosing _ _ := rfl
  special _ _ _ _ := rfl
  ordinary _ _ ho := ho
  functions _ _ h := h
  classes c d hd := by
    show (m.heap.classes.push data)[c]? = some d
    rw [Array.getElem?_push, if_neg (Nat.ne_of_lt (Array.getElem?_eq_some_iff.1 hd).1), hd]
  objects _ data h := ⟨data, h, rfl⟩

theorem Framed.addClass (hm : m.Framed w) {data : ClassData}
    (hmethods : ∀ name f, data.methods.find? name = some f → m.Method w name f)
    (hparent : ∀ parent, data.superclass = some parent → parent < m.heap.classes.size) :
    Framed w { m with heap := m.heap.addClass data } := by
  have hp := persists_addClass m data
  refine hm.move hp rfl (fun _ h => .inl h) (fun _ h => .inl h) (fun _ _ _ h => .inl h)
    (fun _ data _ _ ho h => .inl ⟨data, ho, h⟩) fun c d h => ?_
  replace h : (m.heap.classes.push data)[c]? = some d := h
  rw [Array.getElem?_push] at h
  split at h
  · rename_i hc
    cases h
    refine .inr ⟨fun name f hf => (hmethods name f hf).mono hp, fun parent hs => ?_⟩
    rw [hc]
    exact hparent parent hs
  · exact .inl h

theorem persists_addObject (m : Machine) (data : ObjectData) :
    m.Persists { m with heap := m.heap.addObject data } where
  next := Nat.le_refl _
  enclosing _ _ := rfl
  special _ _ _ _ := rfl
  ordinary _ _ ho := ho
  functions _ _ h := h
  classes _ _ h := h
  objects o d hd := by
    refine ⟨d, ?_, rfl⟩
    show (m.heap.objects.push data)[o]? = some d
    rw [Array.getElem?_push, if_neg (Nat.ne_of_lt (Array.getElem?_eq_some_iff.1 hd).1), hd]

/-- A new object has no fields. -/
theorem Framed.addObject (hm : m.Framed w) (c : ClassId) :
    Framed w { m with heap := m.heap.addObject ⟨c, .empty⟩ } := by
  refine hm.move (persists_addObject m ⟨c, .empty⟩) rfl (fun _ h => .inl h) (fun _ h => .inl h)
    (fun _ _ _ h => .inl h) (fun o data name v ho h => .inl ?_) fun _ _ h => .inl h
  replace ho : (m.heap.objects.push ⟨c, .empty⟩)[o]? = some data := ho
  rw [Array.getElem?_push] at ho
  split at ho
  · cases ho
    cases h
  · exact ⟨data, ho, h⟩

theorem persists_setField (m : Machine) (object : ObjectId) (name : String) (value : Value) :
    m.Persists { m with heap := m.heap.setField object name value } where
  next := Nat.le_refl _
  enclosing _ _ := rfl
  special _ _ _ _ := rfl
  ordinary _ _ ho := ho
  functions _ _ h := h
  classes _ _ h := h
  objects o d hd := by
    show ∃ data', (m.heap.objects.modify object _)[o]? = some data' ∧ _
    rw [Array.getElem?_modify]
    by_cases ho : object = o
    · rw [if_pos ho, hd]
      exact ⟨_, rfl, rfl⟩
    · rw [if_neg ho]
      exact ⟨d, hd, rfl⟩

theorem Framed.setField (hm : m.Framed w) {object : ObjectId} {name : String} {value : Value}
    (hv : m.Sane w value) : Framed w { m with heap := m.heap.setField object name value } := by
  have hp := persists_setField m object name value
  refine hm.move hp rfl (fun _ h => .inl h) (fun _ h => .inl h) (fun _ _ _ h => .inl h)
    (fun o data x v ho h => ?_) fun _ _ h => .inl h
  replace ho : (m.heap.objects.modify object fun old =>
    { old with fields := old.fields.set name value })[o]? = some data := ho
  rw [Array.getElem?_modify] at ho
  split at ho
  · obtain ⟨old, hold, rfl⟩ := Option.map_eq_some_iff.1 ho
    replace h : (old.fields.set name value).find? x = some v := h
    rw [Bindings.find?_set] at h
    split at h
    · cases h
      exact .inr (hv.mono hp)
    · exact .inl ⟨old, hold, h⟩
  · exact .inl ⟨data, ho, h⟩

end Machine

end Lox
