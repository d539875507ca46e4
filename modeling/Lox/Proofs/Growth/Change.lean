/-
How a heap grows. Whatever a program does to the heap is a sequence of six kinds
of changes: something is added, a name of a frame is bound, a field of an object
is set (`Heap.Change`). A change is allowed when all that it mentions is there
already, so it can refer to older things only.

Nothing is ever lost by a change (`Heap.Extends`). A heap on which only allowed
changes were made is grounded: every value in it means something, every frame but
that of the global variables lies in an older one, and every class is younger
than its superclass. That the things on a heap refer to each other in circles,
through names and fields, does not touch these two kinds of links: they are fixed
when a frame or a class is made.
-/
import Lox.Proofs.Store.Chain
import Lox.Proofs.Store.Heap
import Lox.Proofs.Super.Nearest

namespace Lox.Heap

/-- What can be done to a heap. -/
inductive Change where
  | frame (enclosing : FrameId) (bindings : Bindings Value)
  | function (f : Closure)
  | cls (c : ClassData)
  | object (o : ObjectData)
  | bound (frame : FrameId) (name : String) (value : Value)
  | field (object : ObjectId) (name : String) (value : Value)

/-- The heap after a change. -/
def apply (h : Heap) : Change → Heap
  | .frame enclosing bindings => h.addFrame enclosing bindings
  | .function f => h.addFunction f
  | .cls c => h.addClass c
  | .object o => h.addObject o
  | .bound frame name value => h.define frame name value
  | .field object name value => h.setField object name value

/-- A value means something that is on the heap. -/
def Has (h : Heap) : Value → Prop
  | .function f => f < h.functions.size
  | .cls c => c < h.classes.size
  | .object o => o < h.objects.size
  | _ => True

/-- All names are bound to values that mean something. -/
def Holds (h : Heap) (b : Bindings Value) : Prop :=
  ∀ name value, b.find? name = some value → h.Has value

/-- All that a change mentions is there, and an object has no fields when it is new. -/
def Allows (h : Heap) : Change → Prop
  | .frame enclosing bindings => enclosing < h.scopes.next ∧ h.Holds bindings
  | .function f => f.scope < h.scopes.next
  | .cls c => (∀ parent, c.superclass = some parent → parent < h.classes.size)
      ∧ ∀ name f, c.methods.find? name = some f → f < h.functions.size
  | .object o => o.cls < h.classes.size ∧ o.fields = .empty
  | .bound frame _ value => frame < h.scopes.next ∧ h.Has value
  | .field object _ value => object < h.objects.size ∧ h.Has value

/-- A heap becomes another by allowed changes, one after the other. -/
inductive Becomes : Heap → List Change → Heap → Prop
  | still {h : Heap} : Becomes h [] h
  | step {h h' : Heap} {change : Change} {changes : List Change} (allowed : h.Allows change)
      (rest : Becomes (h.apply change) changes h') : Becomes h (change :: changes) h'

/-- Nothing of a heap is lost or altered on another: frames stay where they lie, functions and
classes as they were made, and objects what they are objects of. -/
structure Extends (h h' : Heap) : Prop where
  next : h.scopes.next ≤ h'.scopes.next
  enclosing : ∀ frame, frame < h.scopes.next →
    h'.scopes.enclosing? frame = h.scopes.enclosing? frame
  functions : ∀ (f : FunctionId) (c : Closure), h.functions[f]? = some c →
    h'.functions[f]? = some c
  classes : ∀ (c : ClassId) (data : ClassData), h.classes[c]? = some data →
    h'.classes[c]? = some data
  objects : ∀ (o : ObjectId) (data : ObjectData), h.objects[o]? = some data →
    ∃ data', h'.objects[o]? = some data' ∧ data'.cls = data.cls

/-- All that is on the heap refers to what is on the heap, and frames and classes refer outwards and
upwards to older ones. -/
structure Grounded (h : Heap) : Prop where
  rooted : globalFrame < h.scopes.next
  root : h.scopes.enclosing? globalFrame = none
  enclosed : ∀ frame, frame < h.scopes.next → frame ≠ globalFrame →
    ∃ outer, h.scopes.enclosing? frame = some outer ∧ outer < frame
  bound : ∀ frame, h.Holds (h.scopes.bindings frame)
  closures : ∀ (f : FunctionId) (c : Closure), h.functions[f]? = some c → c.scope < h.scopes.next
  layered : h.Layered
  methods : ∀ (c : ClassId) (data : ClassData) name f, h.classes[c]? = some data →
    data.methods.find? name = some f → f < h.functions.size
  objects : ∀ (o : ObjectId) (data : ObjectData), h.objects[o]? = some data →
    data.cls < h.classes.size ∧ h.Holds data.fields

variable {h h' h'' : Heap} {change : Change} {changes changes' : List Change} {value : Value}
  {b : Bindings Value}

-- ============================================================ nothing is lost

namespace Extends

theorem refl (h : Heap) : h.Extends h where
  next := Nat.le_refl _
  enclosing _ _ := rfl
  functions _ _ hf := hf
  classes _ _ hc := hc
  objects _ data ho := ⟨data, ho, rfl⟩

theorem trans (e : h.Extends h') (e' : h'.Extends h'') : h.Extends h'' where
  next := Nat.le_trans e.next e'.next
  enclosing frame hlt := by
    rw [e'.enclosing frame (Nat.lt_of_lt_of_le hlt e.next), e.enclosing frame hlt]
  functions f c hf := e'.functions f c (e.functions f c hf)
  classes c data hc := e'.classes c data (e.classes c data hc)
  objects o data ho := by
    obtain ⟨data', ho', hsame⟩ := e.objects o data ho
    obtain ⟨data'', ho'', hsame'⟩ := e'.objects o data' ho'
    exact ⟨data'', ho'', hsame'.trans hsame⟩

theorem lt_functions (e : h.Extends h') {f : FunctionId} (hf : f < h.functions.size) :
    f < h'.functions.size :=
  (Array.getElem?_eq_some_iff.1 (e.functions f _ (Array.getElem?_eq_getElem hf))).1

theorem lt_classes (e : h.Extends h') {c : ClassId} (hc : c < h.classes.size) :
    c < h'.classes.size :=
  (Array.getElem?_eq_some_iff.1 (e.classes c _ (Array.getElem?_eq_getElem hc))).1

theorem lt_objects (e : h.Extends h') {o : ObjectId} (ho : o < h.objects.size) :
    o < h'.objects.size := by
  obtain ⟨data, hdata, -⟩ := e.objects o _ (Array.getElem?_eq_getElem ho)
  exact (Array.getElem?_eq_some_iff.1 hdata).1

theorem has (e : h.Extends h') (hv : h.Has value) : h'.Has value := by
  cases value with
  | function f => exact e.lt_functions hv
  | cls c => exact e.lt_classes hv
  | object o => exact e.lt_objects hv
  | nil | boolean | number | string | native => trivial

theorem holds (e : h.Extends h') (hb : h.Holds b) : h'.Holds b :=
  fun name value hfind => e.has (hb name value hfind)

end Extends

/-- An object with a field set is an object of the same class. -/
theorem objects_setField (h : Heap) (object o : ObjectId) (name : String) (value : Value) :
    (h.setField object name value).objects[o]?
      = if object = o then h.objects[o]?.map fun data =>
          { data with fields := data.fields.set name value }
        else h.objects[o]? := by
  unfold setField
  rw [Array.getElem?_modify]

theorem extends_apply (h : Heap) (change : Change) : h.Extends (h.apply change) := by
  cases change with
  | frame enclosing bindings =>
      refine { Extends.refl h with next := ?_, enclosing := ?_ }
      · show h.scopes.next ≤ (h.scopes.grow _ _).next
        rw [Forest.next_grow]
        exact Nat.le_succ _
      · intro frame hlt
        show (h.scopes.grow _ _).enclosing? frame = _
        rw [Forest.enclosing?_grow, if_neg (Nat.ne_of_lt hlt)]
  | function f =>
      exact { Extends.refl h with functions := fun _ _ hf => getElem?_push_of_some hf }
  | cls c => exact { Extends.refl h with classes := fun _ _ hc => getElem?_push_of_some hc }
  | object o =>
      exact { Extends.refl h with
        objects := fun _ data ho => ⟨data, getElem?_push_of_some ho, rfl⟩ }
  | bound frame name value =>
      refine { Extends.refl h with next := ?_, enclosing := ?_ }
      · exact Nat.le_of_eq Forest.next_define.symm
      · exact fun _ _ => Forest.enclosing?_define
  | field object name value =>
      refine { Extends.refl h with objects := fun o data ho => ?_ }
      show ∃ data', (h.setField object name value).objects[o]? = some data' ∧ _
      rw [objects_setField, ho]
      by_cases he : object = o
      · rw [if_pos he]
        exact ⟨_, rfl, rfl⟩
      · rw [if_neg he]
        exact ⟨data, rfl, rfl⟩

namespace Becomes

theorem append (hb : h.Becomes changes h') (hb' : h'.Becomes changes' h'') :
    h.Becomes (changes ++ changes') h'' := by
  induction hb with
  | still => exact hb'
  | step allowed _ ih => exact .step allowed (ih hb')

theorem kept (hb : h.Becomes changes h') : h.Extends h' := by
  induction hb with
  | still => exact .refl _
  | step _ _ ih => exact (extends_apply _ _).trans ih

end Becomes

-- ========================================================= grounded all along

@[simp] theorem holds_empty (h : Heap) : h.Holds .empty := nofun

theorem Holds.set (hb : h.Holds b) (hv : h.Has value) (name : String) :
    h.Holds (b.set name value) := by
  intro other found hfound
  rw [Bindings.find?_set] at hfound
  by_cases hname : name = other
  · rw [if_pos hname] at hfound
    cases hfound
    exact hv
  · rw [if_neg hname] at hfound
    exact hb other found hfound

namespace Grounded

/-- What is on a heap that extends a grounded one was there before, or it refers to what is on the
heap, outwards and upwards to older things. -/
theorem extended (hg : h.Grounded) (hext : h.Extends h')
    (frames : ∀ frame, frame < h'.scopes.next → frame < h.scopes.next
      ∨ ∃ outer, h'.scopes.enclosing? frame = some outer ∧ outer < frame)
    (names : ∀ frame name value, h'.scopes.local? frame name = some value →
      h.scopes.local? frame name = some value ∨ h'.Has value)
    (functions : ∀ (f : FunctionId) (c : Closure), h'.functions[f]? = some c →
      h.functions[f]? = some c ∨ c.scope < h'.scopes.next)
    (classes : ∀ (c : ClassId) (data : ClassData), h'.classes[c]? = some data →
      h.classes[c]? = some data ∨ (∀ parent, data.superclass = some parent → parent < c)
        ∧ ∀ name f, data.methods.find? name = some f → f < h'.functions.size)
    (objects : ∀ (o : ObjectId) (data : ObjectData), h'.objects[o]? = some data →
      h.objects[o]? = some data ∨ data.cls < h'.classes.size ∧ h'.Holds data.fields) :
    h'.Grounded := by
  constructor
  case rooted => exact Nat.lt_of_lt_of_le hg.rooted hext.next
  case root => rw [hext.enclosing globalFrame hg.rooted, hg.root]
  case enclosed =>
    intro frame hframe hne
    rcases frames frame hframe with hold | hnew
    · rw [hext.enclosing frame hold]
      exact hg.enclosed frame hold hne
    · exact hnew
  case bound =>
    intro frame name value hfound
    rcases names frame name value hfound with hold | hnew
    · exact hext.has (hg.bound frame name value hold)
    · exact hnew
  case closures =>
    intro f c hc
    rcases functions f c hc with hold | hnew
    · exact Nat.lt_of_lt_of_le (hg.closures f c hold) hext.next
    · exact hnew
  case layered =>
    intro c data parent hc habove
    rcases classes c data hc with hold | ⟨hparent, -⟩
    · exact hg.layered c data parent hold habove
    · exact hparent parent habove
  case methods =>
    intro c data name f hc hmethod
    rcases classes c data hc with hold | ⟨-, hmethods⟩
    · exact hext.lt_functions (hg.methods c data name f hold hmethod)
    · exact hmethods name f hmethod
  case objects =>
    intro o data ho
    rcases objects o data ho with hold | hnew
    · exact ⟨hext.lt_classes (hg.objects o data hold).1, hext.holds (hg.objects o data hold).2⟩
    · exact hnew

theorem addFrame (hg : h.Grounded) {outer : FrameId} (houter : outer < h.scopes.next)
    (hb : h.Holds b) : (h.addFrame outer b).Grounded := by
  have hext : h.Extends (h.addFrame outer b) := extends_apply h (.frame outer b)
  refine hg.extended hext ?_ ?_ (fun _ _ => .inl) (fun _ _ => .inl) (fun _ _ => .inl)
  · intro frame hframe
    by_cases hlast : frame = h.scopes.next
    · refine .inr ⟨outer, ?_, hlast ▸ houter⟩
      show (h.scopes.grow (some outer) b).enclosing? frame = some outer
      rw [Forest.enclosing?_grow, if_pos hlast]
    · have hle : frame < h.scopes.next + 1 :=
        Nat.lt_of_lt_of_eq hframe (Forest.next_grow (some outer) b)
      exact .inl (Nat.lt_of_le_of_ne (Nat.le_of_lt_succ hle) hlast)
  · intro frame name value hfound
    have hlocal : (h.scopes.grow (some outer) b).local? frame name = some value := hfound
    rw [Forest.local?_grow] at hlocal
    split at hlocal
    · exact .inr (hext.has (hb name value hlocal))
    · exact .inl hlocal

theorem addFunction (hg : h.Grounded) {c : Closure} (hscope : c.scope < h.scopes.next) :
    (h.addFunction c).Grounded := by
  refine hg.extended (extends_apply h (.function c)) (fun _ => .inl) (fun _ _ _ => .inl) ?_
    (fun _ _ => .inl) (fun _ _ => .inl)
  intro f code hcode
  rcases getElem?_push_cases hcode with hold | ⟨-, rfl⟩
  · exact .inl hold
  · exact .inr hscope

theorem addClass (hg : h.Grounded) {data : ClassData}
    (hparent : ∀ parent, data.superclass = some parent → parent < h.classes.size)
    (hmethods : ∀ name f, data.methods.find? name = some f → f < h.functions.size) :
    (h.addClass data).Grounded := by
  refine hg.extended (extends_apply h (.cls data)) (fun _ => .inl) (fun _ _ _ => .inl)
    (fun _ _ => .inl) ?_ (fun _ _ => .inl)
  intro c found hfound
  rcases getElem?_push_cases hfound with hold | ⟨rfl, rfl⟩
  · exact .inl hold
  · exact .inr ⟨hparent, hmethods⟩

theorem addObject (hg : h.Grounded) {data : ObjectData} (hcls : data.cls < h.classes.size)
    (hfields : data.fields = .empty) : (h.addObject data).Grounded := by
  refine hg.extended (extends_apply h (.object data)) (fun _ => .inl) (fun _ _ _ => .inl)
    (fun _ _ => .inl) (fun _ _ => .inl) ?_
  intro o found ho
  rcases getElem?_push_cases ho with hold | ⟨-, rfl⟩
  · exact .inl hold
  · rw [hfields]
    exact .inr ⟨hcls, holds_empty _⟩

theorem define (hg : h.Grounded) {frame : FrameId} (hframe : frame < h.scopes.next)
    (hv : h.Has value) (name : String) : (h.define frame name value).Grounded := by
  have hext : h.Extends (h.define frame name value) := extends_apply h (.bound frame name value)
  refine hg.extended hext ?_ ?_ (fun _ _ => .inl) (fun _ _ => .inl) (fun _ _ => .inl)
  · exact fun other hother => .inl (Nat.lt_of_lt_of_eq hother Forest.next_define)
  · intro other wanted found hfound
    have hlocal : (h.scopes.define frame name value).local? other wanted = some found := hfound
    rw [Forest.local?_define hframe] at hlocal
    split at hlocal
    · cases hlocal
      exact .inr (hext.has hv)
    · exact .inl hlocal

theorem setField (hg : h.Grounded) {object : ObjectId} (hv : h.Has value) (name : String) :
    (h.setField object name value).Grounded := by
  have hext : h.Extends (h.setField object name value) :=
    extends_apply h (.field object name value)
  refine hg.extended hext (fun _ => .inl) (fun _ _ _ => .inl) (fun _ _ => .inl)
    (fun _ _ => .inl) ?_
  intro o found ho
  rw [objects_setField] at ho
  split at ho
  · obtain ⟨data, hdata, rfl⟩ := Option.map_eq_some_iff.1 ho
    obtain ⟨hcls, hfields⟩ := hg.objects o data hdata
    exact .inr ⟨hcls, hext.holds (hfields.set hv name)⟩
  · exact .inl ho

/-- An allowed change keeps a heap grounded. -/
theorem apply (hg : h.Grounded) (allowed : h.Allows change) : (h.apply change).Grounded := by
  cases change with
  | frame outer b => exact hg.addFrame allowed.1 allowed.2
  | function c => exact hg.addFunction allowed
  | cls data => exact hg.addClass allowed.1 allowed.2
  | object data => exact hg.addObject allowed.1 allowed.2
  | bound frame name value => exact hg.define allowed.1 allowed.2 name
  | field object name value => exact hg.setField allowed.2 name

/-- A grounded heap becomes grounded ones only. -/
theorem becomes (hg : h.Grounded) (hb : h.Becomes changes h') : h'.Grounded := by
  induction hb with
  | still => exact hg
  | step allowed _ ih => exact ih (hg.apply allowed)

/-- Every frame is younger than the one around it. -/
theorem scopes_layered (hg : h.Grounded) : h.scopes.Layered := by
  intro frame outer henclosed
  have hne : frame ≠ globalFrame := by
    rintro rfl
    rw [hg.root] at henclosed
    cases henclosed
  obtain ⟨outer', houter', hlt⟩ :=
    hg.enclosed frame (Forest.lt_next_of_enclosing? henclosed) hne
  rw [henclosed] at houter'
  cases houter'
  exact hlt

/-- A walk by count stays on the heap. -/
theorem lt_next_of_ancestor? (hg : h.Grounded) {frame target : FrameId} {distance : Nat}
    (hframe : frame < h.scopes.next) (hancestor : h.scopes.ancestor? frame distance = some target) :
    target < h.scopes.next := by
  obtain ⟨path, hpath, -⟩ := hg.scopes_layered.exists_path frame
  rw [hpath.ancestor?_eq] at hancestor
  have hle := hg.scopes_layered.le_of_mem hpath target (List.mem_of_getElem? hancestor)
  exact Nat.lt_of_le_of_lt hle hframe

/-- What a name means is on the heap. -/
theorem has_of_local? (hg : h.Grounded) {frame : FrameId} {name : String}
    (hlocal : h.scopes.local? frame name = some value) : h.Has value :=
  hg.bound frame name value hlocal

end Grounded

end Lox.Heap
