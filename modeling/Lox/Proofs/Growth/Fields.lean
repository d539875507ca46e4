/-
Fields and methods as the heap grows. A field of an object holds what was set
last, and nothing if it was never set: no field comes with an object, and none
goes away (`Heap.Becomes.field?_eq`). What a class calls by a name is settled
when the class is made (`Heap.Extends.findMethod?_eq`).

To set a field of one object is to change that and nothing else
(`Heap.OnlySets`).
-/
import Lox.Proofs.Growth.Chains

namespace Lox.Heap

/-- What an object has in a field of its own. -/
def field? (h : Heap) (o : ObjectId) (name : String) : Option Value :=
  h.objects[o]?.bind fun data => data.fields.find? name

/-- What a change sets a field of an object to. -/
def Change.sets? (o : ObjectId) (name : String) : Change → Option Value
  | .field other wanted value => if other = o ∧ wanted = name then some value else none
  | _ => none

/-- A heap differs from another in one field of one object. -/
structure OnlySets (h : Heap) (o : ObjectId) (name : String) (value : Value) (h' : Heap) : Prop where
  field : h'.field? o name = some value
  fields : ∀ other wanted, ¬ (other = o ∧ wanted = name) →
    h'.field? other wanted = h.field? other wanted
  kind : h'.objects[o]?.map ObjectData.cls = h.objects[o]?.map ObjectData.cls
  others : ∀ other : ObjectId, other ≠ o → h'.objects[other]? = h.objects[other]?
  scopes : h'.scopes = h.scopes
  functions : h'.functions = h.functions
  classes : h'.classes = h.classes

variable {h h' : Heap} {o other : ObjectId} {name wanted : String} {value : Value}
  {change : Change} {changes : List Change} {c : ClassId}

-- =================================================================== one field

theorem field?_setField (ho : o < h.objects.size) :
    (h.setField o name value).field? other wanted
      = if other = o ∧ wanted = name then some value else h.field? other wanted := by
  unfold field?
  rw [objects_setField]
  by_cases he : o = other
  · subst he
    rw [if_pos rfl, Array.getElem?_eq_getElem ho, Option.map_some, Option.bind_some,
      Option.bind_some, Bindings.find?_set]
    by_cases hf : name = wanted
    · rw [if_pos hf, if_pos ⟨rfl, hf.symm⟩]
    · rw [if_neg hf, if_neg fun hc => hf hc.2.symm]
  · rw [if_neg he, if_neg fun hc => he hc.1.symm]

theorem onlySets_setField (ho : o < h.objects.size) (name : String) (value : Value) :
    h.OnlySets o name value (h.setField o name value) := by
  constructor
  case field => rw [field?_setField ho, if_pos ⟨rfl, rfl⟩]
  case fields =>
    intro other wanted hne
    rw [field?_setField ho, if_neg hne]
  case kind =>
    rw [objects_setField, if_pos rfl, Option.map_map]
    rfl
  case others =>
    intro other hne
    rw [objects_setField, if_neg (Ne.symm hne)]
  case scopes => rfl
  case functions => rfl
  case classes => rfl

/-- A new object has no fields. -/
theorem field?_addObject {data : ObjectData} (hfields : data.fields = .empty) :
    (h.addObject data).field? o name = h.field? o name := by
  show ((h.objects.push data)[o]?).bind _ = _
  rw [Array.getElem?_push]
  by_cases hlast : o = h.objects.size
  · have hnone : h.objects[o]? = none := Array.getElem?_eq_none (Nat.le_of_eq hlast.symm)
    rw [if_pos hlast, Option.bind_some, hfields, field?, hnone]
    rfl
  · rw [if_neg hlast, field?]

-- ==================================================================== histories

/-- A field holds what a change sets it to, and what it held if the change is another one. -/
theorem field?_apply (allowed : h.Allows change) :
    (h.apply change).field? o name = (change.sets? o name).or (h.field? o name) := by
  cases change with
  | field object wanted value =>
      show (h.setField object wanted value).field? o name = _
      rw [field?_setField allowed.1, Change.sets?]
      by_cases he : o = object ∧ name = wanted
      · rw [if_pos he, if_pos ⟨he.1.symm, he.2.symm⟩, Option.some_or]
      · rw [if_neg he, if_neg fun hc => he ⟨hc.1.symm, hc.2.symm⟩, Option.none_or]
  | object data => exact field?_addObject allowed.2
  | frame | function | cls | bound => rfl

/-- After many changes a field holds what was set last, and what it held if nothing was set. -/
theorem Becomes.field?_eq (hb : h.Becomes changes h') (o : ObjectId) (name : String) :
    h'.field? o name = (changes.reverse.findSome? (Change.sets? o name)).or (h.field? o name) := by
  induction hb with
  | still => rfl
  | step allowed _ ih =>
      rw [ih, field?_apply allowed, List.reverse_cons, List.findSome?_append, Option.or_assoc]
      simp

/-- A field that an object has it keeps. -/
theorem Becomes.isSome_field? (hb : h.Becomes changes h') (hsome : (h.field? o name).isSome) :
    (h'.field? o name).isSome := by
  rw [hb.field?_eq, Option.isSome_or, hsome, Bool.or_true]

/-- At the start there are no objects, so every field was set. -/
theorem Becomes.field?_of_initial (hb : initial.Becomes changes h) (o : ObjectId) (name : String) :
    h.field? o name = changes.reverse.findSome? (Change.sets? o name) := by
  have hnone : initial.field? o name = none := rfl
  rw [hb.field?_eq, hnone, Option.or_none]

-- ====================================================================== methods

theorem Extends.ownMethod?_eq (e : h.Extends h') {data : ClassData}
    (hc : h.classes[c]? = some data) : h'.ownMethod? c name = h.ownMethod? c name := by
  rw [ownMethod?, ownMethod?, e.classes c data hc, hc]

/-- What a class calls by a name does not change, whatever is done later. -/
theorem Extends.findMethod?_eq (e : h.Extends h') (hg : h.Grounded) (hc : c < h.classes.size)
    (name : String) : h'.findMethod? c name = h.findMethod? c name := by
  obtain ⟨line, hline, hlength⟩ := hg.exists_descent hc
  have hbefore : h.lineage c = line := hline.lineageWithin_eq (Nat.le_trans hlength hc)
  have hafter : h'.lineage c = line :=
    (hline.kept e).lineageWithin_eq (Nat.le_trans hlength (e.lt_classes hc))
  have hclasses := hline.exists_of_mem
  rw [findMethod?, findMethod?, hbefore, hafter]
  clear hline hlength hbefore hafter
  induction line with
  | nil => rfl
  | cons d line ih =>
      obtain ⟨⟨data, hdata⟩, hrest⟩ := List.forall_mem_cons.1 hclasses
      rw [List.findSome?_cons, List.findSome?_cons, e.ownMethod?_eq hdata, ih hrest]

end Lox.Heap
