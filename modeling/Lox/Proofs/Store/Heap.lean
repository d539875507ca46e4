/-
What of a heap does not depend on frames: the texts of values, methods and the
numbers of arguments. A heap without its frames (`Heap.bare`) answers all of
these alike. Things are added to a heap behind all that there are.
-/
import Lox.Store.Heap

namespace Lox

/-- What is pushed onto an array leaves what is in it where it is. -/
theorem getElem?_push_of_some {α : Type} {a : Array α} {i : Nat} {x y : α} (hx : a[i]? = some x) :
    (a.push y)[i]? = some x := by
  have hlt : i < a.size := (Array.getElem?_eq_some_iff.1 hx).1
  rw [Array.getElem?_push, if_neg (Nat.ne_of_lt hlt), hx]

/-- What is in an array after a push was pushed, or was there before. -/
theorem getElem?_push_cases {α : Type} {a : Array α} {i : Nat} {x y : α}
    (hx : (a.push y)[i]? = some x) : a[i]? = some x ∨ i = a.size ∧ x = y := by
  rw [Array.getElem?_push] at hx
  split at hx
  · rename_i hlast
    cases hx
    exact .inr ⟨hlast, rfl⟩
  · exact .inl hx

/-- A function without the frame it was declared in. -/
def Closure.bare (c : Closure) : Closure := { c with scope := globalFrame }

namespace Heap

/-- A heap without frames. -/
def bare (h : Heap) : Heap := { h with scopes := .empty, functions := h.functions.map Closure.bare }

variable {h k : Heap}

theorem lineageWithin_of_classes (hc : h.classes = k.classes) (fuel : Nat) (c : ClassId) :
    h.lineageWithin fuel c = k.lineageWithin fuel c := by
  induction fuel generalizing c with
  | zero => rfl
  | succ fuel ih =>
      unfold lineageWithin
      rw [hc]
      cases k.classes[c]? with
      | none => rfl
      | some data =>
          cases hs : data.superclass with
          | none => simp only [hs]
          | some parent => simp only [hs, ih]

/-- Methods are looked for in classes and nowhere else. -/
theorem findMethod?_of_classes (hc : h.classes = k.classes) (c : ClassId) (name : String) :
    h.findMethod? c name = k.findMethod? c name := by
  unfold findMethod? lineage ownMethod?
  rw [lineageWithin_of_classes hc, hc]

theorem findMethod?_bare (c : ClassId) (name : String) :
    h.bare.findMethod? c name = h.findMethod? c name := by
  have hc : h.bare.classes = h.classes := rfl
  exact findMethod?_of_classes hc c name

theorem functions_bare (f : FunctionId) :
    h.bare.functions[f]? = h.functions[f]?.map Closure.bare := by
  rw [bare, Array.getElem?_map]

theorem arity?_bare (v : Value) : h.bare.arity? v = h.arity? v := by
  cases v with
  | function f =>
      show (h.bare.functions[f]?).map _ = (h.functions[f]?).map _
      rw [functions_bare, Option.map_map]
      rfl
  | cls c =>
      show some (((h.bare.findMethod? c initializerName).bind _).elim 0 _) = _
      rw [findMethod?_bare]
      cases hm : h.findMethod? c initializerName with
      | none => simp only [arity?, hm]; rfl
      | some f =>
          simp only [arity?, hm, Option.bind_some, functions_bare]
          cases h.functions[f]? <;> rfl
  | nil | boolean | number | string | native | object => rfl

theorem functionName_bare (f : FunctionId) : h.bare.functionName f = h.functionName f := by
  unfold functionName
  rw [functions_bare]
  cases h.functions[f]? <;> rfl

/-- A value prints the same whatever frames there are. -/
theorem text_bare (v : Value) : h.bare.text v = h.text v := by
  cases v with
  | function f =>
      show "<fn " ++ h.bare.functionName f ++ ">" = _
      rw [functionName_bare]
      rfl
  | nil | boolean | number | string | native | cls | object => rfl

/-- A method that a class inherits or declares stands in the methods of some class. -/
theorem exists_method_of_findMethod? {c : ClassId} {name : String} {f : FunctionId}
    (hf : h.findMethod? c name = some f) :
    ∃ (d : ClassId) (data : ClassData), h.classes[d]? = some data
      ∧ data.methods.find? name = some f := by
  unfold findMethod? at hf
  obtain ⟨d, -, hd⟩ := List.exists_of_findSome?_eq_some hf
  unfold ownMethod? at hd
  cases hc : h.classes[d]? with
  | none => rw [hc] at hd; cases hd
  | some data =>
      rw [hc] at hd
      exact ⟨d, data, hc, hd⟩

end Heap

end Lox
