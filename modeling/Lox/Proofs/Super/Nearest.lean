/-
The nearest method on the chain of a class: its own, or else the nearest on the
chain of its superclass. A class is made after its superclass, so the walk that
the heap takes along a chain, which is bounded by the number of classes, always
reaches the end.
-/
import Lox.Store.Heap

namespace Lox.Heap

/-- The nearest method of a name on the chain of a class. -/
inductive Nearest (h : Heap) (name : String) : ClassId → FunctionId → Prop
  | own {c : ClassId} {f : FunctionId} (has : h.ownMethod? c name = some f) : Nearest h name c f
  | inherited {c parent : ClassId} {data : ClassData} {f : FunctionId}
      (lacks : h.ownMethod? c name = none) (class_ : h.classes[c]? = some data)
      (above : data.superclass = some parent) (nearest : Nearest h name parent f) :
      Nearest h name c f

/-- Every superclass has a smaller number than the class below it. -/
def Layered (h : Heap) : Prop :=
  ∀ (c : ClassId) (data : ClassData) (parent : ClassId), h.classes[c]? = some data →
    data.superclass = some parent → parent < c

variable {h : Heap} {name : String} {f : FunctionId}

/-- A class that is not there has no methods. -/
theorem not_nearest_of_none {c : ClassId} (hc : h.classes[c]? = none) :
    ¬ h.Nearest name c f := by
  intro hn
  cases hn with
  | own has =>
      unfold ownMethod? at has
      rw [hc] at has
      cases has
  | inherited _ hclass =>
      rw [hc] at hclass
      cases hclass

/-- A class's own method hides those above. -/
theorem nearest_iff_of_own {c : ClassId} {g : FunctionId} (hown : h.ownMethod? c name = some g) :
    h.Nearest name c f ↔ g = f := by
  constructor
  · intro hn
    cases hn with
    | own has => exact Option.some.inj (hown.symm.trans has)
    | inherited lacks =>
        rw [hown] at lacks
        cases lacks
  · rintro rfl
    exact .own hown

/-- What a class lacks is looked for in its superclass, and nowhere else. -/
theorem nearest_iff_of_lacks {c : ClassId} {data : ClassData}
    (hlacks : h.ownMethod? c name = none) (hclass : h.classes[c]? = some data) :
    h.Nearest name c f ↔ ∃ parent, data.superclass = some parent ∧ h.Nearest name parent f := by
  constructor
  · intro hn
    cases hn with
    | own has =>
        rw [hlacks] at has
        cases has
    | inherited _ hclass' above nearest =>
        rw [hclass] at hclass'
        cases hclass'
        exact ⟨_, above, nearest⟩
  · rintro ⟨parent, above, nearest⟩
    exact .inherited hlacks hclass above nearest

theorem findSome?_lineageWithin_iff (hl : h.Layered) (fuel : Nat) (c : ClassId) (hlt : c < fuel) :
    (h.lineageWithin fuel c).findSome? (fun ancestor => h.ownMethod? ancestor name) = some f
      ↔ h.Nearest name c f := by
  induction fuel generalizing c with
  | zero => exact absurd hlt (Nat.not_lt_zero c)
  | succ fuel ih =>
      unfold lineageWithin
      cases hc : h.classes[c]? with
      | none => exact ⟨nofun, fun hn => absurd hn (not_nearest_of_none hc)⟩
      | some data =>
          cases hs : data.superclass with
          | none =>
              cases ho : h.ownMethod? c name with
              | none => simp [hs, ho, nearest_iff_of_lacks ho hc]
              | some g => simp [hs, ho, nearest_iff_of_own ho]
          | some parent =>
              have hparent : parent < fuel :=
                Nat.lt_of_lt_of_le (hl c data parent hc hs) (Nat.le_of_lt_succ hlt)
              cases ho : h.ownMethod? c name with
              | none => simp [hs, ho, nearest_iff_of_lacks ho hc, ih parent hparent]
              | some g => simp [hs, ho, nearest_iff_of_own ho]

/-- The method that is found is the nearest. -/
theorem findMethod?_eq_some_iff (hl : h.Layered) (c : ClassId) :
    h.findMethod? c name = some f ↔ h.Nearest name c f := by
  by_cases hlt : c < h.classes.size
  · exact findSome?_lineageWithin_iff hl _ c hlt
  · have hc : h.classes[c]? = none := Array.getElem?_eq_none (Nat.not_lt.1 hlt)
    have hlineage : h.lineage c = [] := by
      unfold lineage
      cases h.classes.size with
      | zero => rfl
      | succ n =>
          unfold lineageWithin
          rw [hc]
    unfold findMethod?
    rw [hlineage]
    exact ⟨nofun, fun hn => absurd hn (not_nearest_of_none hc)⟩

end Lox.Heap
