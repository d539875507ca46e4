/-
Forests of frames, one operation at a time: what is left as it was when a frame
is added and when a name is bound. Beyond that, a walk by name in a frame that
nothing encloses is a look at that frame alone.
-/
import Lox.Store.Forest

namespace Lox.Forest

variable {α : Type} {f : Forest α} {frame outer other : FrameId} {name : String} {value : α}

-- ============================================================ a new frame

@[simp] theorem next_grow (enclosing : Option FrameId) (b : Bindings α) :
    (f.grow enclosing b).next = f.next + 1 := by
  simp [grow, next]

/-- Old frames are bound as before, and the new one has what it was made with. -/
theorem local?_grow (enclosing : Option FrameId) (b : Bindings α) :
    (f.grow enclosing b).local? frame name
      = if frame = f.next then b.find? name else f.local? frame name := by
  unfold local? bindings grow next
  rw [Array.getElem?_push]
  by_cases he : frame = f.frames.size
  · rw [if_pos he, if_pos he]
  · rw [if_neg he, if_neg he]

theorem bindings_grow_of_lt (enclosing : Option FrameId) (b : Bindings α) (h : frame < f.next) :
    (f.grow enclosing b).bindings frame = f.bindings frame := by
  have hne : frame ≠ f.frames.size := Nat.ne_of_lt h
  unfold bindings grow
  rw [Array.getElem?_push, if_neg hne]

theorem enclosing?_grow (enclosing : Option FrameId) (b : Bindings α) :
    (f.grow enclosing b).enclosing? frame
      = if frame = f.next then enclosing else f.enclosing? frame := by
  unfold enclosing? grow next
  rw [Array.getElem?_push]
  by_cases he : frame = f.frames.size
  · rw [if_pos he, if_pos he]
    rfl
  · rw [if_neg he, if_neg he]

-- =========================================================== a new binding

@[simp] theorem next_define : (f.define frame name value).next = f.next := by
  simp [define, next]

/-- One name of one frame has a new value. -/
theorem local?_define {wanted : String} (h : frame < f.next) :
    (f.define frame name value).local? other wanted
      = if other = frame ∧ wanted = name then some value else f.local? other wanted := by
  unfold local? bindings define
  rw [Array.getElem?_modify]
  by_cases he : other = frame
  · have hin : frame < f.frames.size := h
    rw [if_pos he.symm, he, Array.getElem?_eq_getElem hin]
    show ((f.frames[frame].bindings.set name value).find? wanted) = _
    rw [Bindings.find?_set]
    by_cases hw : wanted = name
    · rw [if_pos hw.symm, if_pos ⟨rfl, hw⟩]
    · rw [if_neg (Ne.symm hw), if_neg fun hc => hw hc.2]
  · rw [if_neg (Ne.symm he), if_neg fun hc => he hc.1]

theorem bindings_define (h : frame < f.next) :
    (f.define frame name value).bindings other
      = if other = frame then (f.bindings frame).set name value else f.bindings other := by
  unfold bindings define
  rw [Array.getElem?_modify]
  by_cases he : other = frame
  · have hin : frame < f.frames.size := h
    rw [if_pos he.symm, if_pos he, he, Array.getElem?_eq_getElem hin]
    rfl
  · rw [if_neg (Ne.symm he), if_neg he]

@[simp] theorem enclosing?_define :
    (f.define frame name value).enclosing? other = f.enclosing? other := by
  unfold enclosing? define
  rw [Array.getElem?_modify]
  by_cases he : frame = other
  · rw [if_pos he]
    cases f.frames[other]? <;> rfl
  · rw [if_neg he]

/-- A frame can be made with a binding, or be made empty and bound then. -/
theorem define_grow (enclosing : Option FrameId) (b : Bindings α) :
    (f.grow enclosing b).define f.next name value = f.grow enclosing (b.set name value) := by
  unfold define grow next
  congr 1
  apply Array.ext_getElem?
  intro i
  rw [Array.getElem?_modify, Array.getElem?_push, Array.getElem?_push]
  by_cases he : i = f.frames.size
  · rw [if_pos he.symm, if_pos he, if_pos he]
    rfl
  · rw [if_neg (Ne.symm he), if_neg he, if_neg he]

/-- A frame that there is not binds nothing. -/
theorem define_of_le (h : f.next ≤ frame) : f.define frame name value = f := by
  obtain ⟨frames⟩ := f
  unfold define
  congr 1
  apply Array.ext_getElem?
  intro i
  rw [Array.getElem?_modify]
  by_cases he : frame = i
  · have hnone : frames[i]? = none := Array.getElem?_eq_none (he ▸ h)
    rw [if_pos he, hnone]
    rfl
  · rw [if_neg he]

-- ================================================================== walks

/-- What encloses a frame encloses a frame that there is. -/
theorem lt_next_of_enclosing? (h : f.enclosing? frame = some outer) : frame < f.next := by
  unfold enclosing? at h
  cases hf : f.frames[frame]? with
  | none => rw [hf] at h; cases h
  | some content => exact (Array.getElem?_eq_some_iff.1 hf).1

theorem lt_next_of_local? (h : f.local? frame name = some value) : frame < f.next := by
  unfold local? bindings at h
  cases hf : f.frames[frame]? with
  | none => rw [hf] at h; cases h
  | some content => exact (Array.getElem?_eq_some_iff.1 hf).1

/-- No frame that there is loses a name when another is added. -/
theorem isSome_local?_grow (enclosing : Option FrameId) (b : Bindings α)
    (h : (f.local? frame name).isSome) : ((f.grow enclosing b).local? frame name).isSome := by
  obtain ⟨value, hvalue⟩ := Option.isSome_iff_exists.1 h
  have hlt : frame < f.next := lt_next_of_local? hvalue
  rw [local?_grow, if_neg (Nat.ne_of_lt hlt)]
  exact h

/-- Binding a name, in a frame that there is or in none, takes no other name away. -/
theorem isSome_local?_define {wanted : String} (h : (f.local? other wanted).isSome) :
    ((f.define frame name value).local? other wanted).isSome := by
  by_cases hlt : frame < f.next
  · rw [local?_define hlt]
    split
    · rfl
    · exact h
  · rw [define_of_le (Nat.not_lt.mp hlt)]
    exact h

/-- A frame that binds a name is the nearest that does. -/
theorem holder?_of_local? (h : (f.local? frame name).isSome) : f.holder? frame name = some frame := by
  obtain ⟨v, hv⟩ := Option.isSome_iff_exists.1 h
  have hin : frame < f.frames.size := lt_next_of_local? hv
  unfold holder?
  cases hs : f.frames.size with
  | zero => exact absurd (hs ▸ hin) (Nat.not_lt_zero _)
  | succ n =>
      rw [holderWithin, if_pos]
      exact h

theorem get?_of_local? (h : f.local? frame name = some value) : f.get? frame name = some value := by
  have hsome : (f.local? frame name).isSome := by rw [h]; rfl
  unfold get?
  rw [holder?_of_local? hsome]
  exact h

/-- Nothing lies around a frame that nothing encloses, so a walk by name ends there. -/
theorem holder?_of_root (hin : frame < f.next) (hroot : f.enclosing? frame = none) :
    f.holder? frame name = if (f.bindings frame).binds name then some frame else none := by
  unfold holder?
  have hsize : f.frames.size ≠ 0 := Nat.ne_of_gt (Nat.lt_of_le_of_lt (Nat.zero_le _) hin)
  cases hs : f.frames.size with
  | zero => exact absurd hs hsize
  | succ n =>
      rw [holderWithin, hroot]

theorem get?_of_root (hin : frame < f.next) (hroot : f.enclosing? frame = none) :
    f.get? frame name = f.local? frame name := by
  unfold get?
  rw [holder?_of_root hin hroot, local?]
  unfold Bindings.binds
  cases hb : (f.bindings frame).find? name with
  | none => rfl
  | some v =>
      show f.local? frame name = some v
      rw [local?, hb]

end Lox.Forest
