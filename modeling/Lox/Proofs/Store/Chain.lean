/-
Chains of frames. The path of a frame is the list of the frames from it outwards,
itself first, up to one that nothing encloses. In a forest that was built frame
by frame every frame has a path, and a walk that is allowed as many steps as
there are frames gets to its end.

The walks by name and by count are told here one frame at a time: what a frame
binds itself, it means, and for the rest it asks the frame around it.
-/
import Lox.Proofs.Store.Forest

namespace Lox.Forest

variable {α : Type}

/-- The frames from a frame outwards, itself first, up to one that nothing encloses. -/
inductive Path (f : Forest α) : FrameId → List FrameId → Prop
  | root {frame : FrameId} (alone : f.enclosing? frame = none) : Path f frame [frame]
  | inner {frame outer : FrameId} {path : List FrameId}
      (enclosed : f.enclosing? frame = some outer) (around : Path f outer path) :
      Path f frame (frame :: path)

/-- The lookup of a name in a frame comes to another frame: no frame before that one binds the
name. -/
inductive Comes (f : Forest α) (name : String) : FrameId → FrameId → Prop
  | here {frame : FrameId} : Comes f name frame frame
  | outwards {frame outer target : FrameId} (lacks : f.local? frame name = none)
      (enclosed : f.enclosing? frame = some outer) (around : Comes f name outer target) :
      Comes f name frame target

/-- A name means in a frame what another frame binds it to: the lookup comes to that one first. -/
def Resolves (f : Forest α) (name : String) (frame holder : FrameId) : Prop :=
  f.Comes name frame holder ∧ (f.local? holder name).isSome

/-- Every frame is younger than the one that encloses it. -/
def Layered (f : Forest α) : Prop :=
  ∀ frame outer, f.enclosing? frame = some outer → outer < frame

/-- The forests that come about: frames are added alone or inside a frame that there is, and names
are bound in frames. -/
inductive Built : Forest α → Prop
  | empty : Built .empty
  | grown {f : Forest α} {enclosing : Option FrameId} {b : Bindings α} (built : Built f)
      (known : ∀ outer ∈ enclosing, outer < f.next) : Built (f.grow enclosing b)
  | bound {f : Forest α} (built : Built f) (frame : FrameId) (name : String) (value : α) :
      Built (f.define frame name value)

/-- The second forest is the first one with one name of one frame bound anew. -/
structure Rebound (f after : Forest α) (frame : FrameId) (name : String) (value : α) : Prop where
  next : after.next = f.next
  enclosing : ∀ other, after.enclosing? other = f.enclosing? other
  bound : after.local? frame name = some value
  others : ∀ other wanted, ¬ (other = frame ∧ wanted = name) →
    after.local? other wanted = f.local? other wanted

variable {f g : Forest α} {frame outer target holder : FrameId} {name wanted : String} {value : α}
  {path : List FrameId}

theorem rebound_define (h : frame < f.next) (name : String) (value : α) :
    f.Rebound (f.define frame name value) frame name value where
  next := next_define
  enclosing _ := enclosing?_define
  bound := by rw [local?_define h, if_pos ⟨rfl, rfl⟩]
  others _ _ hne := by rw [local?_define h, if_neg hne]

-- ============================================================ built forests

theorem Built.layered (h : f.Built) : f.Layered := by
  induction h with
  | empty =>
      intro frame outer henclosed
      exact absurd (lt_next_of_enclosing? henclosed) (Nat.not_lt_zero frame)
  | @grown f _ _ _ known ih =>
      intro frame outer henclosed
      rw [enclosing?_grow] at henclosed
      by_cases hnew : frame = f.next
      · rw [if_pos hnew] at henclosed
        rw [hnew]
        exact known outer henclosed
      · rw [if_neg hnew] at henclosed
        exact ih frame outer henclosed
  | bound built _ _ _ ih =>
      intro frame outer henclosed
      rw [enclosing?_define] at henclosed
      exact ih frame outer henclosed

-- ================================================================== paths

/-- What encloses what decides about paths, and nothing else. -/
theorem Path.congr (h : f.Path frame path)
    (hsame : ∀ other, f.enclosing? other = g.enclosing? other) : g.Path frame path := by
  induction h with
  | root alone => exact .root (by rw [← hsame, alone])
  | inner enclosed _ ih => exact .inner (by rw [← hsame, enclosed]) ih

theorem Path.unique {path' : List FrameId} (h : f.Path frame path) (h' : f.Path frame path') :
    path = path' := by
  induction h generalizing path' with
  | root alone =>
      cases h' with
      | root => rfl
      | inner enclosed => simp [alone] at enclosed
  | inner enclosed _ ih =>
      cases h' with
      | root alone => simp [alone] at enclosed
      | inner enclosed' around' =>
          rw [enclosed] at enclosed'
          cases enclosed'
          rw [ih around']

/-- In a layered forest every frame has a path, and it is no longer than the frame is old. -/
theorem Layered.exists_path (hl : f.Layered) (frame : FrameId) :
    ∃ path, f.Path frame path ∧ path.length ≤ frame + 1 := by
  induction frame using Nat.strongRecOn with
  | ind frame ih =>
      cases henclosed : f.enclosing? frame with
      | none => exact ⟨[frame], .root henclosed, by simp⟩
      | some outer =>
          have hlt : outer < frame := hl frame outer henclosed
          obtain ⟨path, hpath, hlength⟩ := ih outer hlt
          refine ⟨frame :: path, .inner henclosed hpath, ?_⟩
          exact Nat.succ_le_succ (Nat.le_trans hlength hlt)

/-- Along a path frames get older. -/
theorem Layered.le_of_mem (hl : f.Layered) (h : f.Path frame path) : ∀ other ∈ path, other ≤ frame := by
  induction h with
  | root => simp
  | @inner frame outer path enclosed _ ih =>
      have hlt : outer < frame := hl frame outer enclosed
      intro other hmem
      rcases List.mem_cons.1 hmem with rfl | hrest
      · exact Nat.le_refl other
      · exact Nat.le_trans (ih other hrest) (Nat.le_of_lt hlt)

-- ================================================================ by name

/-- A walk that may look at a whole path finds the first frame of it that binds the name. -/
theorem Path.holderWithin_eq (h : f.Path frame path) {fuel : Nat} (hfuel : path.length ≤ fuel) :
    f.holderWithin name fuel frame = path.find? fun other => (f.bindings other).binds name := by
  induction h generalizing fuel with
  | @root frame alone =>
      cases fuel with
      | zero => simp at hfuel
      | succ fuel =>
          by_cases hbinds : (f.bindings frame).binds name <;> simp [holderWithin, alone, hbinds]
  | @inner frame outer path enclosed _ ih =>
      cases fuel with
      | zero => simp at hfuel
      | succ fuel =>
          have hrest := ih (Nat.le_of_succ_le_succ hfuel)
          by_cases hbinds : (f.bindings frame).binds name <;>
            simp [holderWithin, enclosed, hbinds, hrest]

/-- A walk that may look at more frames than are older than the first one gets to the end. -/
theorem Layered.holderWithin_congr (hl : f.Layered) {fuel fuel' : Nat} (h : frame < fuel)
    (h' : frame < fuel') : f.holderWithin name fuel frame = f.holderWithin name fuel' frame := by
  obtain ⟨path, hpath, hlength⟩ := hl.exists_path frame
  rw [hpath.holderWithin_eq (Nat.le_trans hlength h),
    hpath.holderWithin_eq (Nat.le_trans hlength h')]

theorem Layered.holder?_of_enclosed (hl : f.Layered) (h : f.enclosing? frame = some outer) :
    f.holder? frame name
      = if (f.bindings frame).binds name then some frame else f.holder? outer name := by
  have hin : frame < f.frames.size := lt_next_of_enclosing? h
  have hlt : outer < frame := hl frame outer h
  unfold holder?
  rw [hl.holderWithin_congr hin (Nat.lt_succ_self frame), holderWithin, h]
  simp only
  rw [hl.holderWithin_congr hlt (Nat.lt_trans hlt hin)]

/-- What a frame does not bind it leaves to the frame around it. -/
theorem Layered.get?_of_enclosed (hl : f.Layered) (h : f.enclosing? frame = some outer) :
    f.get? frame name = (f.local? frame name).or (f.get? outer name) := by
  cases hbound : f.local? frame name with
  | some v => rw [get?_of_local? hbound, Option.some_or]
  | none =>
      have hbinds : (f.bindings frame).binds name = false := by
        rw [Bindings.binds, show (f.bindings frame).find? name = none from hbound]
        rfl
      unfold get?
      rw [hl.holder?_of_enclosed h, hbinds]
      rfl

/-- Of the frames that a lookup comes to, the first one that binds the name is the one found. -/
theorem Layered.holder?_eq_some_iff (hl : f.Layered) (hin : frame < f.next) :
    f.holder? frame name = some holder ↔ f.Resolves name frame holder := by
  obtain ⟨path, hpath, -⟩ := hl.exists_path frame
  constructor
  · intro hfound
    induction hpath with
    | root alone =>
        rw [holder?_of_root hin alone] at hfound
        split at hfound
        · rename_i hbinds
          cases hfound
          exact ⟨.here, hbinds⟩
        · cases hfound
    | @inner frame outer path enclosed _ ih =>
        have hlt : outer < frame := hl frame outer enclosed
        rw [hl.holder?_of_enclosed enclosed] at hfound
        split at hfound
        · rename_i hbinds
          cases hfound
          exact ⟨.here, hbinds⟩
        · rename_i hbinds
          have hlacks : f.local? frame name = none := by
            simpa [local?, Bindings.binds] using hbinds
          obtain ⟨hcomes, hbound⟩ := ih (Nat.lt_trans hlt hin) hfound
          exact ⟨.outwards hlacks enclosed hcomes, hbound⟩
  · rintro ⟨hcomes, hbound⟩
    clear hpath
    induction hcomes with
    | here => exact holder?_of_local? hbound
    | @outwards frame outer target lacks enclosed _ ih =>
        have hlt : outer < frame := hl frame outer enclosed
        have hbinds : ¬ (f.bindings frame).binds name := by
          simpa [local?, Bindings.binds] using lacks
        rw [hl.holder?_of_enclosed enclosed, if_neg hbinds]
        exact ih (Nat.lt_trans hlt hin) hbound

/-- A name means the same in all frames that its lookup comes through. -/
theorem Layered.get?_of_comes (hl : f.Layered) (h : f.Comes name frame target) :
    f.get? frame name = f.get? target name := by
  induction h with
  | here => rfl
  | outwards lacks enclosed _ ih =>
      rw [hl.get?_of_enclosed enclosed, lacks, Option.none_or]
      exact ih

/-- The first frame that binds a name has the first value that the name is bound to. -/
theorem find?_bind_local? (path : List FrameId) :
    ((path.find? fun other => (f.bindings other).binds name).bind fun holder =>
        f.local? holder name) = path.findSome? fun other => f.local? other name := by
  induction path with
  | nil => rfl
  | cons first path ih =>
      have hbinds : (f.bindings first).binds name = (f.local? first name).isSome := rfl
      cases hlocal : f.local? first name with
      | some value => simp [hbinds, hlocal]
      | none => simpa [hbinds, hlocal] using ih

-- =============================================================== by count

/-- A walk by count gets to the frame that many places along the path. -/
theorem Path.ancestor?_eq (h : f.Path frame path) (distance : Nat) :
    f.ancestor? frame distance = path[distance]? := by
  induction h generalizing distance with
  | root alone =>
      cases distance with
      | zero => rfl
      | succ distance => simp [ancestor?, alone]
  | inner enclosed _ ih =>
      cases distance with
      | zero => rfl
      | succ distance => simp [ancestor?, enclosed, ih]

theorem Path.outerWithin_eq (h : f.Path frame path) {fuel : Nat} (hfuel : path.length ≤ fuel + 1) :
    f.outerWithin fuel frame = path.tail := by
  induction h generalizing fuel with
  | root alone => cases fuel <;> simp [outerWithin, alone]
  | inner enclosed around ih =>
      cases fuel with
      | zero => cases around <;> simp at hfuel
      | succ fuel =>
          simp only [List.length_cons, Nat.add_le_add_iff_right] at hfuel
          simp only [outerWithin, enclosed, ih hfuel, List.tail_cons]
          cases around <;> rfl

theorem Path.length_pos (h : f.Path frame path) : 0 < path.length := by
  cases h <;> simp

/-- The depth of a frame counts the frames around it, so its path has one frame more. -/
theorem Layered.depth_eq (hl : f.Layered) (hin : frame < f.next) (h : f.Path frame path) :
    path.length = f.depth frame + 1 := by
  obtain ⟨path', hpath', hlength⟩ := hl.exists_path frame
  rw [← h.unique hpath'] at hlength
  have hfuel : path.length ≤ f.frames.size + 1 :=
    Nat.le_trans hlength (Nat.succ_le_succ (Nat.le_of_lt hin))
  have hpos := h.length_pos
  rw [depth, h.outerWithin_eq hfuel, List.length_tail]
  omega

/-- What no frame on the way binds is looked up where the way by count ends. -/
theorem comes_of_ancestor? {distance : Nat} (h : f.ancestor? frame distance = some target)
    (hlacks : ∀ nearer between, nearer < distance → f.ancestor? frame nearer = some between →
      f.local? between name = none) : f.Comes name frame target := by
  induction distance generalizing frame with
  | zero =>
      cases h
      exact .here
  | succ distance ih =>
      obtain ⟨outer, henclosed, hrest⟩ := Option.bind_eq_some_iff.1 h
      refine .outwards (hlacks 0 frame (Nat.succ_pos distance) rfl) henclosed (ih hrest ?_)
      intro nearer between hnearer hbetween
      apply hlacks (nearer + 1) between (Nat.succ_lt_succ hnearer)
      rw [ancestor?, henclosed]
      exact hbetween

-- ============================================================ a new binding

theorem Layered.define (hl : f.Layered) : (f.define frame name value).Layered := by
  intro inner outer henclosed
  rw [enclosing?_define] at henclosed
  exact hl inner outer henclosed

/-- The new value is seen by every lookup of the name that comes to the frame. -/
theorem Layered.get?_define_of_comes (hl : f.Layered) (hin : target < f.next)
    (h : f.Comes name frame target) : (f.define target name value).get? frame name = some value := by
  have hbound : (f.define target name value).local? target name = some value :=
    (rebound_define hin name value).bound
  induction h with
  | here => exact get?_of_local? hbound
  | @outwards frame outer target lacks enclosed _ ih =>
      by_cases hsame : frame = target
      · rw [hsame]
        exact get?_of_local? hbound
      · have hlacks : (f.define target name value).local? frame name = none := by
          rw [local?_define hin, if_neg fun hc => hsame hc.1]
          exact lacks
        rw [hl.define.get?_of_enclosed (enclosing?_define.trans enclosed), hlacks, Option.none_or]
        exact ih hin hbound

/-- Every other lookup goes as before. -/
theorem Layered.get?_define_of_not (hl : f.Layered) (hin : target < f.next)
    (hframe : frame < f.next) (h : ¬ (wanted = name ∧ f.Comes name frame target)) :
    (f.define target name value).get? frame wanted = f.get? frame wanted := by
  obtain ⟨path, hpath, -⟩ := hl.exists_path frame
  have howns {frame : FrameId} (h : ¬ (wanted = name ∧ f.Comes name frame target)) :
      (f.define target name value).local? frame wanted = f.local? frame wanted := by
    apply (rebound_define hin name value).others
    rintro ⟨rfl, hwanted⟩
    exact h ⟨hwanted, .here⟩
  induction hpath with
  | root alone =>
      rw [get?_of_root hframe alone,
        get?_of_root (Nat.lt_of_lt_of_eq hframe next_define.symm)
          (enclosing?_define.trans alone), howns h]
  | @inner frame outer path enclosed _ ih =>
      rw [hl.get?_of_enclosed enclosed,
        hl.define.get?_of_enclosed (enclosing?_define.trans enclosed), howns h]
      cases hlocal : f.local? frame wanted with
      | some v => rfl
      | none =>
          rw [Option.none_or, Option.none_or]
          refine ih (Nat.lt_trans (hl frame outer enclosed) hframe) ?_
          rintro ⟨rfl, hcomes⟩
          exact h ⟨rfl, .outwards hlocal enclosed hcomes⟩

end Lox.Forest
