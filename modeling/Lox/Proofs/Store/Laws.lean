/-
The laws of names on chains of frames. Many frames can lie inside one, so a name
that is bound anew is seen from all of them, and from no other frame: by those
whose lookup of the name comes to that frame before it finds another binding.

There are two ways to a binding, by name and by count. They lead to the same one
when the frame at that count is the first to bind the name.
-/
import Lox.Proofs.Store.Chain
import Lox.Proofs.Lockstep.Variable

namespace Lox

open Lockstep (run_bind_ok)

/-- What a computation yields if it is not stopped. -/
def Eval.yield? {α : Type} (x : Eval α) (m : Machine) : Option α :=
  match x m with
  | .ok a _ => some a
  | .error _ _ => none

namespace Machine

/-- The same machine with other frames. -/
def withFrames (m : Machine) (frames : Forest Value) : Machine :=
  { m with heap := { m.heap with scopes := frames } }

/-- On the second machine a name has a new value in the frames that are `hit`. In all others it
means what it meant on the first, and so do all other names everywhere. -/
def SeenFrom (m after : Machine) (hit : FrameId → Prop) (name : String) (value : Value) : Prop :=
  ∀ (other : FrameId) (wanted : Token), other < m.heap.scopes.next →
    (wanted.lexeme = name ∧ hit other → Eval.getNamed other wanted after = .ok value after)
      ∧ (¬ (wanted.lexeme = name ∧ hit other) →
          (Eval.getNamed other wanted).yield? after = (Eval.getNamed other wanted).yield? m)

/-- What reading, assigning and defining do with a name in a frame that has the given path. -/
structure ScopeLaws (m : Machine) (frame : FrameId) (path : List FrameId) (name : Token)
    (value : Value) : Prop where
  /-- A name means what the first frame binds it to that its lookup comes to. -/
  read : ∀ found, Eval.getNamed frame name m = .ok found m ↔
    ∃ holder, m.heap.scopes.Resolves name.lexeme frame holder
      ∧ m.heap.scopes.local? holder name.lexeme = some found
  /-- Reading and assigning are refused alike. -/
  refused : ∀ stop, Eval.assignNamed frame name value m = .error stop m ↔
    Eval.getNamed frame name m = .error stop m
  /-- What was refused changed nothing. -/
  unharmed : ∀ stop after, Eval.assignNamed frame name value m = .error stop after ∨
    Eval.getNamed frame name m = .error stop after →
      stop = .fault ⟨some name, .undefinedVariable name.lexeme⟩ ∧ after = m
  /-- An assignment binds one name of one frame anew. -/
  assigned : ∀ after, Eval.assignNamed frame name value m = .ok () after →
    ∃ holder frames, m.heap.scopes.Resolves name.lexeme frame holder
      ∧ m.heap.scopes.Rebound frames holder name.lexeme value
      ∧ after = m.withFrames frames
      ∧ m.SeenFrom after (m.heap.scopes.Resolves name.lexeme · holder) name.lexeme value
  /-- The way by count leads to the same binding when no nearer frame binds the name. -/
  counted : ∀ distance target, path[distance]? = some target →
    (m.heap.scopes.local? target name.lexeme).isSome →
    (∀ nearer ∈ path.take distance, m.heap.scopes.local? nearer name.lexeme = none) →
      ∃ found, Eval.getAt frame distance name.lexeme m = .ok found m
        ∧ Eval.getNamed frame name m = .ok found m
  /-- The depth is the number of frames around the frame. -/
  depth : path.length = m.heap.scopes.depth frame + 1
  /-- No more frames can be counted off than there are around the frame. -/
  within : ∀ distance, (∃ target after, Eval.ancestor frame distance m = .ok target after) ↔
    distance ≤ m.heap.scopes.depth frame
  reached : ∀ distance target after, Eval.ancestor frame distance m = .ok target after →
    path[distance]? = some target ∧ after = m
  /-- What is assigned by count is read by the same count, and no other frame is touched. -/
  placed : ∀ distance ≤ m.heap.scopes.depth frame, ∃ target frames,
    path[distance]? = some target
      ∧ m.heap.scopes.Rebound frames target name.lexeme value
      ∧ Eval.assignAt frame distance name.lexeme value m = .ok () (m.withFrames frames)
      ∧ Eval.getAt frame distance name.lexeme (m.withFrames frames)
          = .ok value (m.withFrames frames)
  /-- A definition is seen by the lookups that come to the frame. -/
  defined : ∃ frames,
    Eval.inScope frame (Eval.define name.lexeme value) m = .ok () (m.withFrames frames)
      ∧ m.heap.scopes.Rebound frames frame name.lexeme value
      ∧ m.SeenFrom (m.withFrames frames) (m.heap.scopes.Comes name.lexeme · frame) name.lexeme value

variable {m : Machine} {frame target holder : FrameId} {path : List FrameId} {name : Token}
  {text : String} {value : Value}

-- ========================================================== the operations

theorem getNamed_eq :
    Eval.getNamed frame name m
      = match m.heap.scopes.get? frame name.lexeme with
        | some found => .ok found m
        | none => .error (.fault ⟨some name, .undefinedVariable name.lexeme⟩) m := by
  unfold Eval.getNamed
  rw [run_bind_ok (show Eval.heap m = .ok m.heap m from rfl)]
  cases m.heap.scopes.get? frame name.lexeme <;> rfl

theorem assignNamed_eq :
    Eval.assignNamed frame name value m
      = match m.heap.scopes.holder? frame name.lexeme with
        | some holder => .ok () (m.withFrames (m.heap.scopes.define holder name.lexeme value))
        | none => .error (.fault ⟨some name, .undefinedVariable name.lexeme⟩) m := by
  unfold Eval.assignNamed
  rw [run_bind_ok (show Eval.heap m = .ok m.heap m from rfl)]
  cases m.heap.scopes.holder? frame name.lexeme <;> rfl

theorem yield?_getNamed :
    (Eval.getNamed frame name).yield? m = m.heap.scopes.get? frame name.lexeme := by
  unfold Eval.yield?
  rw [getNamed_eq]
  cases m.heap.scopes.get? frame name.lexeme <;> rfl

theorem getNamed_eq_ok_iff {found : Value} :
    Eval.getNamed frame name m = .ok found m
      ↔ m.heap.scopes.get? frame name.lexeme = some found := by
  rw [getNamed_eq]
  cases m.heap.scopes.get? frame name.lexeme with
  | none => simp
  | some v => simp

/-- Counting off frames ends within the path or not at all. -/
theorem ancestor_eq_ok_iff (h : m.heap.scopes.Path frame path) {distance : Nat} {after : Machine} :
    Eval.ancestor frame distance m = .ok target after
      ↔ path[distance]? = some target ∧ after = m := by
  unfold Eval.ancestor
  rw [run_bind_ok (show Eval.heap m = .ok m.heap m from rfl), h.ancestor?_eq]
  cases path[distance]? with
  | none => exact ⟨nofun, nofun⟩
  | some v =>
      show EStateM.Result.ok v m = .ok target after ↔ _
      simp [eq_comm]

-- ================================================================= the laws

/-- A new binding of a frame is seen from where the lookup of the name comes to the frame. -/
theorem seenFrom_define (hl : m.heap.scopes.Layered) (hin : target < m.heap.scopes.next) :
    m.SeenFrom (m.withFrames (m.heap.scopes.define target text value))
      (m.heap.scopes.Comes text · target) text value := by
  intro other wanted hother
  constructor
  · rintro ⟨rfl, hcomes⟩
    rw [getNamed_eq_ok_iff]
    exact hl.get?_define_of_comes hin hcomes
  · intro hnot
    rw [yield?_getNamed, yield?_getNamed]
    exact hl.get?_define_of_not hin hother hnot

/-- Reading and assigning are refused for want of the same binding. -/
theorem refused_iff (hl : m.heap.scopes.Layered) (hin : frame < m.heap.scopes.next)
    (name : Token) :
    m.heap.scopes.get? frame name.lexeme = none
      ↔ m.heap.scopes.holder? frame name.lexeme = none := by
  unfold Forest.get?
  cases hh : m.heap.scopes.holder? frame name.lexeme with
  | none => simp
  | some holder =>
      have hbound : (m.heap.scopes.local? holder name.lexeme).isSome :=
        ((hl.holder?_eq_some_iff hin).1 hh).2
      simpa using Option.isSome_iff_ne_none.1 hbound

theorem get?_eq_some_iff (hl : m.heap.scopes.Layered) (hin : frame < m.heap.scopes.next)
    {found : Value} :
    m.heap.scopes.get? frame text = some found
      ↔ ∃ holder, m.heap.scopes.Resolves text frame holder
          ∧ m.heap.scopes.local? holder text = some found := by
  unfold Forest.get?
  rw [Option.bind_eq_some_iff]
  simp only [hl.holder?_eq_some_iff hin]

/-- A successful assignment is the new binding of the frame that the name was found in. -/
theorem exists_rebound_of_assignNamed (hl : m.heap.scopes.Layered)
    (hin : frame < m.heap.scopes.next) {after : Machine}
    (h : Eval.assignNamed frame name value m = .ok () after) :
    ∃ holder frames, m.heap.scopes.Resolves name.lexeme frame holder
      ∧ m.heap.scopes.Rebound frames holder name.lexeme value
      ∧ after = m.withFrames frames
      ∧ m.SeenFrom after (m.heap.scopes.Resolves name.lexeme · holder) name.lexeme value := by
  rw [assignNamed_eq] at h
  cases hh : m.heap.scopes.holder? frame name.lexeme with
  | none => simp [hh] at h
  | some holder =>
      have hresolves := (hl.holder?_eq_some_iff hin).1 hh
      obtain ⟨found, hfound⟩ := Option.isSome_iff_exists.1 hresolves.2
      have hholder : holder < m.heap.scopes.next := Forest.lt_next_of_local? hfound
      have hafter : after = m.withFrames (m.heap.scopes.define holder name.lexeme value) := by
        simpa [hh, eq_comm] using h
      refine ⟨holder, _, hresolves, Forest.rebound_define hholder _ _, hafter, ?_⟩
      have hsame : (m.heap.scopes.Resolves name.lexeme · holder)
          = (m.heap.scopes.Comes name.lexeme · holder) := by
        funext other
        exact propext ⟨And.left, fun hcomes => ⟨hcomes, hresolves.2⟩⟩
      rw [hafter, hsame]
      exact seenFrom_define hl hholder

/-- Both ways lead to the binding of a frame that is the first on the path to bind the name. -/
theorem exists_found_of_counted (hl : m.heap.scopes.Layered) (h : m.heap.scopes.Path frame path)
    {distance : Nat} (htarget : path[distance]? = some target)
    (hbound : (m.heap.scopes.local? target name.lexeme).isSome)
    (hnearer : ∀ nearer ∈ path.take distance, m.heap.scopes.local? nearer name.lexeme = none) :
    ∃ found, Eval.getAt frame distance name.lexeme m = .ok found m
      ∧ Eval.getNamed frame name m = .ok found m := by
  obtain ⟨found, hfound⟩ := Option.isSome_iff_exists.1 hbound
  have hancestor : m.heap.scopes.ancestor? frame distance = some target := by
    rw [h.ancestor?_eq, htarget]
  refine ⟨found, Lockstep.getAt_eq hancestor hfound, ?_⟩
  have hcomes : m.heap.scopes.Comes name.lexeme frame target := by
    apply Forest.comes_of_ancestor? hancestor
    intro nearer between hlt hbetween
    rw [h.ancestor?_eq] at hbetween
    apply hnearer between
    apply List.mem_of_getElem? (i := nearer)
    rw [List.getElem?_take_of_lt hlt, hbetween]
  rw [getNamed_eq_ok_iff, hl.get?_of_comes hcomes]
  exact Forest.get?_of_local? hfound

/-- What is assigned by count is read by the same count. -/
theorem exists_rebound_of_assignAt (hl : m.heap.scopes.Layered)
    (hin : frame < m.heap.scopes.next) (h : m.heap.scopes.Path frame path) {distance : Nat}
    (htarget : path[distance]? = some target) :
    ∃ frames, m.heap.scopes.Rebound frames target text value
      ∧ Eval.assignAt frame distance text value m = .ok () (m.withFrames frames)
      ∧ Eval.getAt frame distance text (m.withFrames frames)
          = .ok value (m.withFrames frames) := by
  have hin' : target < m.heap.scopes.next :=
    Nat.lt_of_le_of_lt (hl.le_of_mem h target (List.mem_of_getElem? htarget)) hin
  have hancestor : m.heap.scopes.ancestor? frame distance = some target := by
    rw [h.ancestor?_eq, htarget]
  have hrebound := Forest.rebound_define hin' text value
  refine ⟨_, hrebound, Lockstep.assignAt_eq hancestor, Lockstep.getAt_eq ?_ hrebound.bound⟩
  have hkept : (m.heap.scopes.define target text value).Path frame path :=
    h.congr fun other => (hrebound.enclosing other).symm
  exact (hkept.ancestor?_eq distance).trans htarget

/-- Reading, assigning and defining on a chain of frames, in every forest that was built frame by
frame and for every frame of it. -/
theorem scope_laws (built : m.heap.scopes.Built) (there : frame < m.heap.scopes.next)
    (name : Token) (value : Value) :
    ∃ path, m.heap.scopes.Path frame path ∧ m.ScopeLaws frame path name value := by
  have hl := built.layered
  obtain ⟨path, hpath, -⟩ := hl.exists_path frame
  have hdepth := hl.depth_eq there hpath
  have htargets (distance : Nat) :
      distance ≤ m.heap.scopes.depth frame ↔ ∃ target, path[distance]? = some target := by
    constructor
    · intro hle
      exact ⟨_, List.getElem?_eq_getElem (show distance < path.length by omega)⟩
    · rintro ⟨target, htarget⟩
      have hlt : distance < path.length := (List.getElem?_eq_some_iff.1 htarget).1
      omega
  refine ⟨path, hpath, ?_⟩
  constructor
  case read =>
    intro found
    rw [getNamed_eq_ok_iff, get?_eq_some_iff hl there]
  case refused =>
    intro stop
    have hiff := refused_iff hl there name
    rw [getNamed_eq, assignNamed_eq]
    cases hh : m.heap.scopes.holder? frame name.lexeme with
    | none => simp [hiff.2 hh]
    | some holder =>
        cases hg : m.heap.scopes.get? frame name.lexeme with
        | none => simp [hiff.1 hg] at hh
        | some found => simp
  case unharmed =>
    intro stop after hrefused
    rw [getNamed_eq, assignNamed_eq] at hrefused
    rcases hrefused with h | h
    · split at h <;> simp_all
    · split at h <;> simp_all
  case assigned =>
    intro after h
    exact exists_rebound_of_assignNamed hl there h
  case counted =>
    intro distance target htarget hbound hnearer
    exact exists_found_of_counted hl hpath htarget hbound hnearer
  case depth => exact hdepth
  case within =>
    intro distance
    simp only [ancestor_eq_ok_iff hpath, exists_and_left, exists_eq, and_true]
    rw [htargets]
  case reached =>
    intro distance target after h
    exact (ancestor_eq_ok_iff hpath).1 h
  case placed =>
    intro distance hdistance
    obtain ⟨target, htarget⟩ := (htargets distance).1 hdistance
    obtain ⟨frames, hrest⟩ := exists_rebound_of_assignAt hl there hpath htarget
    exact ⟨target, frames, htarget, hrest⟩
  case defined =>
    exact ⟨_, rfl, Forest.rebound_define there _ _, seenFrom_define hl there⟩

/-- A machine with two frames inside one, which binds `a`. -/
def siblings : Machine :=
  (start false 0).withFrames
    (((Forest.empty.grow none (Bindings.empty.set "a" .nil)).grow (some 0) .empty).grow (some 0)
      .empty)

theorem scope_laws_siblings :
    siblings.heap.scopes.Built ∧ 2 < siblings.heap.scopes.next
      ∧ ∃ path, siblings.heap.scopes.Path 2 path
        ∧ siblings.ScopeLaws 2 path ⟨.identifier, "a", ⟨1, 1, 0⟩⟩ (.boolean true) := by
  have hbuilt : siblings.heap.scopes.Built := by
    refine .grown (.grown (.grown .empty nofun) ?_) ?_
    · rintro outer ⟨⟩
      decide
    · rintro outer ⟨⟩
      decide
  have hthere : 2 < siblings.heap.scopes.next := by decide
  exact ⟨hbuilt, hthere, scope_laws hbuilt hthere _ _⟩

end Machine

end Lox
