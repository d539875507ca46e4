/-
Sessions that differ in the numbers of nodes. When two sessions take over the same
texts, one of which has handed out numbers the other has not, the numbers of each
text are as far on in one session as in the other. Numbers that go together are
kept as a relation that grows with every text (`Corresponds.hand`) and in which
both sides are in one order.

The relation says nothing of numbers that are still to be handed out, and neither
do the tables of the sessions. So one session may at any time pass over some
numbers (`Corresponds.passed`).
-/
import Lox.Proofs.Likeness.Grammar
import Lox.Proofs.Likeness.Partner
import Lox.Proofs.Likeness.Listing
import Lox.Proofs.Run.Refused

namespace Lox

/-- Trees that are alike but for the numbers of their nodes. -/
def Likeness.renumbered (numbers : NodeId → NodeId → Prop) : Likeness where
  nodes := numbers
  tokens := Eq
  constants := Eq
  functions _ _ _ := True
  spelt := by
    rintro token _ rfl
    rfl

theorem Likeness.renumbered_reads (numbers : NodeId → NodeId → Prop) :
    (Likeness.renumbered numbers).Reads := ⟨fun _ => rfl, fun _ => rfl, fun _ _ _ => trivial⟩

/-- Numbers that go together, and beside them numbers that are equally far on from two counts. -/
def ahead (numbers : NodeId → NodeId → Prop) (low low' : NodeId) (id id' : NodeId) : Prop :=
  numbers id id' ∨ ∃ k, id = low + k ∧ id' = low' + k

/-- The same up to a count, which is handed out next. -/
def upTo (numbers : NodeId → NodeId → Prop) (low low' high : NodeId) (id id' : NodeId) : Prop :=
  ahead numbers low low' id id' ∧ id < high

/-- Sessions that differ in the numbers of nodes and in what they have printed and traced. -/
structure Session.Corresponds (numbers : NodeId → NodeId → Prop) (s s' : Session) : Prop where
  machine : s.machine.Corresponds (.renumbered numbers) s'.machine
  clock : s'.machine.clock = s.machine.clock
  tracing : s'.machine.tracing = s.machine.tracing
  order : (Likeness.renumbered numbers).InOrder
  below (id id' : NodeId) (together : numbers id id') : id < s.nextId ∧ id' < s'.nextId
  clear (id : NodeId) (new : s.nextId ≤ id) : s.machine.distances[id]? = none
  clear' (id : NodeId) (new : s'.nextId ≤ id) : s'.machine.distances[id]? = none

variable {ρ : Likeness} {numbers more : NodeId → NodeId → Prop} {low low' : NodeId}

-- ======================================================== growing likenesses

/-- Heaps that are alike are so under more numbers that go together. -/
theorem Heap.Alike.mono {h h' : Heap} (alike : h.Alike ρ h')
    (le : ∀ id id', ρ.nodes id id' → more id id') : h.Alike (ρ.numbered more) h' where
  scopes := alike.scopes
  classes := alike.classes
  objects := alike.objects
  functions f := by
    have hf := alike.functions f
    revert hf
    cases h.functions[f]? <;> cases h'.functions[f]? <;> intro hf <;> cases hf
    · exact .none
    · rename_i hclosure
      have hnodes := hclosure.declaration.nodes
      exact .some ⟨hclosure.declaration.numbered (hnodes.imp fun n n' hn => le n.id n'.id hn),
        hclosure.scope, hclosure.isInitializer, hclosure.held⟩

namespace Session.Corresponds

variable {s s' t t' : Session}

/-- At the start nothing has a number. -/
theorem start (tracing : Bool) (clock : Float) :
    Session.Corresponds (fun _ _ => False) (Session.start tracing clock)
      (Session.start tracing clock) where
  machine := ⟨⟨rfl, rfl, rfl, fun _ => .none⟩, rfl, fun _ _ h => h.elim⟩
  clock := rfl
  tracing := rfl
  order := fun _ _ _ _ h => h.elim
  below := fun _ _ h => h.elim
  clear := fun _ _ => rfl
  clear' := fun _ _ => rfl

/-- One session has passed over some numbers. -/
theorem passed (h : s.Corresponds numbers s') (le : s.nextId ≤ t.nextId)
    (heap : t.machine.heap = s.machine.heap) (scope : t.machine.scope = s.machine.scope)
    (distances : t.machine.distances = s.machine.distances)
    (clock : t.machine.clock = s.machine.clock) (tracing : t.machine.tracing = s.machine.tracing) :
    t.Corresponds numbers s' where
  machine := by
    refine ⟨?_, ?_, ?_⟩
    · rw [heap]
      exact h.machine.heap
    · rw [scope]
      exact h.machine.scope
    · rw [distances]
      exact h.machine.distances
  clock := clock ▸ h.clock
  tracing := tracing ▸ h.tracing
  order := h.order
  below id id' together :=
    ⟨Nat.lt_of_lt_of_le (h.below id id' together).1 le, (h.below id id' together).2⟩
  clear id new := by
    rw [distances]
    exact h.clear id (Nat.le_trans le new)
  clear' := h.clear'

-- =================================================================== numbers

/-- Numbers that are handed out next are in order behind those that go together. -/
theorem ahead_order (h : s.Corresponds numbers s') :
    (Likeness.renumbered (ahead numbers s.nextId s'.nextId)).InOrder := by
  rintro a a' b b' (ha | ⟨j, rfl, rfl⟩) (hb | ⟨k, rfl, rfl⟩)
  · exact h.order a a' b b' ha hb
  · have hbelow := h.below a a' ha
    exact ⟨fun _ => Nat.lt_of_lt_of_le hbelow.2 (Nat.le_add_right _ _),
      fun _ => Nat.lt_of_lt_of_le hbelow.1 (Nat.le_add_right _ _)⟩
  · have hbelow := h.below b b' hb
    refine ⟨fun hlt => ?_, fun hlt => ?_⟩
    · exact absurd hlt (Nat.not_lt.mpr (Nat.le_trans hbelow.1.le (Nat.le_add_right _ _)))
    · exact absurd hlt (Nat.not_lt.mpr (Nat.le_trans hbelow.2.le (Nat.le_add_right _ _)))
  · rw [Nat.add_lt_add_iff_left, Nat.add_lt_add_iff_left]

/-- A count that goes with another is as far on. -/
theorem exists_count (h : s.Corresponds numbers s') {high high' : NodeId} (le : s.nextId ≤ high)
    (together : ahead numbers s.nextId s'.nextId high high') :
    ∃ k, high = s.nextId + k ∧ high' = s'.nextId + k := by
  rcases together with hold | hnew
  · exact absurd (h.below high high' hold).1 (Nat.not_lt.mpr le)
  · exact hnew

/-- What goes together does so still when numbers are handed out. -/
theorem upTo (h : s.Corresponds numbers s') {high id id' : NodeId} (le : s.nextId ≤ high)
    (together : numbers id id') : Lox.upTo numbers s.nextId s'.nextId high id id' :=
  ⟨.inl together, Nat.lt_of_lt_of_le (h.below id id' together).1 le⟩

/-- Both sessions hand out numbers, up to counts that go together. -/
theorem hand (h : s.Corresponds numbers s') {high high' : NodeId} (le : s.nextId ≤ high)
    (together : ahead numbers s.nextId s'.nextId high high') :
    Session.Corresponds (Lox.upTo numbers s.nextId s'.nextId high)
      { s with nextId := high } { s' with nextId := high' } where
  machine := by
    refine ⟨h.machine.heap.mono fun id id' hn => h.upTo le hn, h.machine.scope, ?_⟩
    · rintro id id' ⟨hold | ⟨k, rfl, rfl⟩, -⟩
      · exact h.machine.distances id id' hold
      · rw [h.clear _ (Nat.le_add_right _ _), h.clear' _ (Nat.le_add_right _ _)]
  clock := h.clock
  tracing := h.tracing
  order a a' b b' ha hb := h.ahead_order a a' b b' ha.1 hb.1
  below id id' hn := by
    obtain ⟨k, rfl, rfl⟩ := h.exists_count le together
    refine ⟨hn.2, ?_⟩
    rcases hn.1 with hold | ⟨j, rfl, rfl⟩
    · exact Nat.lt_of_lt_of_le (h.below id id' hold).2 (Nat.le_add_right _ _)
    · exact Nat.add_lt_add_left (Nat.add_lt_add_iff_left.mp hn.2) _
  clear id new := h.clear id (Nat.le_trans le new)
  clear' id new := by
    obtain ⟨k, rfl, rfl⟩ := h.exists_count le together
    exact h.clear' id (Nat.le_trans (Nat.le_add_right _ _) new)

/-- The nodes of programs that are alike have numbers that were handed out. -/
theorem ids_below (h : s.Corresponds numbers s') {body body' : List Stmt}
    (alike : List.Forall₂ (Stmt.Alike (.renumbered numbers)) body body') :
    (∀ id ∈ Stmt.idsAll body, id < s.nextId) ∧ ∀ id ∈ Stmt.idsAll body', id < s'.nextId := by
  have hsides := Stmt.nodesAll_alike alike
  refine ⟨fun id hid => ?_, fun id hid => ?_⟩
  · obtain ⟨n, hn, rfl⟩ := List.mem_map.mp hid
    obtain ⟨n', -, hnumbers⟩ := exists_of_mem_forall₂ hsides hn
    exact (h.below _ _ hnumbers).1
  · obtain ⟨n', hn, rfl⟩ := List.mem_map.mp hid
    obtain ⟨n, -, hnumbers⟩ := exists_of_mem_forall₂ hsides.flip hn
    exact (h.below _ _ hnumbers).2

end Session.Corresponds

end Lox
