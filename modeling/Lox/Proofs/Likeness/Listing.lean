/-
What is shown of programs that are alike. The view of a tree leaves numbers and
places out, so it is one and the same. The listing of distances is in the order of
the numbers; where numbers that go together are in one order (`Likeness.InOrder`),
the listings are alike line by line.
-/
import Lox.Proofs.Likeness.Session

namespace Lox

variable {ρ : Likeness}

-- ==================================================================== views

theorem spellings_eq {params params' : List Token} (h : List.Forall₂ ρ.tokens params params') :
    params'.map Token.lexeme = params.map Token.lexeme := by
  induction h with
  | nil => rfl
  | cons first _ ih => rw [List.map_cons, List.map_cons, ρ.spelt first, ih]

mutual

/-- Trees that are alike look the same. -/
theorem Expr.Alike.view_eq : ∀ {e e' : Expr}, e.Alike ρ e' → e'.view = e.view
  | _, _, .literal _ _ | _, _, .this _ _ => rfl
  | _, _, .var _ name => ρ.spelt name
  | _, _, .assign _ name value => by
      unfold Expr.view
      rw [ρ.spelt name, value.view_eq]
  | _, _, .binary _ left operator right | _, _, .logical _ left operator right => by
      unfold Expr.view
      rw [ρ.spelt operator, left.view_eq, right.view_eq]
  | _, _, .unary _ operator operand => by
      unfold Expr.view
      rw [ρ.spelt operator, operand.view_eq]
  | _, _, .grouping _ inner => by
      unfold Expr.view
      rw [inner.view_eq]
  | _, _, .call _ callee _ arguments => by
      unfold Expr.view
      rw [callee.view_eq, Expr.viewAll_eq arguments]
  | _, _, .get _ object name => by
      unfold Expr.view
      rw [object.view_eq, ρ.spelt name]
  | _, _, .set _ object name value => by
      unfold Expr.view
      rw [object.view_eq, ρ.spelt name, value.view_eq]
  | _, _, .super _ _ method => by
      unfold Expr.view
      rw [ρ.spelt method]

theorem Expr.viewAll_eq : ∀ {es es' : List Expr}, List.Forall₂ (Expr.Alike ρ) es es' →
    Expr.viewAll es' = Expr.viewAll es
  | _, _, .nil => rfl
  | _, _, .cons first rest => by
      unfold Expr.viewAll
      rw [first.view_eq, Expr.viewAll_eq rest]

end

mutual

/-- Trees that are alike look the same. -/
theorem Stmt.Alike.view_eq : ∀ {s s' : Stmt}, s.Alike ρ s' → s'.view = s.view
  | _, _, .expression _ e | _, _, .print _ e => by
      unfold Stmt.view
      rw [e.view_eq]
  | _, _, .varDecl _ name .none => by
      unfold Stmt.view
      rw [ρ.spelt name]
  | _, _, .varDecl _ name (.some initializer) => by
      unfold Stmt.view
      rw [ρ.spelt name, initializer.view_eq]
  | _, _, .block _ body => by
      unfold Stmt.view
      rw [Stmt.viewAll_eq body]
  | _, _, .ifThen _ condition thenBranch => by
      unfold Stmt.view
      rw [condition.view_eq, thenBranch.view_eq]
  | _, _, .ifElse _ condition thenBranch elseBranch => by
      unfold Stmt.view
      rw [condition.view_eq, thenBranch.view_eq, elseBranch.view_eq]
  | _, _, .whileLoop _ condition body => by
      unfold Stmt.view
      rw [condition.view_eq, body.view_eq]
  | _, _, .funDecl _ function _ => by
      unfold Stmt.view
      rw [function.view_eq]
  | _, _, .returnStmt _ _ .none => rfl
  | _, _, .returnStmt _ _ (.some value) => by
      simp only [Stmt.view, Expr.viewOptional, value.view_eq]
  | _, _, .classDecl _ name .none methods _ => by
      unfold Stmt.view
      rw [ρ.spelt name, FunDecl.viewAll_eq methods]
  | _, _, .classDecl _ name (.some above) methods _ => by
      unfold Stmt.view
      dsimp only
      rw [ρ.spelt name, ρ.spelt above.name, FunDecl.viewAll_eq methods]

theorem Stmt.viewAll_eq : ∀ {body body' : List Stmt}, List.Forall₂ (Stmt.Alike ρ) body body' →
    Stmt.viewAll body' = Stmt.viewAll body
  | _, _, .nil => rfl
  | _, _, .cons first rest => by
      unfold Stmt.viewAll
      rw [first.view_eq, Stmt.viewAll_eq rest]

theorem FunDecl.Alike.view_eq : ∀ {f f' : FunDecl}, f.Alike ρ f' → f'.view = f.view
  | _, _, .mk name params body => by
      have hnames := spellings_eq params
      unfold FunDecl.view
      rw [ρ.spelt name, hnames, Stmt.viewAll_eq body]

theorem FunDecl.viewAll_eq : ∀ {fs fs' : List FunDecl}, List.Forall₂ (FunDecl.Alike ρ) fs fs' →
    FunDecl.viewAll fs' = FunDecl.viewAll fs
  | _, _, .nil => rfl
  | _, _, .cons first rest => by
      unfold FunDecl.viewAll
      rw [first.view_eq, FunDecl.viewAll_eq rest]

end

-- =================================================================== listings

/-- Numbers that go together are in one order on both sides. -/
def Likeness.InOrder (ρ : Likeness) : Prop :=
  ∀ a a' b b' : Nat, ρ.nodes a a' → ρ.nodes b b' → (a < b ↔ a' < b')

theorem Likeness.InOrder.oneToOne (h : ρ.InOrder) : ρ.OneToOne := by
  intro a a' b b' ha hb
  have hforth := h a a' b b' ha hb
  have hback := h b b' a a' hb ha
  rw [Nat.le_antisymm_iff, Nat.le_antisymm_iff, ← Nat.not_lt, ← Nat.not_lt, hforth, hback,
    Nat.not_lt, Nat.not_lt]

/-- Entries of two tables: the same of nodes that go together. -/
def EntryAlike (ρ : Likeness) (entry entry' : NodeId × Nat) : Prop :=
  ρ.nodes entry.1 entry'.1 ∧ entry'.2 = entry.2

theorem exists_of_mem_forall₂ {α β : Type} {R : α → β → Prop} {l : List α} {l' : List β}
    (h : List.Forall₂ R l l') {a : α} (ha : a ∈ l) : ∃ b ∈ l', R a b := by
  induction h with
  | nil => cases ha
  | @cons x y xs ys first _ ih =>
      rcases List.mem_cons.mp ha with rfl | ha
      · exact ⟨y, List.mem_cons_self, first⟩
      · obtain ⟨b, hb, hab⟩ := ih ha
        exact ⟨b, List.mem_cons_of_mem y hb, hab⟩

/-- Two lists in the order of their numbers run side by side if each entry has its like in the other
list. -/
theorem forall₂_of_ordered (order : ρ.InOrder) :
    ∀ {entries entries' : List (NodeId × Nat)},
      entries.Pairwise (fun a b => a.1 < b.1) → entries'.Pairwise (fun a b => a.1 < b.1) →
        (∀ e ∈ entries, ∃ e' ∈ entries', EntryAlike ρ e e') →
          (∀ e' ∈ entries', ∃ e ∈ entries, EntryAlike ρ e e') →
            List.Forall₂ (EntryAlike ρ) entries entries'
  | [], [], _, _, _, _ => .nil
  | [], e' :: _, _, _, _, back => by
      obtain ⟨e, he, -⟩ := back e' List.mem_cons_self
      cases he
  | e :: _, [], _, _, forth, _ => by
      obtain ⟨e', he', -⟩ := forth e List.mem_cons_self
      cases he'
  | e :: rest, e' :: rest', sorted, sorted', forth, back => by
      rw [List.pairwise_cons] at sorted sorted'
      -- The least entries belong together, for the like of neither lies below the other.
      have hfirst : EntryAlike ρ e e' := by
        obtain ⟨x', hx', hex⟩ := forth e List.mem_cons_self
        obtain ⟨x, hx, hxe⟩ := back e' List.mem_cons_self
        rcases List.mem_cons.mp hx' with rfl | hx'
        · exact hex
        rcases List.mem_cons.mp hx with rfl | hx
        · exact hxe
        have horder := order _ _ _ _ hxe.1 hex.1
        exact absurd (horder.mpr (sorted'.1 x' hx')) (Nat.lt_asymm (sorted.1 x hx))
      refine .cons hfirst (forall₂_of_ordered order sorted.2 sorted'.2 (fun x hx => ?_)
        fun x' hx' => ?_)
      · obtain ⟨x', hx', halike⟩ := forth x (List.mem_cons_of_mem e hx)
        rcases List.mem_cons.mp hx' with rfl | hx'
        · have hone := order.oneToOne _ _ _ _ hfirst.1 halike.1
          exact absurd (hone.mpr rfl) (Nat.ne_of_lt (sorted.1 x hx))
        · exact ⟨x', hx', halike⟩
      · obtain ⟨x, hx, halike⟩ := back x' (List.mem_cons_of_mem e' hx')
        rcases List.mem_cons.mp hx with rfl | hx
        · have hone := order.oneToOne _ _ _ _ hfirst.1 halike.1
          exact absurd (hone.mp rfl) (Nat.ne_of_lt (sorted'.1 x' hx'))
        · exact ⟨x, hx, halike⟩

/-- A table of links has entries for their nodes alone. -/
theorem exists_link_of_distances {survey : Survey} {id : NodeId} {distance : Nat}
    (h : survey.distances[id]? = some distance) : ∃ link ∈ survey.links, link.id = id := by
  by_contra hnone
  have hempty : survey.distances[id]? = (∅ : Distances)[id]? :=
    Distances.getElem?_addLinks_of_ne fun link hl he => hnone ⟨link, hl, he⟩
  rw [hempty] at h
  cases h

/-- The distances of programs that are alike are listed alike. -/
theorem Survey.Alike.distanceLines (order : ρ.InOrder) {a a' : Survey} (h : a.Alike ρ a') :
    List.Forall₂ (LineAlike ρ) (Prompt.distanceLines a) (Prompt.distanceLines a') := by
  have hagree : Distances.Agree ρ a.distances a'.distances :=
    Distances.Agree.addLinks order.oneToOne h.links fun _ _ _ => rfl
  have hsorted : ∀ table : Distances, table.toList.Pairwise (fun a b => a.1 < b.1) := fun table =>
    Std.TreeMap.ordered_keys_toList.imp fun hlt => Nat.compare_eq_lt.mp hlt
  unfold Prompt.distanceLines
  rw [List.forall₂_map_left_iff, List.forall₂_map_right_iff]
  refine (forall₂_of_ordered order (hsorted _) (hsorted _) (fun (id, distance) he => ?_)
    fun (id', distance) he => ?_).imp fun (id, distance) (id', distance') halike => ?_
  · rw [Std.TreeMap.mem_toList_iff_getElem?_eq_some] at he
    obtain ⟨link, hl, rfl⟩ := exists_link_of_distances he
    obtain ⟨link', -, hlink⟩ := exists_of_mem_forall₂ h.links hl
    have hsame := hagree _ _ hlink.node
    refine ⟨(link'.id, distance), ?_, hlink.node, rfl⟩
    rw [Std.TreeMap.mem_toList_iff_getElem?_eq_some, ← hsame, he]
  · rw [Std.TreeMap.mem_toList_iff_getElem?_eq_some] at he
    obtain ⟨link', hl, rfl⟩ := exists_link_of_distances he
    obtain ⟨link, -, hlink⟩ := exists_of_mem_forall₂ h.links.flip hl
    have hlink : link.Alike ρ link' := hlink
    have hsame := hagree _ _ hlink.node
    refine ⟨(link.id, distance), ?_, hlink.node, rfl⟩
    rw [Std.TreeMap.mem_toList_iff_getElem?_eq_some, hsame, he]
  · obtain ⟨hnode, rfl⟩ := halike
    exact .listed hnode distance'

end Lox
