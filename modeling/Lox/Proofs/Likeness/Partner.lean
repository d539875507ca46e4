/-
Partners: the nodes at the same place of two trees that are alike. Such trees have
equally many nodes, and their lists of nodes run side by side, so each node has
one partner (`Stmt.Alike.nodes`). Which numbers may belong together can therefore
be laid down afterwards: trees that are alike whatever their numbers are alike
still when no numbers go together but those of partners (`Stmt.Alike.numbered`).

If no tree uses a number twice, partners correspond one to one.
-/
import Mathlib.Data.List.Nodup
import Lox.Proofs.Likeness.Resolve
import Lox.Proofs.Reading.Tree

namespace Lox

/-- The same likeness with another opinion on the numbers of nodes. -/
def Likeness.numbered (ρ : Likeness) (numbers : NodeId → NodeId → Prop) : Likeness :=
  { ρ with nodes := numbers }

/-- Lists of nodes that run side by side, with numbers that go together. -/
def Node.SideBySide (numbers : NodeId → NodeId → Prop) (nodes nodes' : List Node) : Prop :=
  List.Forall₂ (fun n n' => numbers n.id n'.id) nodes nodes'

variable {ρ : Likeness} {numbers : NodeId → NodeId → Prop}

namespace Node.SideBySide

variable {a b a' b' : List Node}

/-- Where the first parts are equally long, the parts run side by side. -/
theorem parts (h : SideBySide numbers (a ++ b) (a' ++ b')) (length : a.length = a'.length) :
    SideBySide numbers a a' ∧ SideBySide numbers b b' := by
  have htake := List.forall₂_take a.length h
  have hdrop := List.forall₂_drop a.length h
  rw [List.take_left, length, List.take_left] at htake
  rw [List.drop_left, length, List.drop_left] at hdrop
  exact ⟨htake, hdrop⟩

end Node.SideBySide

-- ============================================================ side by side

theorem NameRef.nodesOptional_alike {parent parent' : Option NameRef}
    (h : Option.Rel (NameRef.Alike ρ) parent parent') :
    Node.SideBySide ρ.nodes (NameRef.nodesOptional parent) (NameRef.nodesOptional parent') := by
  cases h with
  | none => exact .nil
  | some alike => exact .cons alike.node .nil

mutual

theorem Expr.Alike.nodes : ∀ {e e' : Expr}, e.Alike ρ e' →
    Node.SideBySide ρ.nodes e.nodes e'.nodes
  | _, _, .literal node _ | _, _, .var node _ | _, _, .this node _ | _, _, .super node _ _ =>
      .cons node .nil
  | _, _, .assign node _ value => .cons node value.nodes
  | _, _, .binary node left _ right | _, _, .logical node left _ right =>
      .cons node (List.rel_append left.nodes right.nodes)
  | _, _, .unary node _ operand => .cons node operand.nodes
  | _, _, .grouping node inner => .cons node inner.nodes
  | _, _, .call node callee _ arguments =>
      .cons node (List.rel_append callee.nodes (Expr.nodesAll_alike arguments))
  | _, _, .get node object _ => .cons node object.nodes
  | _, _, .set node object _ value => .cons node (List.rel_append value.nodes object.nodes)

theorem Expr.nodesAll_alike : ∀ {es es' : List Expr}, List.Forall₂ (Expr.Alike ρ) es es' →
    Node.SideBySide ρ.nodes (Expr.nodesAll es) (Expr.nodesAll es')
  | _, _, .nil => .nil
  | _, _, .cons first rest => List.rel_append first.nodes (Expr.nodesAll_alike rest)

end

theorem Expr.nodesOptional_alike {e e' : Option Expr} (h : Option.Rel (Expr.Alike ρ) e e') :
    Node.SideBySide ρ.nodes (Expr.nodesOptional e) (Expr.nodesOptional e') := by
  cases h with
  | none => exact .nil
  | some alike => exact alike.nodes

mutual

theorem Stmt.Alike.nodes : ∀ {s s' : Stmt}, s.Alike ρ s' →
    Node.SideBySide ρ.nodes s.nodes s'.nodes
  | _, _, .expression node e | _, _, .print node e => .cons node e.nodes
  | _, _, .varDecl node _ initializer => .cons node (Expr.nodesOptional_alike initializer)
  | _, _, .block node body => .cons node (Stmt.nodesAll_alike body)
  | _, _, .ifThen node condition thenBranch => .cons node (List.rel_append condition.nodes thenBranch.nodes)
  | _, _, .ifElse node condition thenBranch elseBranch =>
      .cons node (List.rel_append (List.rel_append condition.nodes thenBranch.nodes) elseBranch.nodes)
  | _, _, .whileLoop node condition body => .cons node (List.rel_append condition.nodes body.nodes)
  | _, _, .funDecl node function _ => .cons node function.nodes
  | _, _, .returnStmt node _ value => .cons node (Expr.nodesOptional_alike value)
  | _, _, .classDecl node _ superclass methods _ =>
      .cons node (List.rel_append (NameRef.nodesOptional_alike superclass) (FunDecl.nodesAll_alike methods))

theorem Stmt.nodesAll_alike : ∀ {body body' : List Stmt}, List.Forall₂ (Stmt.Alike ρ) body body' →
    Node.SideBySide ρ.nodes (Stmt.nodesAll body) (Stmt.nodesAll body')
  | _, _, .nil => .nil
  | _, _, .cons first rest => List.rel_append first.nodes (Stmt.nodesAll_alike rest)

theorem FunDecl.Alike.nodes : ∀ {f f' : FunDecl}, f.Alike ρ f' →
    Node.SideBySide ρ.nodes f.nodes f'.nodes
  | _, _, .mk _ _ body => Stmt.nodesAll_alike body

theorem FunDecl.nodesAll_alike : ∀ {fs fs' : List FunDecl}, List.Forall₂ (FunDecl.Alike ρ) fs fs' →
    Node.SideBySide ρ.nodes (FunDecl.nodesAll fs) (FunDecl.nodesAll fs')
  | _, _, .nil => .nil
  | _, _, .cons first rest => List.rel_append first.nodes (FunDecl.nodesAll_alike rest)

end

-- ============================================================== renumbering

theorem NameRef.Alike.numbered {parent parent' : Option NameRef}
    (h : Option.Rel (NameRef.Alike ρ) parent parent')
    (sides : Node.SideBySide numbers (NameRef.nodesOptional parent)
      (NameRef.nodesOptional parent')) :
    Option.Rel (NameRef.Alike (ρ.numbered numbers)) parent parent' := by
  cases h with
  | none => exact .none
  | some alike =>
      cases sides with
      | cons node _ => exact .some ⟨node, alike.name⟩

mutual

/-- The numbers of nodes can be laid down afterwards. -/
theorem Expr.Alike.numbered : ∀ {e e' : Expr}, e.Alike ρ e' →
    Node.SideBySide numbers e.nodes e'.nodes → e.Alike (ρ.numbered numbers) e'
  | _, _, .literal _ token, .cons node _ => .literal node token
  | _, _, .var _ name, .cons node _ => .var node name
  | _, _, .assign _ name value, .cons node rest => .assign node name (value.numbered rest)
  | _, _, .binary _ left operator right, .cons node rest =>
      have ⟨hleft, hright⟩ := Node.SideBySide.parts rest left.nodes.length_eq
      .binary node (left.numbered hleft) operator (right.numbered hright)
  | _, _, .logical _ left operator right, .cons node rest =>
      have ⟨hleft, hright⟩ := Node.SideBySide.parts rest left.nodes.length_eq
      .logical node (left.numbered hleft) operator (right.numbered hright)
  | _, _, .unary _ operator operand, .cons node rest =>
      .unary node operator (operand.numbered rest)
  | _, _, .grouping _ inner, .cons node rest => .grouping node (inner.numbered rest)
  | _, _, .call _ callee paren arguments, .cons node rest =>
      have ⟨hcallee, hrest⟩ := Node.SideBySide.parts rest callee.nodes.length_eq
      .call node (callee.numbered hcallee) paren (Expr.numberedAll arguments hrest)
  | _, _, .get _ object name, .cons node rest => .get node (object.numbered rest) name
  | _, _, .set _ object name value, .cons node rest =>
      have ⟨hvalue, hobject⟩ := Node.SideBySide.parts rest value.nodes.length_eq
      .set node (object.numbered hobject) name (value.numbered hvalue)
  | _, _, .this _ keyword, .cons node _ => .this node keyword
  | _, _, .super _ keyword method, .cons node _ => .super node keyword method

theorem Expr.numberedAll : ∀ {es es' : List Expr}, List.Forall₂ (Expr.Alike ρ) es es' →
    Node.SideBySide numbers (Expr.nodesAll es) (Expr.nodesAll es') →
      List.Forall₂ (Expr.Alike (ρ.numbered numbers)) es es'
  | _, _, .nil, _ => .nil
  | _, _, .cons first others, sides =>
      have ⟨hfirst, hothers⟩ := Node.SideBySide.parts sides first.nodes.length_eq
      .cons (first.numbered hfirst) (Expr.numberedAll others hothers)

end

theorem Expr.numberedOptional {e e' : Option Expr} (h : Option.Rel (Expr.Alike ρ) e e')
    (sides : Node.SideBySide numbers (Expr.nodesOptional e) (Expr.nodesOptional e')) :
    Option.Rel (Expr.Alike (ρ.numbered numbers)) e e' := by
  cases h with
  | none => exact .none
  | some alike => exact .some (alike.numbered sides)

mutual

/-- The numbers of nodes can be laid down afterwards. -/
theorem Stmt.Alike.numbered : ∀ {s s' : Stmt}, s.Alike ρ s' →
    Node.SideBySide numbers s.nodes s'.nodes → s.Alike (ρ.numbered numbers) s'
  | _, _, .expression _ e, .cons node rest => .expression node (e.numbered rest)
  | _, _, .print _ e, .cons node rest => .print node (e.numbered rest)
  | _, _, .varDecl _ name initializer, .cons node rest =>
      .varDecl node name (Expr.numberedOptional initializer rest)
  | _, _, .block _ body, .cons node rest => .block node (Stmt.numberedAll body rest)
  | _, _, .ifThen _ condition thenBranch, .cons node rest =>
      have ⟨hcondition, hthen⟩ := Node.SideBySide.parts rest condition.nodes.length_eq
      .ifThen node (condition.numbered hcondition) (thenBranch.numbered hthen)
  | _, _, .ifElse _ condition thenBranch elseBranch, .cons node rest =>
      have ⟨hfirst, helse⟩ := Node.SideBySide.parts rest
        (List.rel_append condition.nodes thenBranch.nodes).length_eq
      have ⟨hcondition, hthen⟩ := Node.SideBySide.parts hfirst condition.nodes.length_eq
      .ifElse node (condition.numbered hcondition) (thenBranch.numbered hthen)
        (elseBranch.numbered helse)
  | _, _, .whileLoop _ condition body, .cons node rest =>
      have ⟨hcondition, hbody⟩ := Node.SideBySide.parts rest condition.nodes.length_eq
      .whileLoop node (condition.numbered hcondition) (body.numbered hbody)
  | _, _, .funDecl _ function held, .cons node rest => .funDecl node (function.numbered rest) held
  | _, _, .returnStmt _ keyword value, .cons node rest =>
      .returnStmt node keyword (Expr.numberedOptional value rest)
  | _, _, .classDecl _ name superclass methods held, .cons node rest =>
      have ⟨hsuperclass, hmethods⟩ := Node.SideBySide.parts rest
        (NameRef.nodesOptional_alike superclass).length_eq
      .classDecl node name (NameRef.Alike.numbered superclass hsuperclass)
        (FunDecl.numberedAll methods hmethods) held

theorem Stmt.numberedAll : ∀ {body body' : List Stmt}, List.Forall₂ (Stmt.Alike ρ) body body' →
    Node.SideBySide numbers (Stmt.nodesAll body) (Stmt.nodesAll body') →
      List.Forall₂ (Stmt.Alike (ρ.numbered numbers)) body body'
  | _, _, .nil, _ => .nil
  | _, _, .cons first others, sides =>
      have ⟨hfirst, hothers⟩ := Node.SideBySide.parts sides first.nodes.length_eq
      .cons (first.numbered hfirst) (Stmt.numberedAll others hothers)

theorem FunDecl.Alike.numbered : ∀ {f f' : FunDecl}, f.Alike ρ f' →
    Node.SideBySide numbers f.nodes f'.nodes → f.Alike (ρ.numbered numbers) f'
  | _, _, .mk name params body, sides => .mk name params (Stmt.numberedAll body sides)

theorem FunDecl.numberedAll : ∀ {fs fs' : List FunDecl}, List.Forall₂ (FunDecl.Alike ρ) fs fs' →
    Node.SideBySide numbers (FunDecl.nodesAll fs) (FunDecl.nodesAll fs') →
      List.Forall₂ (FunDecl.Alike (ρ.numbered numbers)) fs fs'
  | _, _, .nil, _ => .nil
  | _, _, .cons first others, sides =>
      have ⟨hfirst, hothers⟩ := Node.SideBySide.parts sides first.nodes.length_eq
      .cons (first.numbered hfirst) (FunDecl.numberedAll others hothers)

end

-- ================================================================= partners

/-- Two nodes stand at the same place of two programs. -/
def Partners (body body' : List Stmt) (id id' : NodeId) : Prop :=
  (id, id') ∈ (Stmt.idsAll body).zip (Stmt.idsAll body')

namespace Partners

variable {body body' : List Stmt} {a a' b b' : NodeId}

theorem exists_index (h : Partners body body' a a') :
    ∃ (i : Nat) (hi : i < (Stmt.idsAll body).length) (hi' : i < (Stmt.idsAll body').length),
      (Stmt.idsAll body)[i] = a ∧ (Stmt.idsAll body')[i] = a' := by
  obtain ⟨i, hi⟩ := List.mem_iff_getElem?.mp h
  obtain ⟨hleft, hright⟩ := List.getElem?_zip_eq_some.mp hi
  obtain ⟨hi, he⟩ := List.getElem?_eq_some_iff.mp hleft
  obtain ⟨hi', he'⟩ := List.getElem?_eq_some_iff.mp hright
  exact ⟨i, hi, hi', he, he'⟩

/-- The nodes of one index are partners. -/
theorem of_index {i : Nat} (hi : i < (Stmt.idsAll body).length)
    (hi' : i < (Stmt.idsAll body').length) :
    Partners body body' (Stmt.idsAll body)[i] (Stmt.idsAll body')[i] :=
  List.mem_iff_getElem?.mpr ⟨i, List.getElem?_zip_eq_some.mpr
    ⟨List.getElem?_eq_getElem hi, List.getElem?_eq_getElem hi'⟩⟩

/-- Where no tree uses a number twice, no node has two partners. -/
theorem eq_iff (distinct : (Stmt.idsAll body).Nodup) (distinct' : (Stmt.idsAll body').Nodup)
    (h : Partners body body' a a') (k : Partners body body' b b') : a = b ↔ a' = b' := by
  obtain ⟨i, hi, hi', rfl, rfl⟩ := h.exists_index
  obtain ⟨j, hj, hj', rfl, rfl⟩ := k.exists_index
  rw [List.Nodup.getElem_inj_iff distinct, List.Nodup.getElem_inj_iff distinct']

end Partners

theorem Stmt.ids_length_eq {body body' : List Stmt} (h : List.Forall₂ (Stmt.Alike ρ) body body') :
    (Stmt.idsAll body).length = (Stmt.idsAll body').length := by
  unfold Stmt.idsAll
  rw [List.length_map, List.length_map]
  exact (Stmt.nodesAll_alike h).length_eq

/-- Programs that are alike are so with their partners for corresponding nodes, and with whatever
other nodes correspond beside these. -/
theorem Stmt.alike_partners {body body' : List Stmt} (h : List.Forall₂ (Stmt.Alike ρ) body body')
    (all : ∀ id id', Partners body body' id id' → numbers id id') :
    List.Forall₂ (Stmt.Alike (ρ.numbered numbers)) body body' := by
  refine Stmt.numberedAll h (List.forall₂_iff_zip.mpr ⟨(Stmt.nodesAll_alike h).length_eq, ?_⟩)
  intro n n' hn
  refine all _ _ ?_
  unfold Partners Stmt.idsAll
  rw [List.zip_map]
  exact List.mem_map_of_mem (f := Prod.map Node.id Node.id) hn

end Lox
