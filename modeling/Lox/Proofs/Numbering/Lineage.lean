/-
The numbers of a tree. A lineage is what is left of a tree when only its numbers are
kept: each node with the nodes it is made of, superclasses and methods among them.

Lineages are built from below (`Lineage.Built`): a node takes the next number when all
its parts have theirs. What parts a node has may be settled late, and a part may end up
elsewhere than it was read, as in a loop that becomes other statements; but whatever is
taken apart, put in another order or left out, no number is handed out twice and every
node has a larger one than its parts.
-/
import Lox.Proofs.Reading.Reads

namespace Lox

/-- A node and the nodes that it is made of. -/
inductive Lineage where
  | node (id : NodeId) (parts : List Lineage)

-- ================================================================== lineages

mutual

/-- What an expression is made of, from left to right. -/
def Expr.lineage : Expr → Lineage
  | .literal id .. | .var id _ | .this id _ | .super id .. => .node id []
  | .assign id _ value => .node id [value.lineage]
  | .binary id left _ right | .logical id left _ right => .node id [left.lineage, right.lineage]
  | .unary id _ operand => .node id [operand.lineage]
  | .grouping id inner => .node id [inner.lineage]
  | .call id callee _ arguments => .node id (callee.lineage :: Expr.lineages arguments)
  | .get id object _ => .node id [object.lineage]
  | .set id object _ value => .node id [object.lineage, value.lineage]

def Expr.lineages : List Expr → List Lineage
  | [] => []
  | e :: rest => e.lineage :: Expr.lineages rest

end

/-- A superclass that is named is a node of its own. -/
def NameRef.lineage (parent : NameRef) : Lineage := .node parent.id []

mutual

/-- What a statement is made of. -/
def Stmt.lineage : Stmt → Lineage
  | .expression id e | .print id e => .node id [e.lineage]
  | .varDecl id _ initializer => .node id (Expr.lineages initializer.toList)
  | .block id body => .node id (Stmt.lineages body)
  | .ifThen id condition thenBranch => .node id [condition.lineage, thenBranch.lineage]
  | .ifElse id condition thenBranch elseBranch =>
    .node id [condition.lineage, thenBranch.lineage, elseBranch.lineage]
  | .whileLoop id condition body => .node id [condition.lineage, body.lineage]
  | .funDecl f => f.lineage
  | .returnStmt id _ value => .node id (Expr.lineages value.toList)
  | .classDecl id _ superclass methods =>
    .node id (superclass.toList.map NameRef.lineage ++ FunDecl.lineages methods)

def Stmt.lineages : List Stmt → List Lineage
  | [] => []
  | s :: rest => s.lineage :: Stmt.lineages rest

def FunDecl.lineage : FunDecl → Lineage
  | .mk id _ _ body => .node id (Stmt.lineages body)

def FunDecl.lineages : List FunDecl → List Lineage
  | [] => []
  | f :: rest => f.lineage :: FunDecl.lineages rest

end

theorem Expr.lineages_eq_map (es : List Expr) : Expr.lineages es = es.map Expr.lineage := by
  induction es with
  | nil => rfl
  | cons e rest ih => rw [Expr.lineages, ih, List.map_cons]

theorem Stmt.lineages_eq_map (body : List Stmt) : Stmt.lineages body = body.map Stmt.lineage := by
  induction body with
  | nil => rfl
  | cons s rest ih => rw [Stmt.lineages, ih, List.map_cons]

theorem FunDecl.lineages_eq_map (fs : List FunDecl) :
    FunDecl.lineages fs = fs.map FunDecl.lineage := by
  induction fs with
  | nil => rfl
  | cons f rest ih => rw [FunDecl.lineages, ih, List.map_cons]

namespace Lineage

/-- The number of a node itself. -/
def id : Lineage → NodeId
  | .node id _ => id

mutual

/-- The numbers of a node and of all below it. -/
def ids : Lineage → List NodeId
  | .node id parts => id :: idsAll parts

def idsAll : List Lineage → List NodeId
  | [] => []
  | l :: rest => l.ids ++ idsAll rest

end

mutual

/-- Every node has a larger number than each of its parts. -/
def Ascends : Lineage → Prop
  | .node id parts => (∀ part ∈ parts, part.id < id) ∧ AscendsAll parts

def AscendsAll : List Lineage → Prop
  | [] => True
  | l :: rest => l.Ascends ∧ AscendsAll rest

end

@[simp] theorem ids_node (id : NodeId) (parts : List Lineage) :
    (node id parts).ids = id :: idsAll parts := rfl

@[simp] theorem idsAll_nil : idsAll [] = [] := rfl

@[simp] theorem idsAll_cons (l : Lineage) (rest : List Lineage) :
    idsAll (l :: rest) = l.ids ++ idsAll rest := rfl

theorem idsAll_eq_flatMap (ls : List Lineage) : idsAll ls = ls.flatMap ids := by
  induction ls with
  | nil => rfl
  | cons l rest ih => rw [idsAll, ih, List.flatMap_cons]

theorem idsAll_append (ls more : List Lineage) :
    idsAll (ls ++ more) = idsAll ls ++ idsAll more := by
  rw [idsAll_eq_flatMap, idsAll_eq_flatMap, idsAll_eq_flatMap, List.flatMap_append]

theorem ascendsAll_iff {ls : List Lineage} : AscendsAll ls ↔ ∀ l ∈ ls, l.Ascends := by
  induction ls with
  | nil => simp [AscendsAll]
  | cons l rest ih => simp [AscendsAll, ih]

theorem id_mem_ids (l : Lineage) : l.id ∈ l.ids := by
  obtain ⟨id, parts⟩ := l
  exact List.mem_cons_self

theorem mem_idsAll {ls : List Lineage} {l : Lineage} (h : l ∈ ls) :
    ∀ id ∈ l.ids, id ∈ idsAll ls := by
  intro id hid
  rw [idsAll_eq_flatMap]
  exact List.mem_flatMap.mpr ⟨l, h, hid⟩

-- ================================================================== building

/-- Some nodes that were built while the counter went from `low` to `high`. -/
structure Built (low high : NodeId) (ls : List Lineage) : Prop where
  numbers : Numbers low high (idsAll ls)
  ascends : ∀ l ∈ ls, l.Ascends
  le : low ≤ high

namespace Built

variable {low mid high : NodeId} {ls more parts : List Lineage} {id : NodeId}

theorem nil (h : low ≤ high) : Built low high [] := ⟨.nil low high, nofun, h⟩

/-- Numbers that are used up otherwise do no harm. -/
theorem widen {high' : NodeId} (h : Built low high ls) (hhigh : high ≤ high') :
    Built low high' ls :=
  ⟨h.numbers.widen (Nat.le_refl _) hhigh, h.ascends, Nat.le_trans h.le hhigh⟩

theorem append (h : Built low mid ls) (h' : Built mid high more) : Built low high (ls ++ more) where
  numbers := by
    rw [idsAll_append]
    exact h.numbers.append h'.numbers h.le h'.le
  ascends := List.forall_mem_append.mpr ⟨h.ascends, h'.ascends⟩
  le := Nat.le_trans h.le h'.le

theorem perm (h : Built low high ls) (hperm : more.Perm ls) : Built low high more where
  numbers := by
    have hnumbers := h.numbers
    rw [idsAll_eq_flatMap] at hnumbers ⊢
    exact hnumbers.perm (hperm.flatMap_right ids)
  ascends l hl := h.ascends l (hperm.mem_iff.mp hl)
  le := h.le

/-- The next number goes to a node that is made of some of the nodes built so far. -/
theorem node (h : Built low high (parts ++ more)) :
    Built low (high + 1) (.node high parts :: more) where
  numbers := by
    have hfresh : Numbers high (high + 1) [high] := .one high
    have hall := h.numbers.append hfresh h.le (Nat.le_succ high)
    rw [idsAll_append] at hall
    exact hall.perm (List.perm_append_singleton _ _).symm
  ascends := by
    obtain ⟨hparts, hmore⟩ := List.forall_mem_append.mp h.ascends
    refine List.forall_mem_cons.mpr ⟨⟨fun part hpart => ?_, ascendsAll_iff.mpr hparts⟩, hmore⟩
    have hid := mem_idsAll (List.mem_append_left more hpart) _ part.id_mem_ids
    exact (h.numbers.range _ hid).2
  le := Nat.le_succ_of_le h.le

/-- A node is taken apart. -/
theorem unwrap (h : Built low high (.node id parts :: more)) : Built low high (parts ++ more) where
  numbers := by
    rw [idsAll_append]
    exact h.numbers.sublist (List.sublist_cons_self _ _)
  ascends := by
    obtain ⟨hnode, hmore⟩ := List.forall_mem_cons.mp h.ascends
    exact List.forall_mem_append.mpr ⟨ascendsAll_iff.mp hnode.2, hmore⟩
  le := h.le

end Built

end Lineage

end Lox
