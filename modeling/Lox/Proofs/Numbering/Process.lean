/-
The numbers of a process. A process reads one text after another, as a program, as an
expression, or as a line at the prompt, which may be read both ways; many of them are
refused. All that carries over is the counter, and every tree is built between two of its
counts (`Process.built_parse`). So the trees of a process share no number, and what is
read later has the larger ones.

Distances are kept by number. As no two references have one, none of them ever sees the
entry of another, and the listing of a program's distances, which goes by number, has its
references in the order in which they were built.
-/
import Lox.Proofs.Numbering.Grammar
import Lox.Proofs.Analysis.Listing
import Lox.Proofs.Run.Refused

namespace Lox

open Lineage (Built)

-- ======================================================= nodes and lineages

mutual

/-- The nodes that a run can enter have the numbers of the lineage. -/
theorem Expr.ids_perm : ∀ e : Expr, (e.nodes.map Node.id).Perm e.lineage.ids
  | .literal .. | .var .. | .this .. | .super .. => .refl _
  | .assign _ _ inner | .unary _ _ inner | .grouping _ inner | .get _ inner _ => by
      simp only [Expr.nodes, Expr.lineage, List.map_cons, Lineage.ids_node, Lineage.idsAll_cons,
        Lineage.idsAll_nil, List.append_nil]
      exact inner.ids_perm.cons _
  | .binary _ left _ right | .logical _ left _ right => by
      simp only [Expr.nodes, Expr.lineage, List.map_cons, List.map_append, Lineage.ids_node,
        Lineage.idsAll_cons, Lineage.idsAll_nil, List.append_nil]
      exact (left.ids_perm.append right.ids_perm).cons _
  | .call _ callee _ arguments => by
      simp only [Expr.nodes, Expr.lineage, List.map_cons, List.map_append, Lineage.ids_node,
        Lineage.idsAll_cons]
      exact (callee.ids_perm.append (Expr.ids_perm_all arguments)).cons _
  | .set _ object _ value => by
      simp only [Expr.nodes, Expr.lineage, List.map_cons, List.map_append, Lineage.ids_node,
        Lineage.idsAll_cons, Lineage.idsAll_nil, List.append_nil]
      -- The value is visited first, though the object is listed first.
      exact ((value.ids_perm.append object.ids_perm).trans List.perm_append_comm).cons _

theorem Expr.ids_perm_all : ∀ es : List Expr,
    ((Expr.nodesAll es).map Node.id).Perm (Lineage.idsAll (Expr.lineages es))
  | [] => .nil
  | e :: rest => by
      rw [Expr.nodesAll, List.map_append]
      exact e.ids_perm.append (Expr.ids_perm_all rest)

end

theorem Expr.ids_perm_optional (value : Option Expr) :
    ((Expr.nodesOptional value).map Node.id).Perm
      (Lineage.idsAll (Expr.lineages value.toList)) := by
  cases value with
  | none => exact .nil
  | some e =>
      rw [Option.toList_some, Expr.lineages, Expr.lineages, Lineage.idsAll_cons,
        Lineage.idsAll_nil, List.append_nil]
      exact e.ids_perm

mutual

/-- Besides the nodes that a run can enter there are only methods. -/
theorem Stmt.ids_subperm : ∀ s : Stmt, (s.nodes.map Node.id).Subperm s.lineage.ids
  | .expression _ e | .print _ e => by
      simp only [Stmt.nodes, Stmt.lineage, List.map_cons, Lineage.ids_node, Lineage.idsAll_cons,
        Lineage.idsAll_nil, List.append_nil]
      exact (e.ids_perm.cons _).subperm
  | .varDecl _ _ value | .returnStmt _ _ value => ((Expr.ids_perm_optional value).cons _).subperm
  | .block _ body => (List.subperm_cons _).mpr (Stmt.ids_subperm_all body)
  | .ifThen _ condition body | .whileLoop _ condition body => by
      simp only [Stmt.nodes, Stmt.lineage, List.map_cons, List.map_append, Lineage.ids_node,
        Lineage.idsAll_cons, Lineage.idsAll_nil, List.append_nil]
      exact (List.subperm_cons _).mpr (condition.ids_perm.subperm.append body.ids_subperm)
  | .ifElse _ condition thenBranch elseBranch => by
      simp only [Stmt.nodes, Stmt.lineage, List.map_cons, List.map_append, List.append_assoc,
        Lineage.ids_node, Lineage.idsAll_cons, Lineage.idsAll_nil, List.append_nil]
      have hbranches := thenBranch.ids_subperm.append elseBranch.ids_subperm
      exact (List.subperm_cons _).mpr (condition.ids_perm.subperm.append hbranches)
  | .funDecl f => f.ids_subperm
  | .classDecl _ _ none methods => (List.subperm_cons _).mpr (FunDecl.ids_subperm_all methods)
  | .classDecl _ _ (some _) methods =>
      (List.subperm_cons _).mpr ((List.subperm_cons _).mpr (FunDecl.ids_subperm_all methods))

theorem Stmt.ids_subperm_all : ∀ body : List Stmt,
    ((Stmt.nodesAll body).map Node.id).Subperm (Lineage.idsAll (Stmt.lineages body))
  | [] => .refl _
  | s :: rest => by
      rw [Stmt.nodesAll, List.map_append]
      exact s.ids_subperm.append (Stmt.ids_subperm_all rest)

theorem FunDecl.ids_subperm : ∀ f : FunDecl,
    (f.id :: f.nodes.map Node.id).Subperm f.lineage.ids
  | .mk _ _ _ body => (List.subperm_cons _).mpr (Stmt.ids_subperm_all body)

theorem FunDecl.ids_subperm_all : ∀ fs : List FunDecl,
    ((FunDecl.nodesAll fs).map Node.id).Subperm (Lineage.idsAll (FunDecl.lineages fs))
  | [] => .refl _
  | f :: rest => by
      rw [FunDecl.nodesAll, List.map_append]
      have hf := (List.sublist_cons_self f.id _).subperm.trans f.ids_subperm
      exact hf.append (FunDecl.ids_subperm_all rest)

end

-- ==================================================================== trees

/-- What a text was read as. -/
inductive SyntaxTree where
  | program (body : List Stmt)
  | expression (e : Expr)

namespace SyntaxTree

def lineages : SyntaxTree → List Lineage
  | .program body => Stmt.lineages body
  | .expression e => [e.lineage]

/-- The numbers of all nodes. -/
def ids (tree : SyntaxTree) : List NodeId := Lineage.idsAll tree.lineages

/-- Every node has a larger number than each of its parts. -/
def Ascends (tree : SyntaxTree) : Prop := Lineage.AscendsAll tree.lineages

def references : SyntaxTree → List Reference
  | .program body => Stmt.referencesAll body
  | .expression e => e.references

theorem idsAll_flatMap (trees : List SyntaxTree) :
    Lineage.idsAll (trees.flatMap lineages) = trees.flatMap ids := by
  rw [Lineage.idsAll_eq_flatMap, List.flatMap_assoc]
  exact List.flatMap_congr fun tree _ => (Lineage.idsAll_eq_flatMap _).symm

/-- References are among the nodes. -/
theorem references_subperm (tree : SyntaxTree) :
    (tree.references.map Reference.id).Subperm tree.ids := by
  cases tree with
  | program body =>
      have hnodes := Node.sublist_ids (Stmt.nodesAll body)
      have hperm := (Stmt.references_perm_all body).map Reference.id
      exact (hperm.subperm.trans hnodes.subperm).trans (Stmt.ids_subperm_all body)
  | expression e =>
      have hnodes := Node.sublist_ids e.nodes
      have hperm := e.references_perm.map Reference.id
      have hids : (e.nodes.map Node.id).Perm (Lineage.idsAll [e.lineage]) := by
        simpa using e.ids_perm
      exact (hperm.subperm.trans hnodes.subperm).trans hids.subperm

theorem references_subperm_all (trees : List SyntaxTree) :
    ((trees.flatMap references).map Reference.id).Subperm (trees.flatMap ids) := by
  induction trees with
  | nil => exact .refl _
  | cons tree rest ih =>
      rw [List.flatMap_cons, List.flatMap_cons, List.map_append]
      exact tree.references_subperm.append ih

end SyntaxTree

theorem nodup_of_subperm {ids more : List NodeId} (h : ids.Subperm more) (hmore : more.Nodup) :
    ids.Nodup := by
  obtain ⟨kept, hperm, hsub⟩ := h
  exact hperm.nodup_iff.mp (hmore.sublist hsub)

-- ================================================================= readings

/-- The program in a text, if it is one. -/
def program? (text : List Char) (nextId : NodeId) : Option SyntaxTree :=
  (readProgram text nextId).program.toOption.map .program

/-- The nodes of the program are built while the text is read. -/
theorem built_program (text : List Char) (nextId : NodeId) :
    Built nextId (readProgram text nextId).nextId
      ((program? text nextId).toList.flatMap SyntaxTree.lineages) := by
  unfold program?
  cases h : (readProgram text nextId).program with
  | error faults => exact .nil (le_readProgram text nextId)
  | ok body =>
      obtain ⟨t, hrun, hclean, hids⟩ := exists_run_of_program h
      have hbuilt := (Parser.Makes.program _).holds hrun (congrArg List.length hclean) nextId
        (.nil (Nat.le_refl _))
      rw [hids]
      simpa [Except.toOption, SyntaxTree.lineages] using hbuilt

/-- The nodes of an expression are built while the text is read. -/
theorem built_expression {text : List Char} {nextId : NodeId} {e : Expr}
    (h : (readExpression text nextId).result = .ok e) :
    Built nextId (readExpression text nextId).nextId [e.lineage] := by
  obtain ⟨t, hrun, hclean, hids⟩ := exists_run_of_expression h
  rw [hids]
  exact (Parser.Makes.singleExpression _).holds hrun (congrArg List.length hclean) nextId
    (.nil (Nat.le_refl _))

namespace Prompt

/-- What a line is read as that runs: the program that prints its value, or else a program. -/
def lineTree? (s : Session) (line : List Char) : Option SyntaxTree :=
  match printed? s line with
  | (some body, _) => some (.program body)
  | (none, s) => program? line s.nextId

/-- What a line at the prompt is read as. -/
def tree? (s : Session) (line : List Char) : Option SyntaxTree :=
  let s := s.hush
  match Request.ofLine line with
  | .showTree text | .showDistances text => program? text s.nextId
  | .showGlobals => none
  | .run text => lineTree? s text

end Prompt

namespace Session

-- ============================================================== the counter

theorem read_nextId (s : Session) (text : List Char) (label : String) :
    (s.read text label).2.nextId = (readProgram text s.nextId).nextId := by
  unfold Session.read
  dsimp only
  cases (readProgram text s.nextId).program <;> rfl

theorem resolve_nextId (s : Session) (body : List Stmt) :
    (s.resolve body).2.nextId = s.nextId := by
  unfold Session.resolve
  dsimp only
  split <;> rfl

/-- Running a program makes no nodes. -/
theorem runTree_nextId (s : Session) (body : List Stmt) :
    (s.runTree body).2.nextId = s.nextId := by
  have hresolve := s.resolve_nextId body
  unfold Session.runTree
  split
  · rename_i outcome resolved heq
    rw [heq] at hresolve
    exact hresolve
  · rename_i survey resolved heq
    rw [heq] at hresolve
    dsimp only
    rw [perform_eq]
    exact hresolve

theorem run_nextId (s : Session) (text : List Char) (label : String) :
    (s.run text label).2.nextId = (readProgram text s.nextId).nextId := by
  have hread := s.read_nextId text label
  unfold Session.run
  split
  · rename_i outcome read heq
    rw [heq] at hread
    exact hread
  · rename_i body read heq
    rw [heq] at hread
    exact (read.runTree_nextId body).trans hread

theorem survey_nextId (s : Session) (text : List Char) :
    (Prompt.survey s text).2.nextId = (readProgram text s.nextId).nextId := by
  have hread := s.read_nextId text Prompt.label
  unfold Prompt.survey
  split
  · rename_i outcome read heq
    rw [heq] at hread
    exact hread
  · rename_i body read heq
    rw [heq] at hread
    exact (read.resolve_nextId body).trans hread

end Session

namespace Prompt

/-- The value that is printed is built with the printing statement around it. -/
theorem built_printed? (s : Session) (line : List Char) :
    Built s.nextId (printed? s line).2.nextId
      ((printed? s line).1.toList.flatMap Stmt.lineages) := by
  unfold printed?
  split
  · exact .nil (Nat.le_refl _)
  · dsimp only
    cases h : (readExpression line s.nextId).result with
    | error failure => exact .nil (le_readExpression line s.nextId)
    | ok e =>
        have hparts : Built s.nextId _ ([e.lineage] ++ []) := built_expression h
        exact hparts.node

/-- A line that runs is read in two ways if need be, and what the first took stays taken. -/
theorem built_lineTree? (s : Session) (line : List Char) :
    Built s.nextId (runLine s line).2.nextId
      ((lineTree? s line).toList.flatMap SyntaxTree.lineages) := by
  have hprinted := built_printed? s line
  unfold runLine lineTree?
  generalize printed? s line = printed at hprinted ⊢
  obtain ⟨found, next⟩ := printed
  cases found with
  | some body =>
      dsimp only
      rw [Session.runTree_nextId]
      simpa [SyntaxTree.lineages] using hprinted
  | none =>
      dsimp only
      rw [Session.run_nextId]
      exact hprinted.append (built_program line next.nextId)

theorem built_tree? (s : Session) (line : List Char) :
    Built s.nextId (answer s line).2.nextId
      ((tree? s line).toList.flatMap SyntaxTree.lineages) := by
  unfold answer tree?
  dsimp only
  cases Request.ofLine line with
  | showTree text =>
      dsimp only
      rw [Session.listing_snd, Session.read_nextId]
      exact built_program text s.nextId
  | showDistances text =>
      dsimp only
      rw [Session.listing_snd, Session.survey_nextId]
      exact built_program text s.nextId
  | showGlobals => exact .nil (Nat.le_refl _)
  | run text => exact built_lineTree? s.hush text

end Prompt

-- ================================================================ processes

/-- A text, and the way in which it is read. -/
inductive Input where
  | program (text : List Char)
  | expression (text : List Char)
  /-- A line at the prompt, which is answered too. -/
  | line (text : List Char)

namespace Session

/-- Reads an input. What cannot be read brings no tree. -/
def parse (s : Session) : Input → Option SyntaxTree × Session
  | .program text => (program? text s.nextId, (s.read text Prompt.label).2)
  | .expression text =>
    let reading := readExpression text s.nextId
    (reading.result.toOption.map .expression, { s with nextId := reading.nextId })
  | .line text => (Prompt.tree? s text, (Prompt.answer s text).2)

/-- Reads one input after the other. -/
def parseAll (s : Session) : List Input → List SyntaxTree × Session
  | [] => ([], s)
  | input :: rest =>
    let (tree, s) := s.parse input
    let (trees, s) := s.parseAll rest
    (tree.toList ++ trees, s)

/-- A tree is built between the counts before and after its input. -/
theorem built_parse (s : Session) (input : Input) :
    Built s.nextId (s.parse input).2.nextId
      ((s.parse input).1.toList.flatMap SyntaxTree.lineages) := by
  cases input with
  | program text =>
      unfold parse
      dsimp only
      rw [read_nextId]
      exact built_program text s.nextId
  | expression text =>
      unfold parse
      dsimp only
      cases h : (readExpression text s.nextId).result with
      | error failure => exact .nil (le_readExpression text s.nextId)
      | ok e => exact built_expression h
  | line text => exact Prompt.built_tree? s text

/-- All trees of a process are built between its counts. -/
theorem built_parseAll (inputs : List Input) : ∀ s : Session,
    Built s.nextId (s.parseAll inputs).2.nextId
      ((s.parseAll inputs).1.flatMap SyntaxTree.lineages) := by
  induction inputs with
  | nil => exact fun s => .nil (Nat.le_refl _)
  | cons input rest ih =>
      intro s
      have hall := (s.built_parse input).append (ih (s.parse input).2)
      rw [← List.flatMap_append] at hall
      exact hall

/-- Whatever is read later has the larger numbers. -/
theorem ordered_parseAll (inputs : List Input) : ∀ s : Session,
    (s.parseAll inputs).1.Pairwise fun earlier later =>
      ∀ id ∈ earlier.ids, ∀ id' ∈ later.ids, id < id' := by
  induction inputs with
  | nil => exact fun s => .nil
  | cons input rest ih =>
      intro s
      have hfirst := (s.built_parse input).numbers.range
      have hrest := (built_parseAll rest (s.parse input).2).numbers.range
      rw [SyntaxTree.idsAll_flatMap] at hfirst hrest
      have hlater := ih (s.parse input).2
      unfold parseAll
      generalize s.parse input = parsed at hfirst hrest hlater ⊢
      obtain ⟨tree, s'⟩ := parsed
      refine List.pairwise_append.mpr
        ⟨?_, hlater, fun tree htree later hlater id hid id' hid' => ?_⟩
      · cases tree with
        | none => exact .nil
        | some tree => exact List.pairwise_singleton _ _
      · have hbelow := hfirst id (List.mem_flatMap.mpr ⟨tree, htree, hid⟩)
        have habove := hrest id' (List.mem_flatMap.mpr ⟨later, hlater, hid'⟩)
        exact Nat.lt_of_lt_of_le hbelow.2 habove.1

end Session

-- ================================================================= listings

/-- An entry is listed by number and distance. -/
def distanceLine (entry : NodeId × Nat) : String :=
  s!"  node {entry.1} -> distance {entry.2}"

/-- The distances of a program belong to its references, and are listed in the order in which the
references were built. -/
structure Tabled (body : List Stmt) : Prop where
  keys : ∀ (id : NodeId) (distance : Nat), (resolveProgram body).distances[id]? = some distance →
    ∃ r ∈ Stmt.referencesAll body, r.id = id
  listed : ∃ rs : List Reference, rs.Perm (Stmt.referencesAll body)
    ∧ rs.Pairwise (fun r r' => r.id < r'.id)
    ∧ Prompt.distanceLines (resolveProgram body)
      = rs.filterMap fun r => ((resolveProgram body).distances[r.id]?).map fun distance =>
        distanceLine (r.id, distance)

/-- Two lists of entries in the order of their numbers are one if they have the same entries. -/
theorem eq_of_ordered {entries entries' : List (NodeId × Nat)}
    (h : entries.Pairwise fun a b => a.1 < b.1) (h' : entries'.Pairwise fun a b => a.1 < b.1)
    (same : ∀ entry, entry ∈ entries ↔ entry ∈ entries') : entries = entries' := by
  have hnodup : ∀ {es : List (NodeId × Nat)}, es.Pairwise (fun a b => a.1 < b.1) → es.Nodup :=
    fun hes => hes.imp fun hlt => by
      rintro rfl
      exact Nat.lt_irrefl _ hlt
  have hperm := (List.perm_ext_iff_of_nodup (hnodup h) (hnodup h')).mpr same
  exact hperm.eq_of_pairwise (fun _ _ _ _ hlt hgt => absurd hgt (Nat.lt_asymm hlt)) h h'

/-- Only references have distances. -/
theorem exists_mem_references {body : List Stmt} {id : NodeId} {distance : Nat}
    (h : (resolveProgram body).distances[id]? = some distance) :
    ∃ r ∈ Stmt.referencesAll body, r.id = id := by
  obtain ⟨n, hn, rfl, hreference⟩ := exists_reference_of_distances h
  obtain ⟨r, hr⟩ := Option.isSome_iff_exists.mp hreference
  have hmem := List.mem_filterMap.mpr ⟨n, hn, hr⟩
  exact ⟨r, (Stmt.references_perm_all body).mem_iff.mpr hmem, Node.id_of_asReference hr⟩

/-- References in the order in which they were built. -/
def Reference.inOrder (rs : List Reference) : List Reference :=
  rs.mergeSort fun r r' => r.id ≤ r'.id

theorem Reference.perm_inOrder (rs : List Reference) : (inOrder rs).Perm rs :=
  List.mergeSort_perm _ _

/-- References with numbers of their own are strictly in order. -/
theorem Reference.pairwise_inOrder {rs : List Reference} (h : (rs.map Reference.id).Nodup) :
    (inOrder rs).Pairwise fun r r' => r.id < r'.id := by
  have hsorted : (inOrder rs).Pairwise fun r r' => r.id ≤ r'.id := by
    refine (List.pairwise_mergeSort (fun a b c hab hbc => ?_) (fun a b => ?_) _).imp
      fun hle => of_decide_eq_true hle
    · exact decide_eq_true (Nat.le_trans (of_decide_eq_true hab) (of_decide_eq_true hbc))
    · simpa using Nat.le_total a.id b.id
  have hdistinct : (inOrder rs).Pairwise fun r r' => r.id ≠ r'.id :=
    List.pairwise_map.mp (((perm_inOrder rs).map Reference.id).nodup_iff.mpr h)
  exact hsorted.imp₂ (fun _ _ hle hne => Nat.lt_of_le_of_ne hle hne) hdistinct

/-- The entry that a reference has in a table. -/
def Reference.row? (table : Distances) (r : Reference) : Option (NodeId × Nat) :=
  (table[r.id]?).map fun distance => (r.id, distance)

theorem Reference.row?_eq_some {table : Distances} {r : Reference} {id : NodeId}
    {distance : Nat} :
    r.row? table = some (id, distance) ↔ r.id = id ∧ table[id]? = some distance := by
  simp only [row?, Option.map_eq_some_iff, Prod.mk.injEq]
  constructor
  · rintro ⟨_, hr, rfl, rfl⟩
    exact ⟨rfl, hr⟩
  · rintro ⟨rfl, hr⟩
    exact ⟨distance, hr, rfl, rfl⟩

/-- A table whose numbers are those of references has the entries of these, in their order. -/
theorem Distances.toList_eq_filterMap {table : Distances} {rs : List Reference}
    (hrs : rs.Pairwise fun r r' => r.id < r'.id)
    (hkeys : ∀ id distance, table[id]? = some distance → ∃ r ∈ rs, r.id = id) :
    table.toList = rs.filterMap (Reference.row? table) := by
  refine eq_of_ordered ?_ ?_ fun (id, distance) => ?_
  · exact Std.TreeMap.ordered_keys_toList.imp fun hlt => Nat.compare_eq_lt.mp hlt
  · refine List.pairwise_filterMap.mpr (hrs.imp fun hlt (id, _) he (id', _) he' => ?_)
    rw [(Reference.row?_eq_some.mp he).1, (Reference.row?_eq_some.mp he').1] at hlt
    exact hlt
  · rw [Std.TreeMap.mem_toList_iff_getElem?_eq_some, List.mem_filterMap]
    constructor
    · intro hdistance
      obtain ⟨r, hr, rfl⟩ := hkeys id distance hdistance
      exact ⟨r, hr, Reference.row?_eq_some.mpr ⟨rfl, hdistance⟩⟩
    · rintro ⟨r, -, hr⟩
      exact (Reference.row?_eq_some.mp hr).2

theorem tabled_of_nodup {body : List Stmt}
    (h : ((Stmt.referencesAll body).map Reference.id).Nodup) : Tabled body := by
  have hperm := Reference.perm_inOrder (Stmt.referencesAll body)
  have hstrict := Reference.pairwise_inOrder h
  refine ⟨fun _ _ => exists_mem_references, _, hperm, hstrict, ?_⟩
  have hentries := Distances.toList_eq_filterMap hstrict fun id distance hdistance => by
    obtain ⟨r, hr, hid⟩ := exists_mem_references hdistance
    exact ⟨r, hperm.mem_iff.mpr hr, hid⟩
  have hlines : Prompt.distanceLines (resolveProgram body)
      = (resolveProgram body).distances.toList.map distanceLine := rfl
  rw [hlines, hentries, List.map_filterMap]
  refine List.filterMap_congr fun r _ => ?_
  rw [Reference.row?, Option.map_map]
  rfl

/-- **Numbers are handed out once and in order.** In whatever way a process reads its inputs one
after the other, and whichever of them it refuses, no two nodes of its trees share a number, a node
has a larger one than its parts, and a later tree has larger ones than an earlier. So no reference
of any program shares its entry in the table, and a listing shows its references in the order in
which they were built. -/
theorem numbered_in_order (s : Session) (inputs : List Input) :
    let trees := (s.parseAll inputs).1
    (trees.flatMap SyntaxTree.ids).Nodup
      ∧ (∀ tree ∈ trees, tree.Ascends)
      ∧ (trees.Pairwise fun earlier later => ∀ id ∈ earlier.ids, ∀ id' ∈ later.ids, id < id')
      ∧ ((trees.flatMap SyntaxTree.references).map Reference.id).Nodup
      ∧ ∀ body, .program body ∈ trees → Tabled body := by
  intro trees
  have hbuilt := Session.built_parseAll inputs s
  have hnodup : (trees.flatMap SyntaxTree.ids).Nodup := by
    rw [← SyntaxTree.idsAll_flatMap]
    exact hbuilt.numbers.distinct
  refine ⟨hnodup, fun tree htree => ?_, Session.ordered_parseAll inputs s,
    nodup_of_subperm (SyntaxTree.references_subperm_all trees) hnodup, fun body hbody => ?_⟩
  · exact Lineage.ascendsAll_iff.mpr fun l hl =>
      hbuilt.ascends l (List.mem_flatMap.mpr ⟨tree, htree, hl⟩)
  · have htree := (List.nodup_flatMap.mp hnodup).1 _ hbody
    exact tabled_of_nodup (nodup_of_subperm (SyntaxTree.program body).references_subperm htree)

end Lox
