/-
References and where they stand. The list of references (`Stmt.referencesAll`) holds
every node that refers to something, and each of them once (`Stmt.references_perm`).

A mention is a reference with the constructs it lies in, the innermost first. A block
or a function among them goes as far as the statement that the reference is part of:
a name is in sight inside of the statement that declares it. How far out a name is
declared can be told from that alone (`Lexical.DeclaredAt`).
-/
import Lox.Proofs.Binding.Spot
import Lox.Syntax.References

namespace Lox

-- ================================================================ references

/-- A node as a reference, if it refers to something. -/
def Node.asReference : Node → Option Reference
  | .expression (.var id name) => some ⟨.name, id, name⟩
  | .expression (.assign id name _) => some ⟨.assignment, id, name⟩
  | .expression (.this id keyword) => some ⟨.this, id, keyword⟩
  | .expression (.super id keyword _) => some ⟨.super, id, keyword⟩
  | _ => none

mutual

/-- The references of an expression are its nodes that refer to something. -/
theorem Expr.references_perm : ∀ e : Expr,
    e.references.Perm (e.nodes.filterMap Node.asReference)
  | .literal .. | .var .. | .this .. | .super .. => .refl _
  | .assign _ _ value => value.references_perm.cons _
  | .binary _ left _ right | .logical _ left _ right => by
      simp only [Expr.references, Expr.nodes, List.filterMap_cons, Node.asReference,
        List.filterMap_append]
      exact left.references_perm.append right.references_perm
  | .unary _ _ operand => operand.references_perm
  | .grouping _ inner => inner.references_perm
  | .call _ callee _ arguments => by
      simp only [Expr.references, Expr.nodes, List.filterMap_cons, Node.asReference,
        List.filterMap_append]
      exact callee.references_perm.append (Expr.references_perm_all arguments)
  | .get _ object _ => object.references_perm
  | .set _ object _ value => by
      simp only [Expr.references, Expr.nodes, List.filterMap_cons, Node.asReference,
        List.filterMap_append]
      -- The value is visited first, though the object is listed first.
      exact (object.references_perm.append value.references_perm).trans List.perm_append_comm

theorem Expr.references_perm_all : ∀ es : List Expr,
    (Expr.referencesAll es).Perm ((Expr.nodesAll es).filterMap Node.asReference)
  | [] => .nil
  | e :: rest => by
      rw [Expr.referencesAll, Expr.nodesAll, List.filterMap_append]
      exact e.references_perm.append (Expr.references_perm_all rest)

end

theorem Expr.references_perm_optional (o : Option Expr) :
    (Expr.referencesOptional o).Perm ((Expr.nodesOptional o).filterMap Node.asReference) := by
  cases o with
  | none => exact .nil
  | some e => exact e.references_perm

mutual

/-- The references of a statement are its nodes that refer to something. -/
theorem Stmt.references_perm : ∀ s : Stmt,
    s.references.Perm (s.nodes.filterMap Node.asReference)
  | .expression _ e | .print _ e => e.references_perm
  | .varDecl _ _ initializer => Expr.references_perm_optional initializer
  | .block _ body => Stmt.references_perm_all body
  | .ifThen _ condition thenBranch => by
      simp only [Stmt.references, Stmt.nodes, List.filterMap_cons, Node.asReference,
        List.filterMap_append]
      exact condition.references_perm.append thenBranch.references_perm
  | .ifElse _ condition thenBranch elseBranch => by
      simp only [Stmt.references, Stmt.nodes, List.filterMap_cons, Node.asReference,
        List.filterMap_append]
      exact (condition.references_perm.append thenBranch.references_perm).append
        elseBranch.references_perm
  | .whileLoop _ condition body => by
      simp only [Stmt.references, Stmt.nodes, List.filterMap_cons, Node.asReference,
        List.filterMap_append]
      exact condition.references_perm.append body.references_perm
  | .funDecl f => f.references_perm
  | .returnStmt _ _ value => Expr.references_perm_optional value
  | .classDecl _ _ none methods => FunDecl.references_perm_all methods
  | .classDecl _ _ (some parent) methods => (FunDecl.references_perm_all methods).cons _

theorem Stmt.references_perm_all : ∀ body : List Stmt,
    (Stmt.referencesAll body).Perm ((Stmt.nodesAll body).filterMap Node.asReference)
  | [] => .nil
  | s :: rest => by
      rw [Stmt.referencesAll, Stmt.nodesAll, List.filterMap_append]
      exact s.references_perm.append (Stmt.references_perm_all rest)

theorem FunDecl.references_perm : ∀ f : FunDecl,
    f.references.Perm (f.nodes.filterMap Node.asReference)
  | .mk _ _ _ body => Stmt.references_perm_all body

theorem FunDecl.references_perm_all : ∀ fs : List FunDecl,
    (FunDecl.referencesAll fs).Perm ((FunDecl.nodesAll fs).filterMap Node.asReference)
  | [] => .nil
  | f :: rest => by
      rw [FunDecl.referencesAll, FunDecl.nodesAll, List.filterMap_append]
      exact f.references_perm.append (FunDecl.references_perm_all rest)

end

/-- The nodes that refer to something. -/
theorem Node.asReference_cases {n : Node} {r : Reference} (h : n.asReference = some r) :
    (∃ id name, n = .expression (.var id name) ∧ r = ⟨.name, id, name⟩)
      ∨ (∃ id name value, n = .expression (.assign id name value) ∧ r = ⟨.assignment, id, name⟩)
      ∨ (∃ id keyword, n = .expression (.this id keyword) ∧ r = ⟨.this, id, keyword⟩)
      ∨ ∃ id keyword method, n = .expression (.super id keyword method)
        ∧ r = ⟨.super, id, keyword⟩ := by
  cases n with
  | statement s => cases h
  | expression e =>
      cases e with
      | var id name =>
          cases h
          exact .inl ⟨id, name, rfl, rfl⟩
      | assign id name value =>
          cases h
          exact .inr (.inl ⟨id, name, value, rfl, rfl⟩)
      | this id keyword =>
          cases h
          exact .inr (.inr (.inl ⟨id, keyword, rfl, rfl⟩))
      | super id keyword method =>
          cases h
          exact .inr (.inr (.inr ⟨id, keyword, method, rfl, rfl⟩))
      | _ => cases h

theorem Node.id_of_asReference {n : Node} {r : Reference} (h : n.asReference = some r) :
    r.id = n.id := by
  rcases n.asReference_cases h with
    ⟨_, _, rfl, rfl⟩ | ⟨_, _, _, rfl, rfl⟩ | ⟨_, _, rfl, rfl⟩ | ⟨_, _, _, rfl, rfl⟩
  all_goals rfl

-- ================================================================== mentions

/-- A reference and the constructs it lies in. -/
structure Mention where
  reference : Reference
  inside : Lexical

/-- The references of an expression all stand at one place. -/
def Expr.mentions (inside : Lexical) (e : Expr) : List Mention :=
  e.references.map fun r => ⟨r, inside⟩

def Expr.mentionsOptional (inside : Lexical) : Option Expr → List Mention
  | none => []
  | some e => e.mentions inside

/-- The name of a superclass stands where its class does. -/
def NameRef.mentions (inside : Lexical) : Option NameRef → List Mention
  | none => []
  | some parent => [⟨⟨.name, parent.id, parent.name⟩, inside⟩]

mutual

/-- The mentions in a statement that has been taken into the constructs around it. -/
def Stmt.mentions (inside : Lexical) : Stmt → List Mention
  | .expression _ e => e.mentions inside
  | .print _ e => e.mentions inside
  | .varDecl _ _ initializer => Expr.mentionsOptional inside initializer
  | .block _ body => Stmt.mentionsAll (.block [] :: inside) body
  | .ifThen _ condition thenBranch => condition.mentions inside ++ thenBranch.mentions inside
  | .ifElse _ condition thenBranch elseBranch =>
    condition.mentions inside ++ thenBranch.mentions inside ++ elseBranch.mentions inside
  | .whileLoop _ condition body => condition.mentions inside ++ body.mentions inside
  | .funDecl f => f.mentions (Enclosing.function f) inside
  | .returnStmt _ _ value => Expr.mentionsOptional inside value
  | .classDecl _ _ superclass methods =>
    NameRef.mentions inside superclass ++ FunDecl.mentionsAll (.classBody superclass :: inside) methods

/-- The mentions in statements: in each of them the names of those before it and its own are in
sight. -/
def Stmt.mentionsAll (inside : Lexical) : List Stmt → List Mention
  | [] => []
  | s :: rest => s.mentions (inside.past s) ++ Stmt.mentionsAll (inside.past s) rest

/-- The mentions in the body of a function; `own` is the function as a construct around them. -/
def FunDecl.mentions (own : List Token → List Stmt → Enclosing) (inside : Lexical) :
    FunDecl → List Mention
  | .mk _ _ params body => Stmt.mentionsAll (own params [] :: inside) body

def FunDecl.mentionsAll (inside : Lexical) : List FunDecl → List Mention
  | [] => []
  | f :: rest => f.mentions (Enclosing.method f) inside ++ FunDecl.mentionsAll inside rest

end

/-- The mentions of a program. -/
def programMentions (body : List Stmt) : List Mention := Stmt.mentionsAll [] body

theorem Expr.map_reference_mentions (inside : Lexical) (e : Expr) :
    (e.mentions inside).map Mention.reference = e.references := by
  unfold Expr.mentions
  rw [List.map_map]
  exact List.map_id _

theorem Expr.map_reference_mentionsOptional (inside : Lexical) (o : Option Expr) :
    (Expr.mentionsOptional inside o).map Mention.reference = Expr.referencesOptional o := by
  cases o with
  | none => rfl
  | some e => exact e.map_reference_mentions inside

mutual

/-- Every reference of a statement is mentioned where it is listed. -/
theorem Stmt.map_reference_mentions (inside : Lexical) :
    ∀ s : Stmt, (s.mentions inside).map Mention.reference = s.references
  | .expression _ e | .print _ e => e.map_reference_mentions inside
  | .varDecl _ _ initializer => Expr.map_reference_mentionsOptional inside initializer
  | .block _ body => Stmt.map_reference_mentionsAll (.block [] :: inside) body
  | .ifThen _ condition thenBranch => by
      rw [Stmt.mentions, List.map_append, condition.map_reference_mentions,
        thenBranch.map_reference_mentions, Stmt.references]
  | .ifElse _ condition thenBranch elseBranch => by
      rw [Stmt.mentions, List.map_append, List.map_append, condition.map_reference_mentions,
        thenBranch.map_reference_mentions, elseBranch.map_reference_mentions, Stmt.references]
  | .whileLoop _ condition body => by
      rw [Stmt.mentions, List.map_append, condition.map_reference_mentions,
        body.map_reference_mentions, Stmt.references]
  | .funDecl f => f.map_reference_mentions (Enclosing.function f) inside
  | .returnStmt _ _ value => Expr.map_reference_mentionsOptional inside value
  | .classDecl _ _ none methods => FunDecl.map_reference_mentionsAll (.classBody none :: inside) methods
  | .classDecl _ _ (some parent) methods =>
      congrArg (_ :: ·) (FunDecl.map_reference_mentionsAll (.classBody (some parent) :: inside) methods)

theorem Stmt.map_reference_mentionsAll (inside : Lexical) : ∀ body : List Stmt,
    (Stmt.mentionsAll inside body).map Mention.reference = Stmt.referencesAll body
  | [] => rfl
  | s :: rest => by
      rw [Stmt.mentionsAll, List.map_append, s.map_reference_mentions,
        Stmt.map_reference_mentionsAll _ rest, Stmt.referencesAll]

theorem FunDecl.map_reference_mentions (own : List Token → List Stmt → Enclosing)
    (inside : Lexical) :
    ∀ f : FunDecl, (f.mentions own inside).map Mention.reference = f.references
  | .mk _ _ params body => Stmt.map_reference_mentionsAll (own params [] :: inside) body

theorem FunDecl.map_reference_mentionsAll (inside : Lexical) : ∀ fs : List FunDecl,
    (FunDecl.mentionsAll inside fs).map Mention.reference = FunDecl.referencesAll fs
  | [] => rfl
  | f :: rest => by
      rw [FunDecl.mentionsAll, List.map_append, f.map_reference_mentions,
        FunDecl.map_reference_mentionsAll inside rest, FunDecl.referencesAll]

end

-- ========================================================= what is declared where

namespace Enclosing

/-- The names that a block or function declares as far as it goes, its parameters among them. -/
def names : Enclosing → List Token
  | .block before => before.filterMap Stmt.declares
  | .function _ params before | .method _ params before =>
    params ++ before.filterMap Stmt.declares
  | .classBody _ | .initializer _ => []

def Declares (c : Enclosing) (name : String) : Prop := ∃ t ∈ c.names, t.lexeme = name

/-- How many scopes a construct is: a class has one for `this`, and one around it for `super` if there
is a superclass. -/
def scopes : Enclosing → Nat
  | .block _ | .function .. | .method .. => 1
  | .classBody none => 1
  | .classBody (some _) => 2
  | .initializer _ => 0

end Enclosing

/-- How many scopes some constructs are. -/
def Lexical.depth : Lexical → Nat
  | [] => 0
  | c :: outer => c.scopes + depth outer

/-- The innermost construct that declares a name is that many scopes out. -/
def Lexical.DeclaredAt (inside : Lexical) (name : String) (distance : Nat) : Prop :=
  ∃ inner c outer, inside = inner ++ c :: outer ∧ c.Declares name ∧ (∀ x ∈ inner, ¬ x.Declares name)
    ∧ distance = depth inner

/-- A name is declared by the innermost construct or else further out. -/
theorem Lexical.declaredAt_cons {c : Enclosing} {outer : Lexical} {name : String} {distance : Nat} :
    DeclaredAt (c :: outer) name distance
      ↔ c.Declares name ∧ distance = 0
        ∨ ¬ c.Declares name ∧ ∃ k, outer.DeclaredAt name k ∧ distance = c.scopes + k := by
  constructor
  · rintro ⟨inner, c', outer', hsplit, hdeclares, hinner, rfl⟩
    cases inner with
    | nil =>
        cases hsplit
        exact .inl ⟨hdeclares, rfl⟩
    | cons first inner =>
        cases hsplit
        obtain ⟨hfirst, hrest⟩ := List.forall_mem_cons.mp hinner
        exact .inr ⟨hfirst, _, ⟨inner, c', outer', rfl, hdeclares, hrest, rfl⟩, rfl⟩
  · rintro (⟨hdeclares, rfl⟩ | ⟨hfirst, _, ⟨inner, c', outer', rfl, hdeclares, hinner, rfl⟩, rfl⟩)
    · exact ⟨[], c, outer, rfl, hdeclares, nofun, rfl⟩
    · exact ⟨c :: inner, c', outer', rfl, hdeclares, List.forall_mem_cons.mpr ⟨hfirst, hinner⟩, rfl⟩

/-- A name is declared somewhere if some construct declares it. -/
theorem Lexical.exists_declaredAt_iff {inside : Lexical} {name : String} :
    (∃ distance, inside.DeclaredAt name distance) ↔ ∃ c ∈ inside, c.Declares name := by
  induction inside with
  | nil =>
      constructor
      · rintro ⟨_, inner, c, outer, hsplit, -⟩
        cases inner <;> cases hsplit
      · rintro ⟨c, hc, -⟩
        cases hc
  | cons c outer ih =>
      have houtside : (∃ x ∈ c :: outer, x.Declares name)
          ↔ c.Declares name ∨ ∃ distance, DeclaredAt outer name distance := by
        simp only [List.mem_cons, exists_eq_or_imp, ih]
      rw [houtside]
      constructor
      · rintro ⟨distance, h⟩
        rcases declaredAt_cons.mp h with ⟨hc, -⟩ | ⟨-, k, hk, -⟩
        · exact .inl hc
        · exact .inr ⟨k, hk⟩
      · intro h
        by_cases hc : c.Declares name
        · exact ⟨0, declaredAt_cons.mpr (.inl ⟨hc, rfl⟩)⟩
        · obtain ⟨k, hk⟩ := h.resolve_left hc
          exact ⟨c.scopes + k, declaredAt_cons.mpr (.inr ⟨hc, k, hk, rfl⟩)⟩

end Lox
