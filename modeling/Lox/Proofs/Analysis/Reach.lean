/-
How far out names are declared, and how far out the resolver finds them. At every
mention the scopes of the resolver are those of the constructs around the mention
(`Mention.Met`), one for each block and function and one or two for a class. So the
distance to the scope that binds a name is the number of scopes inside of the
construct that declares it (`Lexical.Matches.distance?_eq_iff`).
-/
import Lox.Proofs.Analysis.Mention
import Lox.Proofs.Binding.Legal

namespace Lox

-- =========================================================== scopes of constructs

/-- A scope for a construct: it binds what the construct declares. -/
structure Scope.Of (scope : Scope) (c : Enclosing) : Prop where
  single : c.scopes = 1
  binds (name : String) : scope.binds name = true ↔ c.Declares name

theorem Lexical.anyNamed_iff {names : List Token} {name : String} :
    anyNamed names name = true ↔ ∃ t ∈ names, t.lexeme = name := by
  unfold anyNamed
  rw [List.any_eq_true]
  exact exists_congr fun t => and_congr_right fun _ => beq_iff_eq

theorem Scope.Knows.of {scope : Scope} {c : Enclosing} (h : scope.Knows c.names)
    (hsingle : c.scopes = 1) : scope.Of c := by
  refine ⟨hsingle, fun name => ?_⟩
  rw [h.binds_eq, Lexical.anyNamed_iff]
  exact .rfl

/-- The scopes of the resolver are those of the constructs around a place. -/
inductive Lexical.Matches : Lexical → Scopes → Prop
  | top : Matches [] []
  | scope {outer : Lexical} {scopes : Scopes} {c : Enclosing} {scope : Scope} (of : scope.Of c)
      (around : Matches outer scopes) : Matches (c :: outer) (scope :: scopes)
  | methods {outer : Lexical} {scopes : Scopes} (superclass : Option NameRef)
      (around : Matches outer scopes) :
      Matches (.classBody superclass :: outer) (scopes.ofMethods superclass)

/-- At a class nothing but `this` and `super` comes in sight. -/
theorem Scopes.distance?_ofMethods (scopes : Scopes) (superclass : Option NameRef) {name : String}
    (hthis : name ≠ "this") (hsuper : name ≠ "super") :
    (scopes.ofMethods superclass).distance? name
      = (scopes.distance? name).map (· + (Enclosing.classBody superclass).scopes) := by
  have hholding : ∀ {word : String}, name ≠ word →
      Bindings.binds (Scope.holding word) name = false := by
    intro word hne
    unfold Scope.holding Bindings.binds
    rw [Bindings.find?_set_of_ne _ hne.symm]
    rfl
  cases superclass with
  | none =>
      rw [ofMethods, distance?_cons, hholding hthis]
      rfl
  | some parent =>
      rw [ofMethods, distance?_cons, distance?_cons, hholding hthis, hholding hsuper]
      cases scopes.distance? name <;> rfl

namespace Lexical

variable {inside : Lexical} {scopes : Scopes}

theorem Describes.of {c : Enclosing} {outer : Lexical} {scope : Scope}
    (h : Describes (c :: outer) (scope :: scopes)) : scope.Of c := by
  cases h with
  | block knows => exact Scope.Knows.of knows rfl
  | function knows => exact Scope.Knows.of knows rfl
  | method knows => exact Scope.Knows.of knows rfl

/-- **A name is bound as far out as it is declared.** -/
theorem Matches.distance?_eq_iff (h : inside.Matches scopes) {name : String} (hthis : name ≠ "this")
    (hsuper : name ≠ "super") {distance : Nat} :
    scopes.distance? name = some distance ↔ inside.DeclaredAt name distance := by
  induction h generalizing distance with
  | top =>
      constructor
      · rintro ⟨⟩
      · rintro ⟨inner, c, outer, hsplit, -⟩
        cases inner <;> cases hsplit
  | @scope outer scopes c scope of around ih =>
      rw [Scopes.distance?_cons, declaredAt_cons, of.single]
      by_cases hc : c.Declares name
      · rw [if_pos ((of.binds name).mpr hc)]
        simp [hc, eq_comm]
      · rw [if_neg fun hb => hc ((of.binds name).mp hb)]
        simp only [hc, false_and, not_false_eq_true, true_and, false_or, Option.map_eq_some_iff, ih]
        exact exists_congr fun k => and_congr_right fun _ => by omega
  | @methods outer scopes superclass around ih =>
      have hc : ¬ (Enclosing.classBody superclass).Declares name := by
        rintro ⟨t, ht, -⟩
        cases ht
      rw [Scopes.distance?_ofMethods _ _ hthis hsuper, declaredAt_cons]
      simp only [hc, false_and, not_false_eq_true, true_and, false_or, Option.map_eq_some_iff, ih]
      exact exists_congr fun k => and_congr_right fun _ => by omega

/-- A place among statements, with the scopes of the resolver there. -/
structure Stands (inside : Lexical) (scopes : Scopes) : Prop where
  describes : inside.Describes scopes
  matching : inside.Matches scopes

namespace Stands

theorem top : Stands [] [] := ⟨.top, .top⟩

theorem block (h : inside.Matches scopes) : Stands (.block [] :: inside) (.empty :: scopes) :=
  have hblock : Describes (.block [] :: inside) (.empty :: scopes) := .block .empty
  ⟨hblock, .scope hblock.of h⟩

/-- Behind a statement the innermost scope is that of the innermost construct again. -/
theorem past (h : inside.Stands scopes) (s : Stmt) : (inside.past s).Stands (scopes.behind s) := by
  have hpast := h.describes.past s
  refine ⟨hpast, ?_⟩
  obtain ⟨hdescribes, hmatching⟩ := h
  cases hdescribes with
  | top =>
      rw [Scopes.behind_nil]
      exact .top
  | block | function | method =>
      obtain ⟨scope', hscope⟩ := Scopes.exists_behind_cons _ _ s
      rw [hscope] at hpast ⊢
      cases hmatching with
      | scope _ around => exact .scope hpast.of around

/-- A name that is only declared is in sight already. -/
theorem declare {name : Token} (h : inside.Stands (scopes.introduce name).1) :
    inside.Matches (scopes.declare name).1 := by
  cases scopes with
  | nil => exact h.matching
  | cons scope outer =>
      obtain ⟨hdescribes, hmatching⟩ := h
      rw [Scopes.introduce_cons] at hdescribes hmatching
      have hsame : ∀ other, Bindings.binds (scope.set name.lexeme false) other
          = Bindings.binds ((scope.set name.lexeme false).set name.lexeme true) other := by
        intro other
        unfold Bindings.binds
        rw [Bindings.find?_set _ _ other true]
        split
        · rename_i he
          rw [he, Bindings.find?_set_self]
          rfl
        · rfl
      cases hdescribes with
      | block | function | method =>
          cases hmatching with
          | scope of around =>
              refine .scope ⟨of.single, fun other => ?_⟩ around
              rw [hsame]
              exact of.binds other

/-- Within a function its parameters are in sight. -/
theorem own {own : List Token → List Stmt → Enclosing} {around : Surroundings}
    (hown : Enclosing.Own own inside around) (h : inside.Matches scopes) (params : List Token) :
    Stands (own params [] :: inside) (Scopes.introduceAll (.empty :: scopes) params).1 := by
  obtain ⟨-, scope, hscope, hknows⟩ :=
    Scopes.tells_introduceAll hown scopes Scope.Knows.empty params
  have hplain : scope.Knows (params ++ ([] : List Stmt).filterMap Stmt.declares) := by
    rw [List.filterMap_nil, List.append_nil]
    exact hknows
  have hdescribes := hown.describes scopes hplain
  rw [hscope]
  exact ⟨hdescribes, .scope hdescribes.of h⟩

end Stands

end Lexical

-- ============================================================== mentions, visited

/-- A mention is met at one of some visits, where the scopes are those of the constructs around it. -/
def Mention.Met (m : Mention) (visits : List Visit) : Prop :=
  ∃ v ∈ visits, v.node.asReference = some m.reference ∧ m.inside.Matches v.scopes

namespace Mention.Met

variable {m : Mention} {visits more : List Visit}

theorem left (h : m.Met visits) : m.Met (visits ++ more) :=
  h.imp fun _ hv => ⟨List.mem_append_left _ hv.1, hv.2⟩

theorem right (h : m.Met more) : m.Met (visits ++ more) :=
  h.imp fun _ hv => ⟨List.mem_append_right _ hv.1, hv.2⟩

theorem cons {v : Visit} (h : m.Met visits) : m.Met (v :: visits) :=
  h.imp fun _ hv => ⟨List.mem_cons_of_mem _ hv.1, hv.2⟩

end Mention.Met

section

variable {inside : Lexical} {scopes : Scopes} {around : Surroundings}

mutual

/-- Nothing within an expression changes the scopes. -/
theorem Expr.scopes_visits : ∀ e : Expr, ∀ v ∈ e.visits around scopes, v.scopes = scopes
  | .literal .., _, hv | .var .., _, hv | .this .., _, hv | .super .., _, hv => by
      rw [Expr.visits, List.mem_singleton] at hv
      rw [hv]
  | .assign _ _ a, v, hv | .unary _ _ a, v, hv | .grouping _ a, v, hv | .get _ a _, v, hv => by
      rw [Expr.visits] at hv
      rcases List.mem_cons.mp hv with rfl | hv
      · rfl
      · exact a.scopes_visits v hv
  | .binary _ a _ b, v, hv | .logical _ a _ b, v, hv | .set _ b _ a, v, hv => by
      rw [Expr.visits] at hv
      rcases List.mem_cons.mp hv with rfl | hv
      · rfl
      · rcases List.mem_append.mp hv with hv | hv
        · exact a.scopes_visits v hv
        · exact b.scopes_visits v hv
  | .call _ callee _ arguments, v, hv => by
      rw [Expr.visits] at hv
      rcases List.mem_cons.mp hv with rfl | hv
      · rfl
      · rcases List.mem_append.mp hv with hv | hv
        · exact callee.scopes_visits v hv
        · exact Expr.scopes_visitsAll arguments v hv

theorem Expr.scopes_visitsAll : ∀ es : List Expr,
    ∀ v ∈ Expr.visitsAll around scopes es, v.scopes = scopes
  | [], _, hv => by cases hv
  | e :: rest, v, hv => by
      rcases List.mem_append.mp hv with hv | hv
      · exact e.scopes_visits v hv
      · exact Expr.scopes_visitsAll rest v hv

end

/-- The mentions of an expression are met where it is visited. -/
theorem Expr.met (h : inside.Matches scopes) (e : Expr) :
    ∀ m ∈ e.mentions inside, m.Met (e.visits around scopes) := by
  intro m hm
  obtain ⟨r, hr, rfl⟩ := List.mem_map.mp hm
  obtain ⟨n, hn, hreference⟩ := List.mem_filterMap.mp (e.references_perm.mem_iff.mp hr)
  rw [← e.map_node_visits around scopes] at hn
  obtain ⟨v, hv, rfl⟩ := List.mem_map.mp hn
  refine ⟨v, hv, hreference, ?_⟩
  rw [e.scopes_visits v hv]
  exact h

theorem Expr.met_optional (h : inside.Matches scopes) (o : Option Expr) :
    ∀ m ∈ Expr.mentionsOptional inside o, m.Met (Expr.visitsOptional around scopes o) := by
  cases o with
  | none => nofun
  | some e => exact e.met h

theorem NameRef.met (h : inside.Matches scopes) (name : Token) (superclass : Option NameRef) :
    ∀ m ∈ NameRef.mentions inside superclass, m.Met (NameRef.visits around scopes name superclass) := by
  cases superclass with
  | none => nofun
  | some parent =>
      intro m hm
      obtain rfl := List.mem_singleton.mp hm
      exact ⟨_, List.mem_singleton_self _, rfl, h⟩

end

mutual

/-- The mentions of a statement are met where it is visited. The statement is among those that the
place of its mentions lies behind. -/
theorem Stmt.met {inside : Lexical} {scopes : Scopes} {around : Surroundings} :
    ∀ s : Stmt, inside.Stands (scopes.behind s) → (∀ n ∈ s.nodes, n.Proper) →
      ∀ m ∈ s.mentions inside, m.Met (s.visits around scopes)
  | .expression _ e, h, _, m, hm | .print _ e, h, _, m, hm => (e.met h.matching m hm).cons
  | .varDecl _ _ initializer, h, _, m, hm => (Expr.met_optional h.declare initializer m hm).cons
  | .block _ body, h, hproper, m, hm => by
      have hnodes : ∀ n ∈ Stmt.nodesAll body, n.Proper := fun n hn =>
        hproper n (List.mem_cons_of_mem _ hn)
      exact (Stmt.met_all body (.block h.matching) hnodes m hm).cons
  | .ifThen id condition thenBranch, h, hproper, m, hm => by
      have hdeclares : thenBranch.declares = none :=
        hproper _ (Stmt.mem_nodes (.ifThen id condition thenBranch))
      have hthen : inside.Stands (scopes.behind thenBranch) := by
        rw [Scopes.behind_of_declares_none hdeclares]
        exact h
      have hnodes : ∀ n ∈ thenBranch.nodes, n.Proper := fun n hn =>
        hproper n (by simp [Stmt.nodes, hn])
      rcases List.mem_append.mp hm with hm | hm
      · exact (condition.met h.matching m hm).left.cons
      · exact (thenBranch.met hthen hnodes m hm).right.cons
  | .ifElse id condition thenBranch elseBranch, h, hproper, m, hm => by
      obtain ⟨hdeclares, hdeclares'⟩ : thenBranch.declares = none ∧ elseBranch.declares = none :=
        hproper _ (Stmt.mem_nodes (.ifElse id condition thenBranch elseBranch))
      have hthen : inside.Stands (scopes.behind thenBranch) := by
        rw [Scopes.behind_of_declares_none hdeclares]
        exact h
      have helse : inside.Stands (scopes.behind elseBranch) := by
        rw [Scopes.behind_of_declares_none hdeclares']
        exact h
      have hnodes : ∀ n ∈ thenBranch.nodes, n.Proper := fun n hn =>
        hproper n (by simp [Stmt.nodes, hn])
      have hnodes' : ∀ n ∈ elseBranch.nodes, n.Proper := fun n hn =>
        hproper n (by simp [Stmt.nodes, hn])
      rw [Stmt.visits, Stmt.scopes_resolve_of_declares_none hnodes hdeclares]
      rcases List.mem_append.mp hm with hm | hm
      · rcases List.mem_append.mp hm with hm | hm
        · exact (condition.met h.matching m hm).left.left.cons
        · exact (thenBranch.met hthen hnodes m hm).right.left.cons
      · exact (elseBranch.met helse hnodes' m hm).right.cons
  | .whileLoop id condition body, h, hproper, m, hm => by
      have hdeclares : body.declares = none :=
        hproper _ (Stmt.mem_nodes (.whileLoop id condition body))
      have hbody : inside.Stands (scopes.behind body) := by
        rw [Scopes.behind_of_declares_none hdeclares]
        exact h
      have hnodes : ∀ n ∈ body.nodes, n.Proper := fun n hn => hproper n (by simp [Stmt.nodes, hn])
      rcases List.mem_append.mp hm with hm | hm
      · exact (condition.met h.matching m hm).left.cons
      · exact (body.met hbody hnodes m hm).right.cons
  | .funDecl f, h, hproper, m, hm => by
      have hnodes : ∀ n ∈ f.nodes, n.Proper := fun n hn => hproper n (List.mem_cons_of_mem _ hn)
      exact (f.met (Enclosing.own_function f inside) h.matching hnodes _ m hm).cons
  | .returnStmt _ _ value, h, _, m, hm => (Expr.met_optional h.matching value m hm).cons
  | .classDecl id name superclass methods, h, hproper, m, hm => by
      have hnodes : ∀ n ∈ FunDecl.nodesAll methods, n.Proper := fun n hn =>
        hproper n (by simp [Stmt.nodes, hn])
      rcases List.mem_append.mp hm with hm | hm
      · exact (NameRef.met h.matching name superclass m hm).left.cons
      · exact (FunDecl.met_all superclass methods h.matching hnodes m hm).right.cons

theorem Stmt.met_all {inside : Lexical} {scopes : Scopes} {around : Surroundings} :
    ∀ body : List Stmt, inside.Stands scopes → (∀ n ∈ Stmt.nodesAll body, n.Proper) →
      ∀ m ∈ Stmt.mentionsAll inside body, m.Met (Stmt.visitsAll around scopes body)
  | [], _, _, m, hm => by cases hm
  | s :: rest, h, hproper, m, hm => by
      have hnodes : ∀ n ∈ s.nodes, n.Proper := fun n hn => hproper n (List.mem_append_left _ hn)
      have hrest : ∀ n ∈ Stmt.nodesAll rest, n.Proper := fun n hn =>
        hproper n (List.mem_append_right _ hn)
      rw [Stmt.visitsAll, Stmt.scopes_resolve around scopes s hnodes]
      rcases List.mem_append.mp hm with hm | hm
      · exact (s.met (h.past s) hnodes m hm).left
      · exact (Stmt.met_all rest (h.past s) hrest m hm).right

/-- The mentions of a function are met where its body is visited, whatever the function is called
from its outside. -/
theorem FunDecl.met {inside : Lexical} {scopes : Scopes} {own : List Token → List Stmt → Enclosing}
    {known : Surroundings} :
    ∀ f : FunDecl, Enclosing.Own own inside known → inside.Matches scopes →
      (∀ n ∈ f.nodes, n.Proper) → ∀ around : Surroundings,
      ∀ m ∈ f.mentions own inside, m.Met (f.visits around scopes)
  | .mk _ _ params body, hown, h, hproper, _, m, hm =>
      Stmt.met_all body (.own hown h params) hproper m hm

theorem FunDecl.met_all {inside : Lexical} {scopes : Scopes} (superclass : Option NameRef) :
    ∀ methods : List FunDecl, inside.Matches scopes →
      (∀ n ∈ FunDecl.nodesAll methods, n.Proper) →
      ∀ m ∈ FunDecl.mentionsAll (.classBody superclass :: inside) methods,
        m.Met (FunDecl.visitsAll (.ofSuperclass superclass) (scopes.ofMethods superclass) methods)
  | [], _, _, m, hm => by cases hm
  | f :: rest, h, hproper, m, hm => by
      have hnodes : ∀ n ∈ f.nodes, n.Proper := fun n hn => hproper n (List.mem_append_left _ hn)
      have hrest : ∀ n ∈ FunDecl.nodesAll rest, n.Proper := fun n hn =>
        hproper n (List.mem_append_right _ hn)
      rcases List.mem_append.mp hm with hm | hm
      · exact (f.met (Enclosing.own_method f superclass inside) (.methods superclass h) hnodes _ m
          hm).left
      · exact (FunDecl.met_all superclass rest h hrest m hm).right

end

/-- Every mention of a program is met by the resolver. -/
theorem programMentions_met {body : List Stmt} (h : ∀ n ∈ Stmt.nodesAll body, n.Proper) :
    ∀ m ∈ programMentions body, m.Met (programVisits body) :=
  Stmt.met_all body .top h

end Lox
