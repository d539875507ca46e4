/-
Resolution of programs that are alike. The resolver decides by names alone and
hands on the numbers of nodes without looking at them. So behind alike programs
the scopes are the same, the links are of corresponding nodes, and the faults are
of one cause at corresponding tokens (`Survey.Alike`).

Where nodes correspond one to one, tables that agree about corresponding nodes
agree still when such links are put into both.
-/
import Lox.Proofs.Likeness.Tree

namespace Lox

/-- No node has two partners on either side. -/
def Likeness.OneToOne (ρ : Likeness) : Prop :=
  ∀ a a' b b', ρ.nodes a a' → ρ.nodes b b' → (a = b ↔ a' = b')

/-- Tables that say the same of corresponding nodes. -/
def Distances.Agree (ρ : Likeness) (table table' : Distances) : Prop :=
  ∀ id id', ρ.nodes id id' → table[id]? = table'[id']?

structure Link.Alike (ρ : Likeness) (link link' : Link) : Prop where
  node : ρ.nodes link.id link'.id
  name : link'.name = link.name
  distance : link'.distance = link.distance

structure ScopeFault.Alike (ρ : Likeness) (fault fault' : ScopeFault) : Prop where
  cause : fault'.cause = fault.cause
  token : ρ.tokens fault.token fault'.token

/-- What was found in two programs corresponds, in the same order. -/
structure Survey.Alike (ρ : Likeness) (a a' : Survey) : Prop where
  links : List.Forall₂ (Link.Alike ρ) a.links a'.links
  faults : List.Forall₂ (ScopeFault.Alike ρ) a.faults a'.faults

/-- Two parts of programs leave the same scopes behind, and what was found in them corresponds. -/
def Survey.Resolves (ρ : Likeness) (r r' : Scopes × Survey) : Prop :=
  r'.1 = r.1 ∧ r.2.Alike ρ r'.2

variable {ρ : Likeness} {id id' : NodeId} {name name' : Token}

namespace Survey.Alike

theorem empty : Survey.Alike ρ .empty .empty := ⟨.nil, .nil⟩

theorem fault (cause : ScopeFaultCause) (place : ρ.tokens name name') :
    Survey.Alike ρ (.fault cause name) (.fault cause name') :=
  ⟨.nil, .cons ⟨rfl, place⟩ .nil⟩

theorem append {a a' b b' : Survey} (h : a.Alike ρ a') (k : b.Alike ρ b') :
    (a ++ b).Alike ρ (a' ++ b') :=
  ⟨List.rel_append h.links k.links, List.rel_append h.faults k.faults⟩

/-- A fault that is found on one condition. -/
theorem ite (c : Prop) [Decidable c] (cause : ScopeFaultCause) (place : ρ.tokens name name') :
    Survey.Alike ρ (if c then .fault cause name else .empty)
      (if c then .fault cause name' else .empty) := by
  split
  · exact fault cause place
  · exact empty

end Survey.Alike

namespace Survey.Resolves

variable {r r' : Scopes × Survey}

/-- A part whose scopes come from the part before it. -/
theorem inside (h : Survey.Resolves ρ r r') {k k' : Scopes → Survey}
    (hk : ∀ scopes, (k scopes).Alike ρ (k' scopes)) :
    (r.2 ++ k r.1).Alike ρ (r'.2 ++ k' r'.1) := by
  rw [h.1]
  exact h.2.append (hk r.1)

/-- One part after another. -/
theorem next (h : Survey.Resolves ρ r r') {k k' : Scopes → Scopes × Survey}
    (hk : ∀ scopes, Survey.Resolves ρ (k scopes) (k' scopes)) :
    Survey.Resolves ρ ((k r.1).1, r.2 ++ (k r.1).2) ((k' r'.1).1, r'.2 ++ (k' r'.1).2) := by
  refine ⟨?_, h.inside fun scopes => (hk scopes).2⟩
  rw [h.1]
  exact (hk r.1).1

end Survey.Resolves

-- =================================================================== scopes

namespace Scopes

theorem link_alike (scopes : Scopes) (node : ρ.nodes id id') (name : String) :
    (scopes.link id name).Alike ρ (scopes.link id' name) := by
  unfold Scopes.link
  cases scopes.distance? name with
  | none => exact .empty
  | some distance => exact ⟨.cons ⟨node, rfl, rfl⟩ .nil, .nil⟩

theorem declare_alike (scopes : Scopes) (place : ρ.tokens name name') :
    Survey.Resolves ρ (scopes.declare name) (scopes.declare name') := by
  unfold Scopes.declare
  rw [ρ.spelt place]
  cases scopes with
  | nil => exact ⟨rfl, .empty⟩
  | cons scope outer => exact ⟨rfl, .ite _ _ place⟩

theorem define_eq (scopes : Scopes) (place : ρ.tokens name name') :
    scopes.define name' = scopes.define name := by
  unfold Scopes.define
  rw [ρ.spelt place]

theorem introduce_alike (scopes : Scopes) (place : ρ.tokens name name') :
    Survey.Resolves ρ (scopes.introduce name) (scopes.introduce name') := by
  obtain ⟨hscopes, hsurvey⟩ := scopes.declare_alike place
  refine ⟨?_, hsurvey⟩
  show (scopes.declare name').1.define name' = (scopes.declare name).1.define name
  rw [hscopes, define_eq _ place]

theorem introduceAll_alike (scopes : Scopes) {params params' : List Token}
    (h : List.Forall₂ ρ.tokens params params') :
    Survey.Resolves ρ (scopes.introduceAll params) (scopes.introduceAll params') := by
  induction h generalizing scopes with
  | nil => exact ⟨rfl, .empty⟩
  | cons place _ ih => exact (scopes.introduce_alike place).next ih

theorem readVariable_alike (scopes : Scopes) (node : ρ.nodes id id')
    (place : ρ.tokens name name') :
    (scopes.readVariable id name).Alike ρ (scopes.readVariable id' name') := by
  unfold Scopes.readVariable
  rw [ρ.spelt place]
  exact .append (.ite _ _ place) (scopes.link_alike node name.lexeme)

theorem readSuperclass_alike (scopes : Scopes) (place : ρ.tokens name name')
    {parent parent' : NameRef} (alike : parent.Alike ρ parent') :
    (scopes.readSuperclass name parent).Alike ρ (scopes.readSuperclass name' parent') := by
  unfold Scopes.readSuperclass
  rw [ρ.spelt place, ρ.spelt alike.name]
  exact .append (.ite _ _ alike.name) (scopes.readVariable_alike alike.node alike.name)

end Scopes

theorem Surroundings.returnFaults_alike (around : Surroundings) (place : ρ.tokens name name')
    (hasValue : Bool) :
    (around.returnFaults name hasValue).Alike ρ (around.returnFaults name' hasValue) :=
  .append (.ite _ _ place) (.ite _ _ place)

theorem FunDecl.Alike.methodKind_eq {f f' : FunDecl} (h : f.Alike ρ f') :
    f'.methodKind = f.methodKind := by
  unfold FunDecl.methodKind
  rw [ρ.spelt h.name]

-- ============================================================== expressions

section

variable (around : Surroundings)

mutual

theorem Expr.resolve_alike (scopes : Scopes) : ∀ {e e' : Expr}, e.Alike ρ e' →
    (e.resolve around scopes).Alike ρ (e'.resolve around scopes)
  | .literal .., _, .literal .. => .empty
  | .var .., _, .var node name => scopes.readVariable_alike node name
  | .assign _ name _, _, .assign node place value => by
      refine .append (Expr.resolve_alike scopes value) ?_
      rw [ρ.spelt place]
      exact scopes.link_alike node name.lexeme
  | .binary .., _, .binary _ left _ right =>
      .append (Expr.resolve_alike scopes left) (Expr.resolve_alike scopes right)
  | .logical .., _, .logical _ left _ right =>
      .append (Expr.resolve_alike scopes left) (Expr.resolve_alike scopes right)
  | .unary .., _, .unary _ _ operand => by
      have hoperand := Expr.resolve_alike scopes operand
      exact hoperand
  | .grouping .., _, .grouping _ inner => by
      have hinner := Expr.resolve_alike scopes inner
      exact hinner
  | .call .., _, .call _ callee _ arguments =>
      .append (Expr.resolve_alike scopes callee) (Expr.resolveAll_alike scopes arguments)
  | .get .., _, .get _ object _ => by
      have hobject := Expr.resolve_alike scopes object
      exact hobject
  | .set .., _, .set _ object _ value =>
      .append (Expr.resolve_alike scopes value) (Expr.resolve_alike scopes object)
  | .this .., _, .this node keyword => by
      unfold Expr.resolve
      split
      · exact .fault _ keyword
      · exact scopes.link_alike node "this"
  | .super .., _, .super node keyword _ => by
      unfold Expr.resolve
      split
      · exact .fault _ keyword
      · exact .fault _ keyword
      · exact scopes.link_alike node "super"

theorem Expr.resolveAll_alike (scopes : Scopes) : ∀ {es es' : List Expr},
    List.Forall₂ (Expr.Alike ρ) es es' →
      (Expr.resolveAll around scopes es).Alike ρ (Expr.resolveAll around scopes es')
  | [], _, .nil => .empty
  | _ :: _, _, .cons first rest =>
      .append (Expr.resolve_alike scopes first) (Expr.resolveAll_alike scopes rest)

end

theorem Expr.resolveOptional_alike (scopes : Scopes) {e e' : Option Expr}
    (h : Option.Rel (Expr.Alike ρ) e e') :
    (Expr.resolveOptional around scopes e).Alike ρ (Expr.resolveOptional around scopes e') := by
  cases h with
  | none => exact .empty
  | some alike => exact Expr.resolve_alike around scopes alike

end

-- =============================================================== statements

mutual

theorem Stmt.resolve_alike (around : Surroundings) : ∀ {s s' : Stmt}, s.Alike ρ s' →
    ∀ scopes, Survey.Resolves ρ (s.resolve around scopes) (s'.resolve around scopes)
  | .expression .., _, .expression _ e, scopes => ⟨rfl, Expr.resolve_alike around scopes e⟩
  | .print .., _, .print _ e, scopes => ⟨rfl, Expr.resolve_alike around scopes e⟩
  | .varDecl .., _, .varDecl _ place initializer, scopes => by
      have hdeclared := scopes.declare_alike place
      refine ⟨?_, hdeclared.inside fun declared =>
        Expr.resolveOptional_alike around declared initializer⟩
      exact (congrArg (Scopes.define · _) hdeclared.1).trans (Scopes.define_eq _ place)
  | .block .., _, .block _ body, scopes => ⟨rfl, (Stmt.resolveAll_alike around body _).2⟩
  | .ifThen .., _, .ifThen _ condition thenBranch, scopes => by
      obtain ⟨hafter, hsurvey⟩ := Stmt.resolve_alike around thenBranch scopes
      exact ⟨hafter, (Expr.resolve_alike around scopes condition).append hsurvey⟩
  | .ifElse .., _, .ifElse _ condition thenBranch elseBranch, scopes => by
      obtain ⟨hbetween, hfirst⟩ := Stmt.resolve_alike around thenBranch scopes
      have hbranches : Survey.Resolves ρ (_, _ ++ _) (_, _ ++ _) := ⟨hbetween,
        (Expr.resolve_alike around scopes condition).append hfirst⟩
      exact hbranches.next fun between => Stmt.resolve_alike around elseBranch between
  | .whileLoop .., _, .whileLoop _ condition body, scopes => by
      obtain ⟨hafter, hsurvey⟩ := Stmt.resolve_alike around body scopes
      exact ⟨hafter, (Expr.resolve_alike around scopes condition).append hsurvey⟩
  | .funDecl .., _, .funDecl _ function _, scopes => by
      have hintroduced := scopes.introduce_alike function.name
      exact ⟨hintroduced.1, hintroduced.inside fun introduced =>
        FunDecl.resolve_alike function ⟨.function, around.inClass⟩ introduced⟩
  | .returnStmt .., _, .returnStmt _ keyword .none, scopes =>
      ⟨rfl, .append (around.returnFaults_alike keyword false) .empty⟩
  | .returnStmt .., _, .returnStmt _ keyword (.some value), scopes =>
      ⟨rfl, .append (around.returnFaults_alike keyword true)
        (Expr.resolve_alike around scopes value)⟩
  | .classDecl .., _, .classDecl _ place .none methods _, scopes => by
      have hintroduced := scopes.introduce_alike place
      exact ⟨hintroduced.1, hintroduced.inside fun introduced =>
        FunDecl.resolveMethods_alike .plain methods (.holding "this" :: introduced)⟩
  | .classDecl .., _, .classDecl _ place (.some above) methods _, scopes => by
      have hintroduced := scopes.introduce_alike place
      have hparent : Survey.Resolves ρ (_, _ ++ _) (_, _ ++ _) := ⟨hintroduced.1,
        hintroduced.inside fun introduced => introduced.readSuperclass_alike place above⟩
      exact ⟨hintroduced.1, hparent.inside fun introduced =>
        FunDecl.resolveMethods_alike .subclass methods
          (.holding "this" :: .holding "super" :: introduced)⟩
termination_by structural s => s

theorem Stmt.resolveAll_alike (around : Surroundings) : ∀ {body body' : List Stmt},
    List.Forall₂ (Stmt.Alike ρ) body body' → ∀ scopes,
      Survey.Resolves ρ (Stmt.resolveAll around scopes body) (Stmt.resolveAll around scopes body')
  | [], _, .nil, _ => ⟨rfl, .empty⟩
  | _ :: _, _, .cons first others, scopes =>
      (Stmt.resolve_alike around first scopes).next fun between =>
        Stmt.resolveAll_alike around others between
termination_by structural body => body

theorem FunDecl.resolve_alike : ∀ {f f' : FunDecl}, f.Alike ρ f' →
    ∀ around scopes, (f.resolve around scopes).Alike ρ (f'.resolve around scopes)
  | .mk .., _, .mk _ place body, around, scopes =>
      (Scopes.introduceAll_alike (.empty :: scopes) place).inside fun inside =>
        (Stmt.resolveAll_alike around body inside).2
termination_by structural f => f

theorem FunDecl.resolveMethods_alike (inClass : ClassKind) : ∀ {methods methods' : List FunDecl},
    List.Forall₂ (FunDecl.Alike ρ) methods methods' → ∀ scopes,
      (FunDecl.resolveMethods inClass scopes methods).Alike ρ
        (FunDecl.resolveMethods inClass scopes methods')
  | [], _, .nil, _ => .empty
  | f :: _, f' :: _, .cons first others, scopes => by
      have hfirst := FunDecl.resolve_alike first ⟨f.methodKind, inClass⟩ scopes
      refine .append ?_ (FunDecl.resolveMethods_alike inClass others scopes)
      rwa [first.methodKind_eq]
termination_by structural methods => methods

end

/-- Alike programs are resolved alike. -/
theorem resolveProgram_alike {body body' : List Stmt}
    (h : List.Forall₂ (Stmt.Alike ρ) body body') :
    (resolveProgram body).Alike ρ (resolveProgram body') :=
  (Stmt.resolveAll_alike .topLevel h []).2

theorem Survey.Alike.isEmpty_faults_eq {a a' : Survey} (h : a.Alike ρ a') :
    a'.faults.isEmpty = a.faults.isEmpty := by
  have hlength := h.faults.length_eq
  rw [Bool.eq_iff_iff, List.isEmpty_iff_length_eq_zero, List.isEmpty_iff_length_eq_zero, hlength]

-- ==================================================================== tables

/-- Tables that agree take over corresponding links and agree. -/
theorem Distances.Agree.addLinks (one : ρ.OneToOne) {links links' : List Link}
    (h : List.Forall₂ (Link.Alike ρ) links links') {table table' : Distances}
    (agree : Distances.Agree ρ table table') :
    Distances.Agree ρ (table.addLinks links) (table'.addLinks links') := by
  induction h generalizing table table' with
  | nil => exact agree
  | @cons link link' rest rest' first _ ih =>
      have hinsert : Distances.Agree ρ (table.insert link.id link.distance)
          (table'.insert link'.id link'.distance) := by
        intro id id' hnode
        rw [Std.TreeMap.getElem?_insert, Std.TreeMap.getElem?_insert, first.distance,
          agree id id' hnode]
        simp only [Nat.compare_eq_eq, one _ _ _ _ first.node hnode]
      exact ih hinsert

end Lox
