/-
The resolver as it goes from node to node with one state in its hands. Scopes are
opened and closed, what surrounds a place is overwritten on the way in and put back
on the way out, and faults and distances are added where they are found. Nothing
in this says by itself that a part of a program leaves the rest of the state alone.

`Stmt.resolve` hands everything down and brings only its findings back, so there is
nothing to be put back. The two agree in every state (`Stmt.thread_eq`), and what
makes them agree is that a statement touches no scope but the innermost, where it
leaves the names that it declares (`Stmt.fst_resolve`).
-/
import Lox.Proofs.Binding.Sound

namespace Lox

-- ================================================================== the state

/-- What the resolver carries through a program. -/
structure Resolver where
  scopes : Scopes
  around : Surroundings
  table : Distances
  faults : List ScopeFault
  /-- The nodes it came to, each with the number of scopes that stood around it. -/
  way : List (Node × Nat)

namespace Resolver

/-- Comes to a node. -/
def enter (r : Resolver) (n : Node) : Resolver := { r with way := r.way ++ [(n, r.scopes.length)] }

/-- Puts a fault on record if there is one. -/
def reportIf (r : Resolver) (faulty : Bool) (cause : ScopeFaultCause) (token : Token) : Resolver :=
  if faulty then { r with faults := r.faults ++ [⟨cause, token⟩] } else r

def openScope (r : Resolver) (scope : Scope) : Resolver := { r with scopes := scope :: r.scopes }

def closeScope (r : Resolver) : Resolver := { r with scopes := r.scopes.tail }

/-- From here on the innermost function is of this kind. -/
def setFunction (r : Resolver) (kind : FunctionKind) : Resolver :=
  { r with around := { r.around with function := kind } }

/-- From here on the innermost class is of this kind. -/
def setClass (r : Resolver) (kind : ClassKind) : Resolver :=
  { r with around := { r.around with inClass := kind } }

/-- Declares a name in the innermost scope; the top level has none. -/
def declare (r : Resolver) (name : Token) : Resolver :=
  match r.scopes with
  | [] => r
  | scope :: outer =>
    { r.reportIf (scope.binds name.lexeme) .redeclared name with
      scopes := scope.set name.lexeme false :: outer }

/-- Makes a name of the innermost scope ready. -/
def define (r : Resolver) (name : Token) : Resolver := { r with scopes := r.scopes.define name }

/-- Notes how far out the name of a reference is bound, if any scope binds it. -/
def link (r : Resolver) (id : NodeId) (name : String) : Resolver :=
  match r.scopes.distance? name with
  | some distance => { r with table := r.table.insert id distance }
  | none => r

def readVariable (r : Resolver) (id : NodeId) (name : Token) : Resolver :=
  (r.reportIf (r.scopes.isPending name.lexeme) .readInOwnInitializer name).link id name.lexeme

end Resolver

-- =============================================================== through a tree

mutual

def Expr.thread (r : Resolver) (e : Expr) : Resolver :=
  let r := r.enter (.expression e)
  match e with
  | .literal .. => r
  | .var id name => r.readVariable id name
  | .assign id name value => (value.thread r).link id name.lexeme
  | .binary _ left _ right => right.thread (left.thread r)
  | .logical _ left _ right => right.thread (left.thread r)
  | .unary _ _ operand => operand.thread r
  | .grouping _ inner => inner.thread r
  | .call _ callee _ arguments => Expr.threadAll (callee.thread r) arguments
  | .get _ object _ => object.thread r
  | .set _ object _ value => object.thread (value.thread r)
  | .this id keyword =>
    match r.around.inClass with
    | .none => r.reportIf true .thisOutsideClass keyword
    | _ => r.link id "this"
  | .super id keyword _ =>
    match r.around.inClass with
    | .none => r.reportIf true .superOutsideClass keyword
    | .plain => r.reportIf true .superWithoutSuperclass keyword
    | .subclass => r.link id "super"

def Expr.threadAll (r : Resolver) : List Expr → Resolver
  | [] => r
  | e :: rest => Expr.threadAll (e.thread r) rest

end

def Expr.threadOptional (r : Resolver) : Option Expr → Resolver
  | none => r
  | some e => e.thread r

/-- Parameters are ready as soon as they are declared. -/
def Token.threadAll (r : Resolver) : List Token → Resolver
  | [] => r
  | name :: rest => Token.threadAll ((r.declare name).define name) rest

/-- The faults of a `return` depend on the function around it. -/
def Resolver.reportReturn (r : Resolver) (keyword : Token) (hasValue : Bool) : Resolver :=
  (r.reportIf (r.around.function = .none) .returnOutsideFunction keyword).reportIf
    (hasValue && r.around.function = .initializer) .returnValueFromInitializer keyword

mutual

def Stmt.thread (r : Resolver) (s : Stmt) : Resolver :=
  let r := r.enter (.statement s)
  match s with
  | .expression _ e => e.thread r
  | .print _ e => e.thread r
  | .varDecl _ name initializer =>
    (Expr.threadOptional (r.declare name) initializer).define name
  | .block _ body => (Stmt.threadAll (r.openScope .empty) body).closeScope
  | .ifThen _ condition thenBranch => thenBranch.thread (condition.thread r)
  | .ifElse _ condition thenBranch elseBranch =>
    elseBranch.thread (thenBranch.thread (condition.thread r))
  | .whileLoop _ condition body => body.thread (condition.thread r)
  | .funDecl f => f.thread .function ((r.declare f.name).define f.name)
  | .returnStmt _ keyword value =>
    Expr.threadOptional (r.reportReturn keyword value.isSome) value
  | .classDecl _ name none methods =>
    let inside := ((((r.setClass .plain).declare name).define name).openScope (.holding "this"))
    (FunDecl.threadMethods inside methods).closeScope.setClass r.around.inClass
  | .classDecl _ name (some parent) methods =>
    let named := ((r.setClass .plain).declare name).define name
    let checked :=
      named.reportIf (parent.name.lexeme == name.lexeme) .inheritsFromItself parent.name
    let inside := ((parent.asExpr.thread (checked.setClass .subclass)).openScope
      (.holding "super")).openScope (.holding "this")
    (FunDecl.threadMethods inside methods).closeScope.closeScope.setClass r.around.inClass

def Stmt.threadAll (r : Resolver) : List Stmt → Resolver
  | [] => r
  | s :: rest => Stmt.threadAll (s.thread r) rest

/-- Parameters and body of a function share one scope; behind it the innermost function is again
what it was. -/
def FunDecl.thread (kind : FunctionKind) (r : Resolver) : FunDecl → Resolver
  | .mk _ _ params body =>
    (Stmt.threadAll (Token.threadAll ((r.setFunction kind).openScope .empty) params)
      body).closeScope.setFunction r.around.function

def FunDecl.threadMethods (r : Resolver) : List FunDecl → Resolver
  | [] => r
  | f :: rest => FunDecl.threadMethods (f.thread f.methodKind r) rest

end

-- ============================================================= names of a scope

/-- The names that a statement declares in the scope it stands in. The branches of a statement stand
in that scope as well. -/
def Stmt.ownNames : Stmt → List Token
  | .varDecl _ name _ => [name]
  | .funDecl f => [f.name]
  | .classDecl _ name _ _ => [name]
  | .ifThen _ _ thenBranch => thenBranch.ownNames
  | .ifElse _ _ thenBranch elseBranch => thenBranch.ownNames ++ elseBranch.ownNames
  | .whileLoop _ _ body => body.ownNames
  | .expression .. | .print .. | .block .. | .returnStmt .. => []

/-- The innermost scope with some names made ready. -/
def Scopes.readied (scopes : Scopes) (names : List Token) : Scopes :=
  match scopes with
  | [] => []
  | scope :: outer => names.foldl (fun scope name => scope.set name.lexeme true) scope :: outer

namespace Scopes

theorem readied_nil (scopes : Scopes) : scopes.readied [] = scopes := by cases scopes <;> rfl

theorem readied_append (scopes : Scopes) (names more : List Token) :
    scopes.readied (names ++ more) = (scopes.readied names).readied more := by
  cases scopes with
  | nil => rfl
  | cons scope outer => simp only [readied, List.foldl_append]

theorem tail_readied (scopes : Scopes) (names : List Token) :
    (scopes.readied names).tail = scopes.tail := by
  cases scopes <;> rfl

theorem length_readied (scopes : Scopes) (names : List Token) :
    (scopes.readied names).length = scopes.length := by
  cases scopes <;> rfl

end Scopes

/-- A name that is bound twice is bound to what came last. -/
theorem Bindings.set_set {α : Type} (b : Bindings α) (name : String) (first last : α) :
    (b.set name first).set name last = b.set name last := by
  obtain ⟨entries⟩ := b
  refine congrArg Bindings.mk ?_
  show Bindings.setIn name last (Bindings.setIn name first entries)
    = Bindings.setIn name last entries
  induction entries with
  | nil => simp [Bindings.setIn]
  | cons entry rest ih => by_cases h : entry.1 = name <;> simp [Bindings.setIn, h, ih]

theorem Scopes.fst_introduce (scopes : Scopes) (name : Token) :
    (scopes.introduce name).1 = scopes.readied [name] := by
  cases scopes with
  | nil => rfl
  | cons scope outer =>
      rw [introduce_cons, Bindings.set_set]
      rfl

theorem Scopes.fst_introduceAll (scopes : Scopes) (params : List Token) :
    (scopes.introduceAll params).1 = scopes.readied params := by
  induction params generalizing scopes with
  | nil => exact scopes.readied_nil.symm
  | cons name rest ih =>
      show ((scopes.introduce name).1.introduceAll rest).1 = _
      rw [ih, fst_introduce, ← readied_append]
      rfl

/-- A statement leaves its own names behind, each of them ready, and nothing else. -/
theorem Stmt.fst_resolve (around : Surroundings) (scopes : Scopes) :
    ∀ s : Stmt, (s.resolve around scopes).1 = scopes.readied s.ownNames
  | .expression .. | .print .. | .block .. | .returnStmt .. => scopes.readied_nil.symm
  | .varDecl _ name _ => scopes.fst_introduce name
  | .funDecl f => scopes.fst_introduce f.name
  | .classDecl _ name none _ => scopes.fst_introduce name
  | .classDecl _ name (some _) _ => scopes.fst_introduce name
  | .ifThen _ _ thenBranch => thenBranch.fst_resolve around scopes
  | .ifElse _ _ thenBranch elseBranch => by
      show (elseBranch.resolve around (thenBranch.resolve around scopes).1).1 = _
      rw [elseBranch.fst_resolve, thenBranch.fst_resolve, ← Scopes.readied_append]
      rfl
  | .whileLoop _ _ body => body.fst_resolve around scopes

theorem Stmt.fst_resolveAll (around : Surroundings) (scopes : Scopes) (body : List Stmt) :
    (Stmt.resolveAll around scopes body).1 = scopes.readied (body.flatMap Stmt.ownNames) := by
  induction body generalizing scopes with
  | nil => exact scopes.readied_nil.symm
  | cons s rest ih =>
      show (Stmt.resolveAll around (s.resolve around scopes).1 rest).1 = _
      rw [ih, s.fst_resolve, ← Scopes.readied_append]
      rfl

-- ================================================================== agreement

/-- A visit as the resolver notes it. -/
def Visit.mark (v : Visit) : Node × Nat := (v.node, v.scopes.length)

namespace Resolver

/-- The state with some findings added, and other scopes. -/
def after (r : Resolver) (scopes : Scopes) (found : Survey) (visits : List Visit) : Resolver where
  scopes := scopes
  around := r.around
  table := r.table.addLinks found.links
  faults := r.faults ++ found.faults
  way := r.way ++ visits.map Visit.mark

variable (r : Resolver)

@[simp] theorem scopes_after (scopes : Scopes) (found : Survey) (visits : List Visit) :
    (r.after scopes found visits).scopes = scopes := rfl

@[simp] theorem around_after (scopes : Scopes) (found : Survey) (visits : List Visit) :
    (r.after scopes found visits).around = r.around := rfl

theorem after_nothing : r.after r.scopes .empty [] = r := by
  simp [after, Survey.empty, Distances.addLinks]

/-- What is found first and what is found then. -/
@[simp] theorem after_after (inner outer : Scopes) (a b : Survey) (us vs : List Visit) :
    (r.after inner a us).after outer b vs = r.after outer (a ++ b) (us ++ vs) := by
  simp [after, Distances.addLinks_append]

theorem enter_eq (n : Node) :
    r.enter n = r.after r.scopes .empty [⟨n, r.around, r.scopes, none⟩] := by
  simp [enter, after, Survey.empty, Distances.addLinks, Visit.mark]

theorem reportIf_eq (faulty : Bool) (cause : ScopeFaultCause) (token : Token) :
    r.reportIf faulty cause token
      = r.after r.scopes (if faulty then .fault cause token else .empty) [] := by
  cases faulty <;> simp [reportIf, after, Survey.empty, Survey.fault, Distances.addLinks]

theorem link_eq (id : NodeId) (name : String) :
    r.link id name = r.after r.scopes (r.scopes.link id name) [] := by
  unfold link Scopes.link
  cases r.scopes.distance? name <;> simp [after, Survey.empty, Distances.addLinks]

theorem declare_eq (name : Token) :
    r.declare name = r.after (r.scopes.declare name).1 (r.scopes.declare name).2 [] := by
  obtain ⟨scopes, around, table, faults, way⟩ := r
  cases scopes with
  | nil => simp [declare, Scopes.declare, after, Survey.empty, Distances.addLinks]
  | cons scope outer =>
      cases h : scope.binds name.lexeme <;>
        simp [declare, reportIf, Scopes.declare, h, after, Survey.empty, Survey.fault,
          Distances.addLinks]

theorem define_eq (name : Token) :
    r.define name = r.after (r.scopes.define name) .empty [] := by
  simp [define, after, Survey.empty, Distances.addLinks]

theorem readVariable_eq (id : NodeId) (name : Token) :
    r.readVariable id name = r.after r.scopes (r.scopes.readVariable id name) [] := by
  unfold readVariable
  rw [reportIf_eq, link_eq, after_after]
  rfl

theorem reportReturn_eq (keyword : Token) (hasValue : Bool) :
    r.reportReturn keyword hasValue
      = r.after r.scopes (r.around.returnFaults keyword hasValue) [] := by
  unfold reportReturn
  rw [reportIf_eq, reportIf_eq, after_after]
  simp only [after, Surroundings.returnFaults, decide_eq_true_eq]
  rfl

theorem introduce_eq (name : Token) :
    (r.declare name).define name
      = r.after (r.scopes.introduce name).1 (r.scopes.introduce name).2 [] := by
  rw [declare_eq, define_eq, after_after, Survey.append_empty]
  rfl

end Resolver

theorem Token.threadAll_eq (r : Resolver) (params : List Token) :
    Token.threadAll r params
      = r.after (r.scopes.introduceAll params).1 (r.scopes.introduceAll params).2 [] := by
  induction params generalizing r with
  | nil => exact r.after_nothing.symm
  | cons name rest ih =>
      rw [Token.threadAll, r.introduce_eq, ih, r.after_after]
      rfl

mutual

/-- An expression leaves its findings behind. -/
theorem Expr.thread_eq (r : Resolver) : ∀ e : Expr,
    e.thread r = r.after r.scopes (e.resolve r.around r.scopes) (e.visits r.around r.scopes)
  | .literal .. => r.enter_eq _
  | .var id name => by
      simp [Expr.thread, Expr.resolve, Expr.visits, r.enter_eq, Resolver.readVariable_eq]
  | .assign id name value => by
      simp [Expr.thread, Expr.resolve, Expr.visits, r.enter_eq, value.thread_eq, Resolver.link_eq]
  | .binary _ left _ right | .logical _ left _ right => by
      simp [Expr.thread, Expr.resolve, Expr.visits, r.enter_eq, left.thread_eq, right.thread_eq]
  | .unary _ _ operand => by
      simp [Expr.thread, Expr.resolve, Expr.visits, r.enter_eq, operand.thread_eq]
  | .grouping _ inner => by
      simp [Expr.thread, Expr.resolve, Expr.visits, r.enter_eq, inner.thread_eq]
  | .call _ callee _ arguments => by
      simp [Expr.thread, Expr.resolve, Expr.visits, r.enter_eq, callee.thread_eq,
        Expr.threadAll_eq _ arguments]
  | .get _ object _ => by
      simp [Expr.thread, Expr.resolve, Expr.visits, r.enter_eq, object.thread_eq]
  | .set _ object _ value => by
      simp [Expr.thread, Expr.resolve, Expr.visits, r.enter_eq, value.thread_eq, object.thread_eq]
  | .this id keyword => by
      simp only [Expr.thread, Expr.resolve, Expr.visits, r.enter_eq, Resolver.around_after]
      cases r.around.inClass <;> simp [Resolver.reportIf_eq, Resolver.link_eq]
  | .super id keyword method => by
      simp only [Expr.thread, Expr.resolve, Expr.visits, r.enter_eq, Resolver.around_after]
      cases r.around.inClass <;> simp [Resolver.reportIf_eq, Resolver.link_eq]

theorem Expr.threadAll_eq (r : Resolver) : ∀ es : List Expr,
    Expr.threadAll r es
      = r.after r.scopes (Expr.resolveAll r.around r.scopes es)
        (Expr.visitsAll r.around r.scopes es)
  | [] => r.after_nothing.symm
  | e :: rest => by
      simp [Expr.threadAll, Expr.resolveAll, Expr.visitsAll, e.thread_eq, Expr.threadAll_eq _ rest]

end

theorem Expr.threadOptional_eq (r : Resolver) (e : Option Expr) :
    Expr.threadOptional r e
      = r.after r.scopes (Expr.resolveOptional r.around r.scopes e)
        (Expr.visitsOptional r.around r.scopes e) := by
  cases e with
  | none => exact r.after_nothing.symm
  | some e => exact e.thread_eq r

namespace Resolver

variable (r : Resolver) (scopes : Scopes) (found : Survey) (visits : List Visit)

@[simp] theorem scopes_openScope (scope : Scope) :
    (r.openScope scope).scopes = scope :: r.scopes := rfl

@[simp] theorem around_openScope (scope : Scope) : (r.openScope scope).around = r.around := rfl

/-- The state behind a scope that was opened and closed. -/
@[simp] theorem closeScope_after (scope : Scope) :
    ((r.openScope scope).after scopes found visits).closeScope
      = r.after scopes.tail found visits := rfl

-- The kind of a function or class can be set before or behind what is found.

@[simp] theorem around_setFunction (kind : FunctionKind) :
    (r.setFunction kind).around = ⟨kind, r.around.inClass⟩ := rfl

@[simp] theorem scopes_setFunction (kind : FunctionKind) :
    (r.setFunction kind).scopes = r.scopes := rfl

@[simp] theorem setFunction_after (kind : FunctionKind) :
    (r.after scopes found visits).setFunction kind
      = (r.setFunction kind).after scopes found visits := rfl

@[simp] theorem setFunction_restored (kind : FunctionKind) :
    (r.setFunction kind).setFunction r.around.function = r := rfl

@[simp] theorem around_setClass (kind : ClassKind) :
    (r.setClass kind).around = ⟨r.around.function, kind⟩ := rfl

@[simp] theorem scopes_setClass (kind : ClassKind) : (r.setClass kind).scopes = r.scopes := rfl

@[simp] theorem setClass_after (kind : ClassKind) :
    (r.after scopes found visits).setClass kind = (r.setClass kind).after scopes found visits := rfl

@[simp] theorem setClass_setClass (first last : ClassKind) :
    (r.setClass first).setClass last = r.setClass last := rfl

@[simp] theorem setClass_restored : r.setClass r.around.inClass = r := rfl

end Resolver

mutual

/-- A statement leaves its findings behind, and scopes as `Stmt.resolve` has them: what it opened is
closed, and what it overwrote is put back. -/
theorem Stmt.thread_eq (r : Resolver) : ∀ s : Stmt,
    s.thread r
      = r.after (s.resolve r.around r.scopes).1 (s.resolve r.around r.scopes).2
        (s.visits r.around r.scopes)
  | .expression _ e | .print _ e => by
      simp [Stmt.thread, Stmt.resolve, Stmt.visits, r.enter_eq, e.thread_eq]
  | .varDecl _ name initializer => by
      simp [Stmt.thread, Stmt.resolve, Stmt.visits, r.enter_eq, Resolver.declare_eq,
        Expr.threadOptional_eq, Resolver.define_eq]
  | .block _ body => by
      simp [Stmt.thread, Stmt.resolve, Stmt.visits, r.enter_eq, Stmt.threadAll_eq _ body,
        Stmt.fst_resolveAll, Scopes.tail_readied]
  | .ifThen _ condition thenBranch => by
      simp [Stmt.thread, Stmt.resolve, Stmt.visits, r.enter_eq, condition.thread_eq,
        thenBranch.thread_eq]
  | .ifElse _ condition thenBranch elseBranch => by
      simp [Stmt.thread, Stmt.resolve, Stmt.visits, r.enter_eq, condition.thread_eq,
        thenBranch.thread_eq, elseBranch.thread_eq]
  | .whileLoop _ condition body => by
      simp [Stmt.thread, Stmt.resolve, Stmt.visits, r.enter_eq, condition.thread_eq, body.thread_eq]
  | .funDecl f => by
      simp [Stmt.thread, Stmt.resolve, Stmt.visits, r.enter_eq, Resolver.introduce_eq, f.thread_eq]
  | .returnStmt _ keyword value => by
      simp [Stmt.thread, Stmt.resolve, Stmt.visits, r.enter_eq, Resolver.reportReturn_eq,
        Expr.threadOptional_eq]
  | .classDecl _ name none methods => by
      simp [Stmt.thread, Stmt.resolve, Stmt.visits, r.enter_eq, Resolver.introduce_eq,
        FunDecl.threadMethods_eq _ methods, NameRef.visits, Scopes.ofMethods,
        ClassKind.ofSuperclass]
  | .classDecl _ name (some parent) methods => by
      have hparent : ∀ q : Resolver, parent.asExpr.thread q
          = q.after q.scopes (q.scopes.readVariable parent.id parent.name)
            (NameRef.visits q.around q.scopes name (some parent)) :=
        fun q => parent.asExpr.thread_eq q
      simp [Stmt.thread, Stmt.resolve, Stmt.visits, r.enter_eq, Resolver.introduce_eq,
        Resolver.reportIf_eq, hparent, Scopes.readSuperclass, FunDecl.threadMethods_eq _ methods,
        Scopes.ofMethods, ClassKind.ofSuperclass, Survey.append_assoc]
      -- Of a visit only the node and the number of scopes are noted, not the class around it.
      rfl

theorem Stmt.threadAll_eq (r : Resolver) : ∀ body : List Stmt,
    Stmt.threadAll r body
      = r.after (Stmt.resolveAll r.around r.scopes body).1
        (Stmt.resolveAll r.around r.scopes body).2 (Stmt.visitsAll r.around r.scopes body)
  | [] => r.after_nothing.symm
  | s :: rest => by
      simp [Stmt.threadAll, Stmt.resolveAll, Stmt.visitsAll, s.thread_eq, Stmt.threadAll_eq _ rest]

theorem FunDecl.thread_eq (kind : FunctionKind) (r : Resolver) : ∀ f : FunDecl,
    f.thread kind r
      = r.after r.scopes (f.resolve ⟨kind, r.around.inClass⟩ r.scopes)
        (f.visits ⟨kind, r.around.inClass⟩ r.scopes)
  | .mk _ _ params body => by
      simp [FunDecl.thread, FunDecl.resolve, FunDecl.visits, Token.threadAll_eq,
        Stmt.threadAll_eq _ body, Stmt.fst_resolveAll, Scopes.fst_introduceAll, Scopes.tail_readied]

theorem FunDecl.threadMethods_eq (r : Resolver) : ∀ methods : List FunDecl,
    FunDecl.threadMethods r methods
      = r.after r.scopes (FunDecl.resolveMethods r.around.inClass r.scopes methods)
        (FunDecl.visitsAll r.around.inClass r.scopes methods)
  | [] => r.after_nothing.symm
  | f :: rest => by
      simp [FunDecl.threadMethods, FunDecl.resolveMethods, FunDecl.visitsAll, f.thread_eq,
        FunDecl.threadMethods_eq _ rest]

end

end Lox
