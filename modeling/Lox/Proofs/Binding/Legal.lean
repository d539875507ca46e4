/-
The resolver rejects exactly the illegal programs. It goes through a program with
what surrounds a place and with scopes in which names are ready or not; here it
is shown that at every place these say what the lexical position says
(`Lexical.surroundings`, `Lexical.Describes`), so what the resolver reports is
what is to be said against the spots of the program, one by one and in their
order.
-/
import Lox.Proofs.Binding.Spot
import Lox.Proofs.Binding.Sound
import Lox.Proofs.Reading.Program
import Mathlib.Data.Multiset.Basic

namespace Lox

/-- What a fault says, and of which token. -/
def ScopeFault.report (fault : ScopeFault) : String × Token := (fault.cause.message, fault.token)

/-- A survey reports what is to be said against some spots. -/
def Survey.Tells (survey : Survey) (spots : List Spot) : Prop :=
  survey.faults.map ScopeFault.report = spots.flatMap Spot.complaints

namespace Survey.Tells

variable {a b : Survey} {x y : List Spot}

theorem nothing : Survey.empty.Tells [] := rfl

theorem append (ha : a.Tells x) (hb : b.Tells y) : (a ++ b).Tells (x ++ y) := by
  unfold Survey.Tells at ha hb ⊢
  rw [Survey.faults_append, List.map_append, List.flatMap_append, ha, hb]

theorem cons {spot : Spot} (ha : a.Tells [spot]) (hb : b.Tells y) : (a ++ b).Tells (spot :: y) :=
  ha.append hb

end Survey.Tells

namespace Lexical

/-- The kind of the innermost function around. -/
def functionKind : Lexical → FunctionKind
  | [] => .none
  | .function .. :: _ => .function
  | .method f _ _ :: _ => f.methodKind
  | .block _ :: outer | .classBody _ :: outer | .initializer _ :: outer => functionKind outer

/-- The kind of the innermost class around. -/
def classKind (inside : Lexical) : ClassKind :=
  match inside.superclass? with
  | none => .none
  | some superclass => .ofSuperclass superclass

/-- What the resolver knows to surround a place. -/
def surroundings (inside : Lexical) : Surroundings := ⟨inside.functionKind, inside.classKind⟩

theorem functionKind_none_iff (inside : Lexical) :
    inside.functionKind = .none ↔ inside.inFunction = false := by
  induction inside with
  | nil => simp [functionKind, inFunction]
  | cons enclosing outer ih =>
      cases enclosing with
      | function => simp [functionKind, inFunction]
      | block | classBody | initializer => exact ih
      | method f params before =>
          simp only [functionKind, inFunction, FunDecl.methodKind]
          split <;> simp

theorem functionKind_initializer_iff (inside : Lexical) :
    inside.functionKind = .initializer ↔ inside.inInitMethod = true := by
  induction inside with
  | nil => simp [functionKind, inInitMethod]
  | cons enclosing outer ih =>
      cases enclosing with
      | function => simp [functionKind, inInitMethod]
      | block | classBody | initializer => exact ih
      | method f params before =>
          simp only [functionKind, inInitMethod, FunDecl.methodKind]
          split <;> simp_all

end Lexical

-- ================================================================ expressions

namespace Scopes

theorem faults_link (scopes : Scopes) (id : NodeId) (name : String) :
    (scopes.link id name).faults = [] := by
  unfold link
  split <;> rfl

/-- Linking a name never fails. -/
theorem tells_link (scopes : Scopes) (id : NodeId) (name : String) :
    (scopes.link id name).Tells [] := by
  unfold Survey.Tells
  rw [faults_link]
  rfl

end Scopes

/-- At a place of expressions, a name is pending if the place lies in its initializer. -/
def Lexical.Awaits (inside : Lexical) (scopes : Scopes) : Prop :=
  ∀ name : Token, scopes.isPending name.lexeme = inside.initializes name

variable {inside : Lexical} {scopes : Scopes}

theorem Scopes.tells_readVariable (h : inside.Awaits scopes) (id : NodeId) (name : Token) :
    (scopes.readVariable id name).Tells [⟨.reads name, inside⟩] := by
  refine Survey.Tells.cons ?_ (scopes.tells_link id name.lexeme)
  unfold Survey.Tells
  rw [h name]
  simp only [List.flatMap_cons, List.flatMap_nil, List.append_nil, Spot.complaints]
  cases inside.initializes name <;> rfl

mutual

theorem Expr.tells (h : inside.Awaits scopes) :
    ∀ e : Expr, (e.resolve inside.surroundings scopes).Tells (e.spots inside)
  | .literal .. => .nothing
  | .var id name => Scopes.tells_readVariable h id name
  | .assign id name value => by
      have hvalue := value.tells h
      have hlink := hvalue.append (scopes.tells_link id name.lexeme)
      rwa [List.append_nil] at hlink
  | .binary _ left _ right => (left.tells h).append (right.tells h)
  | .logical _ left _ right => (left.tells h).append (right.tells h)
  | .unary _ _ operand => operand.tells h
  | .grouping _ inner => inner.tells h
  | .call _ callee _ arguments => (callee.tells h).append (Expr.tells_all h arguments)
  | .get _ object _ => object.tells h
  | .set _ object _ value => (value.tells h).append (object.tells h)
  | .this id keyword => by
      unfold Survey.Tells Expr.resolve Lexical.surroundings Lexical.classKind
      simp only [Expr.spots, List.flatMap_cons, List.flatMap_nil, List.append_nil,
        Spot.complaints]
      cases inside.superclass? with
      | none => rfl
      | some superclass => cases superclass <;> exact congrArg _ (scopes.faults_link id "this")
  | .super id keyword method => by
      unfold Survey.Tells Expr.resolve Lexical.surroundings Lexical.classKind
      simp only [Expr.spots, List.flatMap_cons, List.flatMap_nil, List.append_nil,
        Spot.complaints]
      cases inside.superclass? with
      | none => rfl
      | some superclass =>
          cases superclass with
          | none => rfl
          | some parent => exact congrArg _ (scopes.faults_link id "super")

theorem Expr.tells_all (h : inside.Awaits scopes) :
    ∀ es : List Expr, (Expr.resolveAll inside.surroundings scopes es).Tells (Expr.spotsAll inside es)
  | [] => .nothing
  | e :: rest => (e.tells h).append (Expr.tells_all h rest)

end

theorem Expr.tells_optional (h : inside.Awaits scopes) (e : Option Expr) :
    (Expr.resolveOptional inside.surroundings scopes e).Tells (Expr.spotsOptional inside e) := by
  cases e with
  | none => exact .nothing
  | some e => exact e.tells h

-- ===================================================================== scopes

/-- Some name of a list is spelt like this. -/
def Lexical.anyNamed (names : List Token) (name : String) : Bool :=
  names.any fun other => other.lexeme == name

/-- A scope that holds some names and no others, all of them ready. -/
def Scope.Knows (scope : Scope) (names : List Token) : Prop :=
  ∀ name, scope.find? name = if Lexical.anyNamed names name then some true else none

namespace Scope.Knows

variable {scope : Scope} {names : List Token}

theorem empty : Scope.Knows Bindings.empty [] := fun _ => rfl

theorem introduce (h : scope.Knows names) (name : Token) :
    Scope.Knows ((scope.set name.lexeme false).set name.lexeme true) (names ++ [name]) := by
  intro other
  rw [Bindings.find?_set, Bindings.find?_set, h other]
  unfold Lexical.anyNamed
  rw [List.any_append]
  by_cases he : name.lexeme = other
  · simp [he]
  · simp [he]

theorem binds_eq (h : scope.Knows names) (name : String) :
    scope.binds name = Lexical.anyNamed names name := by
  unfold Bindings.binds
  rw [h name]
  split <;> simp_all

/-- All that a scope knows is ready. -/
theorem isPending (h : scope.Knows names) (outer : Scopes) (name : String) :
    Scopes.isPending (scope :: outer) name = false := by
  show (scope.find? name == some false) = false
  rw [h name]
  split <;> rfl

end Scope.Knows

/-- A position among statements, and the scopes of the resolver there: the innermost holds the names
that were declared earlier, and at the top level there is none. -/
inductive Lexical.Describes : Lexical → Scopes → Prop
  | top : Describes [] []
  | block {outer : Lexical} {scope : Scope} {scopes : Scopes} {before : List Stmt}
      (knows : scope.Knows (before.filterMap Stmt.declares)) :
      Describes (.block before :: outer) (scope :: scopes)
  | function {outer : Lexical} {scope : Scope} {scopes : Scopes} {f : FunDecl}
      {params : List Token} {before : List Stmt}
      (knows : scope.Knows (params ++ before.filterMap Stmt.declares)) :
      Describes (.function f params before :: outer) (scope :: scopes)
  | method {outer : Lexical} {scope : Scope} {scopes : Scopes} {f : FunDecl}
      {params : List Token} {before : List Stmt}
      (knows : scope.Knows (params ++ before.filterMap Stmt.declares)) :
      Describes (.method f params before :: outer) (scope :: scopes)

namespace Lexical

/-- Behind a statement the surroundings are the same. -/
theorem surroundings_past (inside : Lexical) (s : Stmt) :
    (inside.past s).surroundings = inside.surroundings := by
  cases inside with
  | nil => rfl
  | cons enclosing outer => cases enclosing <;> rfl

theorem Describes.declared (h : inside.Describes scopes) :
    (inside.declared? = none ∧ scopes = [])
      ∨ ∃ names scope outer, inside.declared? = some names ∧ scopes = scope :: outer
        ∧ scope.Knows names := by
  cases h with
  | top => exact .inl ⟨rfl, rfl⟩
  | block knows | function knows | method knows => exact .inr ⟨_, _, _, rfl, rfl, knows⟩

/-- Among statements nothing is being initialized. -/
theorem Describes.awaits (h : inside.Describes scopes) : inside.Awaits scopes := by
  intro name
  cases h with
  | top => rfl
  | block knows | function knows | method knows => exact knows.isPending _ _

/-- Nor is anything when a name was just introduced. -/
theorem Describes.awaits_introduce (h : inside.Describes scopes) (name : Token) :
    inside.Awaits (scopes.introduce name).1 := by
  intro other
  rw [← h.awaits other]
  rcases h.declared with ⟨-, rfl⟩ | ⟨names, scope, outer, -, rfl, hknows⟩
  · rfl
  · rw [hknows.isPending, Scopes.introduce_cons]
    exact (hknows.introduce name).isPending outer other.lexeme

/-- What was declared earlier and what a statement declares. -/
theorem knows_append {scope : Scope} {names : List Token} {before : List Stmt} {s : Stmt}
    {outer : Scopes} (h : scope.Knows (names ++ before.filterMap Stmt.declares)) :
    ∃ scope', Scopes.behind (scope :: outer) s = scope' :: outer
      ∧ scope'.Knows (names ++ (before ++ [s]).filterMap Stmt.declares) := by
  unfold Scopes.behind
  rw [List.filterMap_append, ← List.append_assoc]
  cases hd : s.declares with
  | none =>
      refine ⟨scope, rfl, ?_⟩
      simpa [hd] using h
  | some name =>
      refine ⟨_, rfl, ?_⟩
      simpa [hd] using h.introduce name

theorem Describes.past (h : inside.Describes scopes) (s : Stmt) :
    (inside.past s).Describes (scopes.behind s) := by
  cases h with
  | top =>
      rw [Scopes.behind_nil]
      exact .top
  | @block outer scope scopes before knows =>
      have hknows : scope.Knows ([] ++ before.filterMap Stmt.declares) := knows
      obtain ⟨scope', hbehind, hknows⟩ := knows_append hknows
      rw [hbehind]
      exact .block hknows
  | function knows =>
      obtain ⟨scope', hbehind, hknows⟩ := knows_append knows
      rw [hbehind]
      exact .function hknows
  | method knows =>
      obtain ⟨scope', hbehind, hknows⟩ := knows_append knows
      rw [hbehind]
      exact .method hknows

/-- A name is declared anew exactly when it was declared earlier. -/
theorem Describes.tells_declare (h : inside.Describes scopes) (name : Token) :
    (scopes.declare name).2.Tells [⟨.declares name, inside⟩] := by
  unfold Survey.Tells
  simp only [List.flatMap_cons, List.flatMap_nil, List.append_nil, Spot.complaints]
  rcases h.declared with ⟨hnone, rfl⟩ | ⟨names, scope, outer, hsome, rfl, hknows⟩
  · rw [hnone]
    rfl
  · rw [hsome]
    unfold Scopes.declare
    dsimp only
    rw [hknows.binds_eq]
    unfold anyNamed
    cases names.any fun other => other.lexeme == name.lexeme <;> rfl

/-- While a name is being initialized it is pending, and it alone. -/
theorem Describes.awaits_initializer (h : inside.Describes scopes) (name : Token) :
    Awaits (.initializer name :: inside) (scopes.declare name).1 := by
  intro other
  show _ = (name.lexeme == other.lexeme && (declared? inside).isSome)
  rcases h.declared with ⟨hnone, rfl⟩ | ⟨names, scope, outer, hsome, rfl, hknows⟩
  · rw [hnone]
    simp [Scopes.declare, Scopes.isPending]
  · rw [hsome]
    show (Bindings.find? (scope.set name.lexeme false) other.lexeme == some false) = _
    rw [Bindings.find?_set, hknows other.lexeme]
    by_cases he : name.lexeme = other.lexeme
    · simp [he]
    · simp [he]

end Lexical

-- ================================================================= statements

theorem Surroundings.tells_returnFaults (inside : Lexical) (keyword : Token)
    (value : Option Expr) :
    (inside.surroundings.returnFaults keyword value.isSome).Tells
      [⟨.returns keyword value, inside⟩] := by
  have hnone := inside.functionKind_none_iff
  have hinit := inside.functionKind_initializer_iff
  unfold Survey.Tells Surroundings.returnFaults Lexical.surroundings
  simp only [List.flatMap_cons, List.flatMap_nil, List.append_nil, Spot.complaints,
    Survey.faults_append, List.map_append]
  congr 1
  · cases hf : inside.inFunction with
    | false => rw [if_pos (hnone.mpr hf)]; rfl
    | true =>
        have hne : inside.functionKind ≠ .none := fun he => by
          rw [hnone.mp he] at hf
          cases hf
        rw [if_neg hne]
        rfl
  · cases hi : inside.inInitMethod with
    | false =>
        have hne : inside.functionKind ≠ .initializer := fun he => by
          rw [hinit.mp he] at hi
          cases hi
        simp only [hne, decide_false, Bool.and_false]
        rfl
    | true =>
        simp only [hinit.mpr hi, decide_true, Bool.and_true]
        cases value <;> rfl

/-- A superclass is read where its class stands. -/
theorem Scopes.tells_readSuperclass (h : inside.Awaits scopes) (name : Token) (parent : NameRef) :
    (scopes.readSuperclass name parent).Tells
      (NameRef.spotsOptional inside name (some parent)) := by
  refine Survey.Tells.cons ?_ (Scopes.tells_readVariable h parent.id parent.name)
  unfold Survey.Tells
  simp only [List.flatMap_cons, List.flatMap_nil, List.append_nil, Spot.complaints]
  split <;> rfl

/-- A function as a construct around a place, with the surroundings that the resolver knows in it. -/
structure Enclosing.Own (own : List Token → List Stmt → Enclosing) (inside : Lexical)
    (around : Surroundings) : Prop where
  surroundings (params : List Token) (before : List Stmt) :
    Lexical.surroundings (own params before :: inside) = around
  describes {params : List Token} {before : List Stmt} {scope : Scope} (scopes : Scopes)
    (knows : scope.Knows (params ++ before.filterMap Stmt.declares)) :
    Lexical.Describes (own params before :: inside) (scope :: scopes)

theorem Enclosing.own_function (f : FunDecl) (inside : Lexical) :
    Enclosing.Own (Enclosing.function f) inside ⟨.function, inside.classKind⟩ where
  surroundings _ _ := rfl
  describes _ := .function

theorem Enclosing.own_method (f : FunDecl) (superclass : Option NameRef) (inside : Lexical) :
    Enclosing.Own (Enclosing.method f) (.classBody superclass :: inside)
      ⟨f.methodKind, .ofSuperclass superclass⟩ where
  surroundings _ _ := rfl
  describes _ := .method

/-- Parameters are declared one after another in the scope of their function. -/
theorem Scopes.tells_introduceAll {own : List Token → List Stmt → Enclosing}
    {around : Surroundings} (h : Enclosing.Own own inside around) {scope : Scope} (outer : Scopes)
    {earlier : List Token} (hknows : scope.Knows earlier) (params : List Token) :
    (Scopes.introduceAll (scope :: outer) params).2.Tells
        (Token.spotsAll (fun earlier => own earlier []) inside earlier params)
      ∧ ∃ scope', (Scopes.introduceAll (scope :: outer) params).1 = scope' :: outer
        ∧ scope'.Knows (earlier ++ params) := by
  induction params generalizing scope earlier with
  | nil => exact ⟨.nothing, scope, rfl, by rwa [List.append_nil]⟩
  | cons name rest ih =>
      have hplain : scope.Knows (earlier ++ ([] : List Stmt).filterMap Stmt.declares) := by
        rwa [List.filterMap_nil, List.append_nil]
      obtain ⟨hrest, scope', hscope, hknows'⟩ := ih (hknows.introduce name)
      rw [List.append_assoc] at hknows'
      exact ⟨.cons ((h.describes outer hplain).tells_declare name) hrest, scope', hscope, hknows'⟩

mutual

theorem Stmt.tells {inside : Lexical} {scopes : Scopes} (hd : inside.Describes scopes) :
    ∀ s : Stmt, (∀ n ∈ s.nodes, n.Proper) →
      (s.resolve inside.surroundings scopes).2.Tells (s.spots inside)
  | .expression _ e, _ => e.tells hd.awaits
  | .print _ e, _ => e.tells hd.awaits
  | .varDecl _ name initializer, _ =>
      (hd.tells_declare name).cons (Expr.tells_optional (hd.awaits_initializer name) initializer)
  | .block _ body, h =>
      have hblock : Lexical.Describes (.block [] :: inside) (.empty :: scopes) := .block .empty
      Stmt.tells_all hblock body fun n hn => h n (List.mem_cons_of_mem _ hn)
  | .ifThen id condition thenBranch, h =>
      (condition.tells hd.awaits).append
        (Stmt.tells hd thenBranch fun n hn => h n (by simp [Stmt.nodes, hn]))
  | .ifElse id condition thenBranch elseBranch, h => by
      have hp : thenBranch.declares = none ∧ elseBranch.declares = none :=
        h _ (Stmt.mem_nodes (.ifElse id condition thenBranch elseBranch))
      have hnodes : ∀ n ∈ thenBranch.nodes, n.Proper := fun n hn => h n (by simp [Stmt.nodes, hn])
      have hthen := Stmt.tells hd thenBranch hnodes
      have helse := Stmt.tells hd elseBranch fun n hn => h n (by simp [Stmt.nodes, hn])
      have hall := ((condition.tells hd.awaits).append hthen).append helse
      show (condition.resolve _ _ ++ _ ++ (elseBranch.resolve inside.surroundings
        (thenBranch.resolve inside.surroundings scopes).1).2).Tells _
      rw [Stmt.scopes_resolve_of_declares_none hnodes hp.1]
      exact hall
  | .whileLoop id condition body, h =>
      (condition.tells hd.awaits).append
        (Stmt.tells hd body fun n hn => h n (by simp [Stmt.nodes, hn]))
  | .funDecl f, h => by
      have hbody := FunDecl.tells (Enclosing.own_function f inside) f
        fun n hn => h n (List.mem_cons_of_mem _ hn)
      exact (hd.tells_declare f.name).cons (hbody (scopes.introduce f.name).1)
  | .returnStmt _ keyword value, _ =>
      (Surroundings.tells_returnFaults inside keyword value).cons
        (Expr.tells_optional hd.awaits value)
  | .classDecl id name none methods, h => by
      have hmethods := FunDecl.tells_all none inside methods
        fun n hn => h n (by simp [Stmt.nodes, hn])
      exact (hd.tells_declare name).cons (hmethods (.holding "this" :: (scopes.introduce name).1))
  | .classDecl id name (some parent) methods, h => by
      have hmethods := FunDecl.tells_all (some parent) inside methods
        fun n hn => h n (by simp [Stmt.nodes, hn])
      have hparent := Scopes.tells_readSuperclass (hd.awaits_introduce name) name parent
      exact ((hd.tells_declare name).cons hparent).append
        (hmethods (.holding "this" :: .holding "super" :: (scopes.introduce name).1))

theorem Stmt.tells_all {inside : Lexical} {scopes : Scopes} (hd : inside.Describes scopes) :
    ∀ body : List Stmt, (∀ n ∈ Stmt.nodesAll body, n.Proper) →
      (Stmt.resolveAll inside.surroundings scopes body).2.Tells (Stmt.spotsAll inside body)
  | [], _ => .nothing
  | s :: rest, h => by
      have hnodes : ∀ n ∈ s.nodes, n.Proper := fun n hn => h n (List.mem_append_left _ hn)
      have hs := Stmt.tells hd s hnodes
      have hrest := Stmt.tells_all (hd.past s) rest fun n hn => h n (List.mem_append_right _ hn)
      rw [Lexical.surroundings_past] at hrest
      show ((s.resolve inside.surroundings scopes).2 ++ (Stmt.resolveAll inside.surroundings
        (s.resolve inside.surroundings scopes).1 rest).2).Tells _
      rw [Stmt.scopes_resolve _ _ s hnodes]
      exact hs.append hrest

theorem FunDecl.tells {inside : Lexical} {own : List Token → List Stmt → Enclosing}
    {around : Surroundings} (h : Enclosing.Own own inside around) :
    ∀ f : FunDecl, (∀ n ∈ f.nodes, n.Proper) →
      ∀ scopes : Scopes, (f.resolve around scopes).Tells (f.spots own inside)
  | .mk _ _ params body, hnodes, scopes => by
      obtain ⟨hparams, scope, hscope, hknows⟩ :=
        Scopes.tells_introduceAll h scopes Scope.Knows.empty params
      have hplain : scope.Knows (params ++ ([] : List Stmt).filterMap Stmt.declares) := by
        rw [List.filterMap_nil, List.append_nil]
        exact hknows
      have hbody := Stmt.tells_all (h.describes scopes hplain) body hnodes
      rw [h.surroundings] at hbody
      show ((Scopes.introduceAll (.empty :: scopes) params).2
        ++ (Stmt.resolveAll around (Scopes.introduceAll (.empty :: scopes) params).1 body).2).Tells _
      rw [hscope]
      exact hparams.append hbody

theorem FunDecl.tells_all (superclass : Option NameRef) (inside : Lexical) :
    ∀ methods : List FunDecl, (∀ n ∈ FunDecl.nodesAll methods, n.Proper) →
      ∀ scopes : Scopes,
        (FunDecl.resolveMethods (.ofSuperclass superclass) scopes methods).Tells
          (FunDecl.spotsAll (.classBody superclass :: inside) methods)
  | [], _, _ => .nothing
  | f :: rest, h, scopes =>
      (FunDecl.tells (Enclosing.own_method f superclass inside) f
        (fun n hn => h n (List.mem_append_left _ hn)) scopes).append
        (FunDecl.tells_all superclass inside rest
          (fun n hn => h n (List.mem_append_right _ hn)) scopes)

end

/-- **The resolver rejects exactly the illegal programs.** What it reports of a program that was read
is what is to be said against the spots of the program, each spot on its own and by its lexical
position alone. So a program is refused exactly if some spot of it is illegal. -/
theorem faults_eq_complaints {text : List Char} {nextId : NodeId} {body : List Stmt}
    (read : (readProgram text nextId).program = .ok body) :
    ((resolveProgram body).faults.map ScopeFault.report : Multiset (String × Token))
        = ((programSpots body).flatMap Spot.complaints : Multiset (String × Token))
      ∧ ((resolveProgram body).faults ≠ [] ↔ ∃ spot ∈ programSpots body, spot.complaints ≠ []) := by
  have htells : (resolveProgram body).Tells (programSpots body) :=
    Stmt.tells_all .top body (readAs_of_program read).proper
  refine ⟨congrArg _ htells, ?_⟩
  have hempty : (resolveProgram body).faults = []
      ↔ (programSpots body).flatMap Spot.complaints = [] := by
    rw [← htells, List.map_eq_nil_iff]
  rw [Ne, hempty, List.flatMap_eq_nil_iff]
  push Not
  rfl

/-- A program with a fault of every kind. -/
def illegalText : List Char :=
  ("return 1; class A < A \x7b init() \x7b return 2; \x7d \x7d class B \x7b m() \x7b super.n; \x7d \x7d "
    ++ "this; super.n; \x7b var a = a; var a; \x7d fun f(p, p) \x7b var p; \x7d").toList

theorem faults_eq_complaints_illegal :
    ∃ body, (readProgram illegalText 1).program = .ok body
      ∧ (resolveProgram body).faults.length = 10
      ∧ ((resolveProgram body).faults.map ScopeFault.report : Multiset (String × Token))
        = ((programSpots body).flatMap Spot.complaints : Multiset (String × Token)) := by
  have hread : (readProgram illegalText 1).program.toOption.any
      (fun body => (resolveProgram body).faults.length == 10) = true := by decide +kernel
  cases hprogram : (readProgram illegalText 1).program with
  | error faults =>
      rw [hprogram] at hread
      cases hread
  | ok body =>
      rw [hprogram] at hread
      exact ⟨body, rfl, beq_iff_eq.mp hread, (faults_eq_complaints hprogram).1⟩

end Lox
