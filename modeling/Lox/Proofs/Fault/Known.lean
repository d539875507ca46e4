/-
Machines on which everything is known: the functions in the heap come from
declarations whose tokens are among known ones, and its initializers are bare. A
known tree is one that is like itself, so that what runs known trees on a known
machine is a case of what runs trees that are alike (`Likeness.within`).
-/
import Lox.Proofs.Return.Level

namespace Lox

-- =================================================================== tokens

mutual

/-- The tokens of a tree, in the order of the text. -/
def Expr.tokens : Expr → List Token
  | .literal _ _ token => token.toList
  | .var _ name => [name]
  | .assign _ name value => name :: value.tokens
  | .binary _ left operator right => left.tokens ++ operator :: right.tokens
  | .logical _ left operator right => left.tokens ++ operator :: right.tokens
  | .unary _ operator operand => operator :: operand.tokens
  | .grouping _ inner => inner.tokens
  | .call _ callee paren arguments => callee.tokens ++ Expr.tokensAll arguments ++ [paren]
  | .get _ object name => object.tokens ++ [name]
  | .set _ object name value => object.tokens ++ name :: value.tokens
  | .this _ keyword => [keyword]
  | .super _ keyword method => [keyword, method]

def Expr.tokensAll : List Expr → List Token
  | [] => []
  | e :: rest => e.tokens ++ Expr.tokensAll rest

end

def Expr.tokensOptional : Option Expr → List Token
  | none => []
  | some e => e.tokens

def NameRef.tokensOptional : Option NameRef → List Token
  | none => []
  | some parent => [parent.name]

mutual

def Stmt.tokens : Stmt → List Token
  | .expression _ e => e.tokens
  | .print _ e => e.tokens
  | .varDecl _ name initializer => name :: Expr.tokensOptional initializer
  | .block _ body => Stmt.tokensAll body
  | .ifThen _ condition thenBranch => condition.tokens ++ thenBranch.tokens
  | .ifElse _ condition thenBranch elseBranch =>
    condition.tokens ++ thenBranch.tokens ++ elseBranch.tokens
  | .whileLoop _ condition body => condition.tokens ++ body.tokens
  | .funDecl f => f.tokens
  | .returnStmt _ keyword value => keyword :: Expr.tokensOptional value
  | .classDecl _ name superclass methods =>
    name :: NameRef.tokensOptional superclass ++ FunDecl.tokensAll methods

def Stmt.tokensAll : List Stmt → List Token
  | [] => []
  | s :: rest => s.tokens ++ Stmt.tokensAll rest

def FunDecl.tokens : FunDecl → List Token
  | .mk _ name params body => name :: params ++ Stmt.tokensAll body

def FunDecl.tokensAll : List FunDecl → List Token
  | [] => []
  | f :: rest => f.tokens ++ FunDecl.tokensAll rest

end

-- ============================================================== known trees

/-- Trees of known tokens, with bare initializers, are like themselves. -/
def Likeness.within (known : List Token) : Likeness where
  nodes id id' := id' = id
  tokens token token' := token' = token ∧ token ∈ known
  constants token token' := token' = token
  functions isInitializer f f' := f' = f ∧ (isInitializer = true → f.Bare)
  spelt same := congrArg Token.lexeme same.1

variable {known : List Token}

theorem Token.alike_all {tokens : List Token} (h : ∀ t ∈ tokens, t ∈ known) :
    List.Forall₂ (Likeness.within known).tokens tokens tokens :=
  List.forall₂_same.2 fun t ht => ⟨rfl, h t ht⟩

mutual

theorem Expr.alike_self : ∀ e : Expr, (∀ t ∈ e.tokens, t ∈ known) →
    e.Alike (.within known) e
  | .literal .., _ => .literal rfl rfl
  | .var _ name, h => .var rfl ⟨rfl, h name List.mem_cons_self⟩
  | .assign _ name value, h =>
      .assign rfl ⟨rfl, h name List.mem_cons_self⟩
        (value.alike_self fun t ht => h t (List.mem_cons_of_mem _ ht))
  | .binary _ left operator right, h =>
      .binary rfl (left.alike_self fun t ht => h t (by simp [Expr.tokens, ht]))
        ⟨rfl, h operator (by simp [Expr.tokens])⟩
        (right.alike_self fun t ht => h t (by simp [Expr.tokens, ht]))
  | .logical _ left operator right, h =>
      .logical rfl (left.alike_self fun t ht => h t (by simp [Expr.tokens, ht]))
        ⟨rfl, h operator (by simp [Expr.tokens])⟩
        (right.alike_self fun t ht => h t (by simp [Expr.tokens, ht]))
  | .unary _ operator operand, h =>
      .unary rfl ⟨rfl, h operator List.mem_cons_self⟩
        (operand.alike_self fun t ht => h t (List.mem_cons_of_mem _ ht))
  | .grouping _ inner, h => .grouping rfl (inner.alike_self h)
  | .call _ callee paren arguments, h =>
      .call rfl (callee.alike_self fun t ht => h t (by simp [Expr.tokens, ht]))
        ⟨rfl, h paren (by simp [Expr.tokens])⟩
        (Expr.alike_self_all arguments fun t ht => h t (by simp [Expr.tokens, ht]))
  | .get _ object name, h =>
      .get rfl (object.alike_self fun t ht => h t (by simp [Expr.tokens, ht]))
        ⟨rfl, h name (by simp [Expr.tokens])⟩
  | .set _ object name value, h =>
      .set rfl (object.alike_self fun t ht => h t (by simp [Expr.tokens, ht]))
        ⟨rfl, h name (by simp [Expr.tokens])⟩
        (value.alike_self fun t ht => h t (by simp [Expr.tokens, ht]))
  | .this _ keyword, h => .this rfl ⟨rfl, h keyword List.mem_cons_self⟩
  | .super _ keyword method, h =>
      .super rfl ⟨rfl, h keyword List.mem_cons_self⟩
        ⟨rfl, h method (List.mem_cons_of_mem _ List.mem_cons_self)⟩

theorem Expr.alike_self_all : ∀ es : List Expr, (∀ t ∈ Expr.tokensAll es, t ∈ known) →
    List.Forall₂ (Expr.Alike (.within known)) es es
  | [], _ => .nil
  | e :: rest, h =>
      .cons (e.alike_self fun t ht => h t (List.mem_append_left _ ht))
        (Expr.alike_self_all rest fun t ht => h t (List.mem_append_right _ ht))

end

theorem Expr.alike_self_optional (e : Option Expr)
    (h : ∀ t ∈ Expr.tokensOptional e, t ∈ known) :
    Option.Rel (Expr.Alike (.within known)) e e := by
  cases e with
  | none => exact .none
  | some e => exact .some (e.alike_self h)

theorem NameRef.alike_self_optional (parent : Option NameRef)
    (h : ∀ t ∈ NameRef.tokensOptional parent, t ∈ known) :
    Option.Rel (NameRef.Alike (.within known)) parent parent := by
  cases parent with
  | none => exact .none
  | some parent => exact .some ⟨rfl, rfl, h _ List.mem_cons_self⟩

mutual

/-- Known expressions are like themselves only. -/
theorem Expr.eq_of_alike : ∀ {e e' : Expr}, e.Alike (.within known) e' → e' = e
  | .literal .., _, .literal rfl rfl => rfl
  | .var .., _, .var rfl ⟨rfl, _⟩ => rfl
  | .assign .., _, .assign rfl ⟨rfl, _⟩ value => by rw [Expr.eq_of_alike value]
  | .binary .., _, .binary rfl left ⟨rfl, _⟩ right => by
      rw [Expr.eq_of_alike left, Expr.eq_of_alike right]
  | .logical .., _, .logical rfl left ⟨rfl, _⟩ right => by
      rw [Expr.eq_of_alike left, Expr.eq_of_alike right]
  | .unary .., _, .unary rfl ⟨rfl, _⟩ operand => by rw [Expr.eq_of_alike operand]
  | .grouping .., _, .grouping rfl inner => by rw [Expr.eq_of_alike inner]
  | .call .., _, .call rfl callee ⟨rfl, _⟩ arguments => by
      rw [Expr.eq_of_alike callee, Expr.eq_of_alike_all arguments]
  | .get .., _, .get rfl object ⟨rfl, _⟩ => by rw [Expr.eq_of_alike object]
  | .set .., _, .set rfl object ⟨rfl, _⟩ value => by
      rw [Expr.eq_of_alike object, Expr.eq_of_alike value]
  | .this .., _, .this rfl ⟨rfl, _⟩ => rfl
  | .super .., _, .super rfl ⟨rfl, _⟩ ⟨rfl, _⟩ => rfl

theorem Expr.eq_of_alike_all : ∀ {es es' : List Expr},
    List.Forall₂ (Expr.Alike (.within known)) es es' → es' = es
  | [], _, .nil => rfl
  | _ :: _, _, .cons first rest => by rw [Expr.eq_of_alike first, Expr.eq_of_alike_all rest]

end

mutual

/-- Statements that the resolver accepts are known when their tokens are. -/
theorem Stmt.alike_self {around : Surroundings} : ∀ {scopes : Scopes} (s : Stmt),
    (∀ t ∈ s.tokens, t ∈ known) → (s.resolve around scopes).2.faults = [] →
      s.Alike (.within known) s
  | _, .expression _ e, h, _ => .expression rfl (e.alike_self h)
  | _, .print _ e, h, _ => .print rfl (e.alike_self h)
  | _, .varDecl _ name initializer, h, _ =>
      .varDecl rfl ⟨rfl, h name List.mem_cons_self⟩
        (Expr.alike_self_optional initializer fun t ht => h t (List.mem_cons_of_mem _ ht))
  | _, .block _ body, h, hc => .block rfl (Stmt.alike_self_all body h hc)
  | _, .ifThen _ condition thenBranch, h, hc =>
      .ifThen rfl (condition.alike_self fun t ht => h t (List.mem_append_left _ ht))
        (thenBranch.alike_self (fun t ht => h t (List.mem_append_right _ ht))
          (Survey.clear_append hc).2)
  | _, .ifElse _ condition thenBranch elseBranch, h, hc =>
      have hclear := Survey.clear_append hc
      .ifElse rfl (condition.alike_self fun t ht => h t (by simp [Stmt.tokens, ht]))
        (thenBranch.alike_self (fun t ht => h t (by simp [Stmt.tokens, ht]))
          (Survey.clear_append hclear.1).2)
        (elseBranch.alike_self (fun t ht => h t (by simp [Stmt.tokens, ht])) hclear.2)
  | _, .whileLoop _ condition body, h, hc =>
      .whileLoop rfl (condition.alike_self fun t ht => h t (List.mem_append_left _ ht))
        (body.alike_self (fun t ht => h t (List.mem_append_right _ ht)) (Survey.clear_append hc).2)
  | _, .funDecl f, h, hc =>
      .funDecl rfl (f.alike_self h (Survey.clear_append hc).2) ⟨rfl, nofun⟩
  | _, .returnStmt _ keyword value, h, _ =>
      .returnStmt rfl ⟨rfl, h keyword List.mem_cons_self⟩
        (Expr.alike_self_optional value fun t ht => h t (List.mem_cons_of_mem _ ht))
  | _, .classDecl _ name none methods, h, hc =>
      have hmethods := FunDecl.alike_self_all methods
        (fun t ht => h t (by simp [Stmt.tokens, ht])) (Survey.clear_append hc).2
      .classDecl rfl ⟨rfl, h name (by simp [Stmt.tokens])⟩ .none hmethods.1 hmethods.2
  | _, .classDecl _ name (some parent) methods, h, hc =>
      have hmethods := FunDecl.alike_self_all methods
        (fun t ht => h t (by simp [Stmt.tokens, ht])) (Survey.clear_append hc).2
      .classDecl rfl ⟨rfl, h name (by simp [Stmt.tokens])⟩
        (NameRef.alike_self_optional (some parent) fun t ht => h t (by simp [Stmt.tokens, ht]))
        hmethods.1 hmethods.2

theorem Stmt.alike_self_all {around : Surroundings} : ∀ {scopes : Scopes} (body : List Stmt),
    (∀ t ∈ Stmt.tokensAll body, t ∈ known) →
      (Stmt.resolveAll around scopes body).2.faults = [] →
      List.Forall₂ (Stmt.Alike (.within known)) body body
  | _, [], _, _ => .nil
  | _, s :: rest, h, hc =>
      have hclear := Survey.clear_append hc
      .cons (s.alike_self (fun t ht => h t (List.mem_append_left _ ht)) hclear.1)
        (Stmt.alike_self_all rest (fun t ht => h t (List.mem_append_right _ ht)) hclear.2)

theorem FunDecl.alike_self {around : Surroundings} : ∀ {scopes : Scopes} (f : FunDecl),
    (∀ t ∈ f.tokens, t ∈ known) → (f.resolve around scopes).faults = [] →
      f.Alike (.within known) f
  | _, .mk _ name params body, h, hc =>
      .mk ⟨rfl, h name (by simp [FunDecl.tokens])⟩
        (Token.alike_all fun t ht => h t (by simp [FunDecl.tokens, ht]))
        (Stmt.alike_self_all body (fun t ht => h t (by simp [FunDecl.tokens, ht]))
          (Survey.clear_append hc).2)

theorem FunDecl.alike_self_all {inClass : ClassKind} : ∀ {scopes : Scopes}
    (methods : List FunDecl), (∀ t ∈ FunDecl.tokensAll methods, t ∈ known) →
      (FunDecl.resolveMethods inClass scopes methods).faults = [] →
      List.Forall₂ (FunDecl.Alike (.within known)) methods methods
        ∧ (Likeness.within known).Methods methods methods
  | _, [], _, _ => ⟨.nil, .nil⟩
  | _, f :: rest, h, hc =>
      have hclear := Survey.clear_append hc
      have hrest := FunDecl.alike_self_all rest
        (fun t ht => h t (List.mem_append_right _ ht)) hclear.2
      ⟨.cons (f.alike_self (fun t ht => h t (List.mem_append_left _ ht)) hclear.1) hrest.1,
        .cons ⟨rfl, f.bare_of_clear hclear.1⟩ hrest.2⟩

end

end Lox
