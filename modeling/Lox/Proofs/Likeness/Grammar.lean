/-
One text read twice, with the nodes numbered from different starts. Reading never
looks at a number, so both readings go the same way: they fail alike, at the same
place and with the same record, or they bring trees that are alike.

A comparison of readers is put together as the readers are (`Parser.Alike`): one
lemma for every combinator, and then one for every rule of the grammar.
-/
import Lox.Grammar.Program
import Lox.Proofs.Likeness.Tree
import Lox.Proofs.Reading.Contract

namespace Lox

/-- A likeness by which what is read twice from one text is alike. -/
structure Likeness.Reads (ρ : Likeness) : Prop where
  tokens (token : Token) : ρ.tokens token token
  constants (token : Token) : ρ.constants (some token) (some token)
  functions (isInitializer : Bool) (f f' : FunDecl) : ρ.functions isInitializer f f'

/-- Two points of progress that differ only in how many numbers were handed out. From there on
numbers correspond. -/
structure Progress.Alike (ρ : Likeness) (s s' : Progress) : Prop where
  cursor : s'.cursor = s.cursor
  recovered : s'.recovered = s.recovered
  bound : s'.bound = s.bound
  nodes (k : Nat) : ρ.nodes (s.nextId + k) (s'.nextId + k)

namespace Progress.Alike

variable {ρ : Likeness} {s s' t t' : Progress}

/-- A move of the cursor on both sides. -/
theorem moved (h : s.Alike ρ s') (c : Cursor) :
    Progress.Alike ρ { s with cursor := c } { s' with cursor := c } := ⟨rfl, h.recovered, h.bound, h.nodes⟩

/-- Going back to where both were before. -/
theorem back (h : t.Alike ρ t') (hs : s.Alike ρ s') :
    Progress.Alike ρ { t with cursor := s.cursor } { t' with cursor := s'.cursor } :=
  ⟨hs.cursor, h.recovered, h.bound, h.nodes⟩

theorem numbered (h : s.Alike ρ s') :
    Progress.Alike ρ { s with nextId := s.nextId + 1 } { s' with nextId := s'.nextId + 1 } where
  cursor := h.cursor
  recovered := h.recovered
  bound := h.bound
  nodes k := by
    have hnode := h.nodes (1 + k)
    rw [← Nat.add_assoc, ← Nat.add_assoc] at hnode
    exact hnode

end Progress.Alike

namespace Parser

/-- Two readings end alike. -/
inductive EndsAlike {α : Type} (ρ : Likeness) (R : α → α → Prop) :
    EStateM.Result Failure Progress α → EStateM.Result Failure Progress α → Prop
  | ok {a a' : α} {t t' : Progress} (found : R a a') (progress : t.Alike ρ t') :
      EndsAlike ρ R (.ok a t) (.ok a' t')
  | error {e : Failure} {t t' : Progress} (progress : t.Alike ρ t') :
      EndsAlike ρ R (.error e t) (.error e t')

/-- Two readers that read alike. -/
def Alike {α : Type} (ρ : Likeness) (R : α → α → Prop) (p p' : Parser α) : Prop :=
  ∀ s s', s.Alike ρ s' → EndsAlike ρ R (p s) (p' s')

namespace Alike

variable {α β : Type} {ρ : Likeness} {R : α → α → Prop} {S : β → β → Prop} {p p' : Parser α}
  {f f' : α → Parser β}

-- ============================================================ the combinators

theorem mono {T : α → α → Prop} (hp : Alike ρ R p p') (h : ∀ a a', R a a' → T a a') :
    Alike ρ T p p' := by
  intro s s' hs
  have hends := hp s s' hs
  generalize p s = r at hends
  generalize p' s' = r' at hends
  cases hends with
  | ok found progress => exact .ok (h _ _ found) progress
  | error progress => exact .error progress

theorem pure {a a' : α} (h : R a a') : Alike ρ R (pure a) (pure a') := fun _ _ hs => .ok h hs

theorem bind (hp : Alike ρ R p p') (hf : ∀ a a', R a a' → Alike ρ S (f a) (f' a')) :
    Alike ρ S (p >>= f) (p' >>= f') := by
  intro s s' hs
  have hends := hp s s' hs
  generalize hr : p s = r at hends
  generalize hr' : p' s' = r' at hends
  cases hends with
  | ok found progress =>
      rw [run_bind_ok hr, run_bind_ok hr']
      exact hf _ _ found _ _ progress
  | error progress =>
      rw [run_bind_error hr, run_bind_error hr']
      exact .error progress

/-- What does not depend on numbers is the same on both sides. -/
theorem same (hp : Alike ρ Eq p p') (hf : ∀ a, Alike ρ S (f a) (f' a)) :
    Alike ρ S (p >>= f) (p' >>= f') := by
  refine hp.bind fun a a' h => ?_
  obtain rfl := h
  exact hf a

theorem failAt (weight : Weight) (cause : FaultCause) (place : Place) :
    Alike ρ R (failAt weight cause place) (failAt weight cause place) := fun _ _ hs => .error hs

theorem reject (what : Expectation) : Alike ρ R (reject what) (reject what) := by
  intro s s' hs
  unfold Parser.reject
  rw [hs.cursor]
  exact .error hs

theorem exhausted : Alike ρ R exhausted exhausted := reject _

theorem committed (hp : Alike ρ R p p') : Alike ρ R (committed p) (committed p') := by
  intro s s' hs
  have hends := hp s s' hs
  unfold Parser.committed
  generalize p s = r at hends ⊢
  generalize p' s' = r' at hends ⊢
  cases hends with
  | ok found progress => exact .ok found progress
  | error progress => exact .error progress

theorem here : Alike ρ Eq here here := by
  intro s s' hs
  unfold Parser.here
  rw [hs.cursor]
  exact .ok rfl hs

theorem skipTrivia : Alike ρ Eq skipTrivia skipTrivia := by
  intro s s' hs
  unfold Parser.skipTrivia
  rw [hs.cursor]
  exact .ok rfl (hs.moved _)

theorem take (n : Nat) : Alike ρ Eq (take n) (take n) := by
  intro s s' hs
  unfold Parser.take
  rw [hs.cursor]
  exact .ok rfl (hs.moved _)

theorem freshId : Alike ρ ρ.nodes freshId freshId := fun _ _ hs => .ok (hs.nodes 0) hs.numbered

theorem optional (hp : Alike ρ R p p') : Alike ρ (Option.Rel R) (optional p) (optional p') := by
  intro s s' hs
  have hends := hp s s' hs
  unfold Parser.optional
  generalize p s = r at hends ⊢
  generalize p' s' = r' at hends ⊢
  cases hends with
  | ok found progress => exact .ok (.some found) progress
  | @error e _ _ progress =>
      dsimp only
      cases e.weight with
      | soft => exact .ok .none (progress.back hs)
      | refusal | committed => exact .error progress

theorem manyWithin (hp : Alike ρ R p p') (rounds : Nat) :
    Alike ρ (List.Forall₂ R) (manyWithin p rounds) (manyWithin p' rounds) := by
  induction rounds with
  | zero => exact .pure .nil
  | succ rounds ih =>
      refine hp.optional.bind fun o o' h => ?_
      cases h with
      | none => exact .pure .nil
      | some ha => exact ih.bind fun more more' hmore => .pure (.cons ha hmore)

theorem many (hp : Alike ρ R p p') : Alike ρ (List.Forall₂ R) (many p) (many p') := by
  intro s s' hs
  unfold Parser.many
  rw [hs.bound]
  exact hp.manyWithin _ s s' hs

theorem firstOf {ps ps' : List (Parser α)} (hps : List.Forall₂ (Alike ρ R) ps ps')
    (best : Option Failure) : Alike ρ R (firstOf best ps) (firstOf best ps') := by
  induction hps generalizing best with
  | nil =>
      intro s s' hs
      unfold Parser.firstOf
      cases best with
      | none =>
          dsimp only
          rw [hs.cursor]
          exact .error hs
      | some e => exact .error hs
  | @cons p p' ps ps' hp _ ih =>
      intro s s' hs
      have hends := hp s s' hs
      unfold Parser.firstOf
      generalize p s = r at hends ⊢
      generalize p' s' = r' at hends ⊢
      cases hends with
      | ok found progress => exact .ok found progress
      | @error e _ _ progress =>
          dsimp only
          cases e.weight with
          | soft => exact ih _ _ _ (progress.back hs)
          | refusal | committed => exact .error progress

theorem choice (name : Expectation) {ps ps' : List (Parser α)}
    (hps : List.Forall₂ (Alike ρ R) ps ps') : Alike ρ R (choice name ps) (choice name ps') := by
  intro s s' hs
  unfold Parser.choice
  dsimp only
  rw [hs.cursor]
  have hends := firstOf hps none _ _ (hs.moved s.cursor.skipTrivia)
  generalize Parser.firstOf none ps _ = r at hends ⊢
  generalize Parser.firstOf none ps' _ = r' at hends ⊢
  cases hends with
  | ok found progress => exact .ok found progress
  | error progress =>
      dsimp only
      split <;> exact .error progress

end Alike

-- ============================================================= single words

section Words

variable {ρ : Likeness}

/-- A reader that passes trivia, looks at the text, and goes on alike. -/
theorem alike_look {α : Type} {R : α → α → Prop} {k : Cursor → Parser α}
    (hk : ∀ c, Alike ρ R (k c) (k c)) :
    Alike ρ R (do let _ ← skipTrivia; let cursor ← here; k cursor)
      (do let _ ← skipTrivia; let cursor ← here; k cursor) :=
  Alike.skipTrivia.same fun _ => Alike.here.same hk

theorem alike_takeToken (kind : TokenKind) (n : Nat) :
    Alike ρ Eq (takeToken kind n) (takeToken kind n) :=
  Alike.here.same fun _ => (Alike.take n).same fun _ => .pure rfl

theorem alike_symbol (c : Char) : Alike ρ Eq (symbol c) (symbol c) := by
  refine alike_look fun cursor => ?_
  split
  · exact .take 1
  · exact .reject _

theorem alike_symbolToken (kind : TokenKind) (c : Char) :
    Alike ρ Eq (symbolToken kind c) (symbolToken kind c) := by
  refine alike_look fun cursor => ?_
  split
  · exact alike_takeToken kind 1
  · exact .reject _

theorem alike_keyword (kind : TokenKind) (word : String) :
    Alike ρ Eq (keyword kind word) (keyword kind word) := by
  refine alike_look fun cursor => ?_
  split
  · exact .reject _
  split
  · exact .failAt _ _ _
  dsimp only
  split
  · exact .failAt _ _ _
  · exact alike_takeToken _ _

theorem alike_operator (spellings : List String) :
    Alike ρ Eq (operator spellings) (operator spellings) := by
  refine alike_look fun cursor => ?_
  split
  · exact alike_takeToken _ _
  · exact .reject _

theorem alike_equalSign : Alike ρ Eq equalSign equalSign := by
  refine alike_look fun cursor => ?_
  split
  · exact .reject _
  · exact alike_takeToken _ _
  · exact .reject _

theorem alike_identifier : Alike ρ Eq identifier identifier := by
  refine alike_look fun cursor => ?_
  dsimp only
  split
  · exact .reject _
  · exact alike_takeToken _ _

theorem alike_numberConstant : Alike ρ Eq numberConstant numberConstant := by
  refine alike_look fun cursor => ?_
  dsimp only
  split
  · exact .reject _
  · exact (alike_takeToken _ _).same fun _ => .pure rfl

theorem alike_stringConstant : Alike ρ Eq stringConstant stringConstant := by
  refine alike_look fun cursor => ?_
  split
  · dsimp only
    split
    · exact (Alike.take _).same fun _ => .pure rfl
    · exact .reject _
  · exact .reject _

theorem alike_wordConstant (word : String) (value : Constant) :
    Alike ρ Eq (wordConstant word value) (wordConstant word value) :=
  (alike_keyword _ _).same fun _ => .pure rfl

theorem alike_word (spelling : String) : Alike ρ Eq (word spelling) (word spelling) :=
  (alike_keyword _ _).same fun _ => .pure rfl

end Words

-- ============================================================== expressions

section Expressions

variable {ρ : Likeness} (hρ : ρ.Reads)
include hρ

theorem alike_literal {p : Parser (Constant × Token)} (hp : Alike ρ Eq p p) :
    Alike ρ (Expr.Alike ρ) (literal p) (literal p) :=
  hp.same fun (_, token) => Alike.freshId.bind fun _ _ hid =>
    .pure (.literal hid (hρ.constants token))

theorem alike_thisExpr : Alike ρ (Expr.Alike ρ) thisExpr thisExpr :=
  (alike_keyword _ _).same fun token => Alike.freshId.bind fun _ _ hid =>
    .pure (.this hid (hρ.tokens token))

theorem alike_superExpr : Alike ρ (Expr.Alike ρ) superExpr superExpr :=
  (alike_keyword _ _).same fun token => .committed <|
    (alike_symbol _).same fun _ => alike_identifier.same fun method =>
      Alike.freshId.bind fun _ _ hid => .pure (.super hid (hρ.tokens token) (hρ.tokens method))

theorem alike_variableExpr : Alike ρ (Expr.Alike ρ) variableExpr variableExpr :=
  alike_identifier.same fun name => Alike.freshId.bind fun _ _ hid =>
    .pure (.var hid (hρ.tokens name))

variable {expression : Parser Expr} (he : Alike ρ (Expr.Alike ρ) expression expression)

include he in
omit hρ in
theorem alike_groupingExpr :
    Alike ρ (Expr.Alike ρ) (groupingExpr expression) (groupingExpr expression) :=
  (alike_symbol _).same fun _ => .committed <|
    he.bind fun _ _ hinner => (alike_symbol _).same fun _ => Alike.freshId.bind fun _ _ hid =>
      .pure (.grouping hid hinner)

include he in
theorem alike_primary : Alike ρ (Expr.Alike ρ) (primary expression) (primary expression) :=
  .choice _ (.cons (alike_literal hρ alike_numberConstant)
    (.cons (alike_literal hρ alike_stringConstant)
    (.cons (alike_literal hρ (alike_wordConstant _ _))
    (.cons (alike_literal hρ (alike_wordConstant _ _))
    (.cons (alike_literal hρ (alike_wordConstant _ _))
    (.cons (alike_thisExpr hρ)
    (.cons (alike_superExpr hρ)
    (.cons (alike_variableExpr hρ)
    (.cons (alike_groupingExpr he) .nil)))))))))

omit hρ in
theorem alike_commaSeparated {α : Type} {R : α → α → Prop} {item : Parser α}
    (hitem : Alike ρ R item item) :
    Alike ρ (List.Forall₂ R) (commaSeparated item) (commaSeparated item) := by
  have hfound : Alike ρ (Option.Rel (List.Forall₂ R)) (optional do
      let first ← item
      let more ← many do
        symbol ','
        item
      pure (first :: more)) (optional do
      let first ← item
      let more ← many do
        symbol ','
        item
      pure (first :: more)) :=
    .optional <| hitem.bind fun _ _ hfirst =>
      (Alike.many ((alike_symbol _).same fun _ => hitem)).bind fun _ _ hmore =>
        .pure (.cons hfirst hmore)
  refine hfound.bind fun found found' h => .pure ?_
  cases h with
  | none => exact .nil
  | some hall => exact hall

/-- What follows a callee or an object on both sides. -/
inductive Suffix.Alike (ρ : Likeness) : Suffix → Suffix → Prop
  | call {paren paren' : Token} {arguments arguments' : List Expr} (hparen : ρ.tokens paren paren')
      (harguments : List.Forall₂ (Expr.Alike ρ) arguments arguments') :
      Suffix.Alike ρ (.call paren arguments) (.call paren' arguments')
  | get {name name' : Token} (hname : ρ.tokens name name') : Suffix.Alike ρ (.get name) (.get name')

include he in
theorem alike_callSuffix :
    Alike ρ (Suffix.Alike ρ) (callSuffix expression) (callSuffix expression) := by
  refine Alike.skipTrivia.same fun place => (alike_symbol _).same fun _ =>
    (alike_commaSeparated he).bind fun arguments arguments' harguments =>
      (alike_symbolToken _ _).same fun paren => ?_
  rw [← harguments.length_eq]
  split
  · exact .failAt _ _ _
  · exact .pure (.call (hρ.tokens paren) harguments)

theorem alike_getSuffix : Alike ρ (Suffix.Alike ρ) getSuffix getSuffix :=
  (alike_symbol _).same fun _ => alike_identifier.same fun name => .pure (.get (hρ.tokens name))

omit hρ in
theorem alike_applySuffixes {suffixes suffixes' : List Suffix}
    (h : List.Forall₂ (Suffix.Alike ρ) suffixes suffixes') {e e' : Expr} (head : e.Alike ρ e') :
    Alike ρ (Expr.Alike ρ) (applySuffixes e suffixes) (applySuffixes e' suffixes') := by
  induction h generalizing e e' with
  | nil => exact .pure head
  | cons hx _ ih =>
      cases hx with
      | call hparen harguments =>
          exact Alike.freshId.bind fun _ _ hid => ih (.call hid head hparen harguments)
      | get hname => exact Alike.freshId.bind fun _ _ hid => ih (.get hid head hname)

include he in
theorem alike_call : Alike ρ (Expr.Alike ρ) (call expression) (call expression) :=
  (alike_primary hρ he).bind fun _ _ head =>
    (Alike.many (.firstOf (.cons (alike_callSuffix hρ he) (.cons (alike_getSuffix hρ) .nil)) none)).bind
      fun _ _ hsuffixes => alike_applySuffixes hsuffixes head

include he in
theorem alike_unary (depth : Nat) :
    Alike ρ (Expr.Alike ρ) (unary expression depth) (unary expression depth) := by
  induction depth with
  | zero => exact .exhausted
  | succ depth ih =>
      refine .choice _ (.cons ?_ (.cons (alike_call hρ he) .nil))
      exact (alike_operator _).same fun token => ih.bind fun _ _ hoperand =>
        Alike.freshId.bind fun _ _ hid => .pure (.unary hid (hρ.tokens token) hoperand)

/-- How a node is made keeps trees alike. -/
def Joiner.KeepsAlike (ρ : Likeness) (join : Joiner) : Prop :=
  ∀ id id' l l' token r r', ρ.nodes id id' → Expr.Alike ρ l l' → Expr.Alike ρ r r' →
    Expr.Alike ρ (join id l token r) (join id' l' token r')

omit hρ in
theorem alike_foldLeft {join : Joiner} (hj : join.KeepsAlike ρ) {more more' : List (Token × Expr)}
    (h : List.Forall₂ (fun x x' => x'.1 = x.1 ∧ x.2.Alike ρ x'.2) more more') {e e' : Expr}
    (first : e.Alike ρ e') :
    Alike ρ (Expr.Alike ρ) (foldLeft join e more) (foldLeft join e' more') := by
  induction h generalizing e e' with
  | nil => exact .pure first
  | @cons x x' _ _ hx _ ih =>
      obtain ⟨token, right⟩ := x
      obtain ⟨token', right'⟩ := x'
      obtain ⟨rfl, hright⟩ := hx
      exact Alike.freshId.bind fun _ _ hid => ih (hj _ _ _ _ _ _ _ hid first hright)

omit hρ in
theorem alike_leftAssociative {join : Joiner} (hj : join.KeepsAlike ρ) {token : Parser Token}
    {operand : Parser Expr} (htoken : Alike ρ Eq token token)
    (hoperand : Alike ρ (Expr.Alike ρ) operand operand) :
    Alike ρ (Expr.Alike ρ) (leftAssociative join token operand)
      (leftAssociative join token operand) :=
  hoperand.bind fun _ _ first =>
    (Alike.many (htoken.same fun _ => hoperand.bind fun _ _ hright => .pure ⟨rfl, hright⟩)).bind
      fun _ _ hmore => alike_foldLeft hj hmore first

theorem alike_logicalOr {unary : Parser Expr} (hu : Alike ρ (Expr.Alike ρ) unary unary) :
    Alike ρ (Expr.Alike ρ) (logicalOr unary) (logicalOr unary) := by
  have hbinary : Joiner.KeepsAlike ρ .binary := fun _ _ _ _ token _ _ hid hl hr =>
    .binary hid hl (hρ.tokens token) hr
  have hlogical : Joiner.KeepsAlike ρ .logical := fun _ _ _ _ token _ _ hid hl hr =>
    .logical hid hl (hρ.tokens token) hr
  have hfactor : Alike ρ (Expr.Alike ρ) (factor unary) (factor unary) :=
    alike_leftAssociative hbinary (alike_operator _) hu
  have hterm : Alike ρ (Expr.Alike ρ) (term unary) (term unary) :=
    alike_leftAssociative hbinary (alike_operator _) hfactor
  have hcomparison : Alike ρ (Expr.Alike ρ) (comparison unary) (comparison unary) :=
    alike_leftAssociative hbinary (alike_operator _) hterm
  have hequality : Alike ρ (Expr.Alike ρ) (equality unary) (equality unary) :=
    alike_leftAssociative hbinary (alike_operator _) hcomparison
  have hand : Alike ρ (Expr.Alike ρ) (logicalAnd unary) (logicalAnd unary) :=
    alike_leftAssociative hlogical (alike_keyword _ _) hequality
  exact alike_leftAssociative hlogical (alike_keyword _ _) hand

omit hρ in
theorem alike_assignTo {target target' value value' : Expr} (equals : Token)
    (ht : target.Alike ρ target') (hv : value.Alike ρ value') :
    Alike ρ (Expr.Alike ρ) (assignTo target equals value) (assignTo target' equals value') := by
  cases ht with
  | var _ hname => exact Alike.freshId.bind fun _ _ hid => .pure (.assign hid hname hv)
  | get _ hobject hname => exact Alike.freshId.bind fun _ _ hid => .pure (.set hid hobject hname hv)
  | _ => exact .failAt _ _ _

/-- Expressions are read alike. -/
theorem alike_assignment (depth : Nat) :
    Alike ρ (Expr.Alike ρ) (assignment depth) (assignment depth) := by
  induction depth with
  | zero => exact .exhausted
  | succ depth ih =>
      have hsource : Alike ρ (Option.Rel fun x x' => x'.1 = x.1 ∧ x.2.Alike ρ x'.2)
          (optional do let equals ← equalSign; let value ← assignment depth; pure (equals, value))
          (optional do let equals ← equalSign; let value ← assignment depth; pure (equals, value)) :=
        .optional <| alike_equalSign.same fun _ => ih.bind fun _ _ hvalue => .pure ⟨rfl, hvalue⟩
      refine (alike_logicalOr hρ (alike_unary hρ ih (depth + 1))).bind fun _ _ ht =>
        hsource.bind fun _ _ hs => ?_
      cases hs with
      | none => exact .pure ht
      | @some x x' h =>
          obtain ⟨equals, value⟩ := x
          obtain ⟨equals', value'⟩ := x'
          obtain ⟨rfl, hvalue⟩ := h
          exact alike_assignTo _ ht hvalue

end Expressions

-- =============================================================== statements

section Statements

variable {ρ : Likeness} {expression : Parser Expr} {statement declaration : Parser Stmt}
  {block : Parser (List Stmt)}

/-- What failed leaves the same record, and reading resumes at the same place. -/
theorem alike_recovering (closer : Option Char)
    (hd : Alike ρ (Stmt.Alike ρ) declaration declaration) :
    Alike ρ (Option.Rel (Stmt.Alike ρ)) (recovering closer declaration)
      (recovering closer declaration) := by
  refine Alike.skipTrivia.same fun _ => ?_
  intro s s' hs
  dsimp only
  rw [hs.cursor]
  split
  · exact .error hs
  · have hends := hd s s' hs
    generalize declaration s = r at hends ⊢
    generalize declaration s' = r' at hends ⊢
    cases hends with
    | ok found progress => exact .ok (.some found) progress
    | error progress =>
        refine .ok .none ⟨rfl, ?_, progress.bound, progress.nodes⟩
        rw [progress.recovered]

theorem alike_declarations (closer : Option Char)
    (hd : Alike ρ (Stmt.Alike ρ) declaration declaration) :
    Alike ρ (List.Forall₂ (Stmt.Alike ρ)) (declarations closer declaration)
      (declarations closer declaration) := by
  refine (Alike.many (alike_recovering closer hd)).bind fun found found' h => .pure ?_
  induction h with
  | nil => exact .nil
  | cons ho _ ih =>
      cases ho with
      | none => exact ih
      | some ha => exact .cons ha ih

theorem alike_braced (hd : Alike ρ (Stmt.Alike ρ) declaration declaration) :
    Alike ρ (List.Forall₂ (Stmt.Alike ρ)) (braced declaration) (braced declaration) :=
  (alike_symbol _).same fun _ => .committed <|
    (alike_declarations _ hd).bind fun _ _ hbody => (alike_symbol _).same fun _ => .pure hbody

section Simple

variable (he : Alike ρ (Expr.Alike ρ) expression expression)
include he

theorem alike_expressionStmt :
    Alike ρ (Stmt.Alike ρ) (expressionStmt expression) (expressionStmt expression) :=
  he.bind fun _ _ hinner => .committed <| (alike_symbol _).same fun _ =>
    Alike.freshId.bind fun _ _ hid => .pure (.expression hid hinner)

theorem alike_printStmt :
    Alike ρ (Stmt.Alike ρ) (printStmt expression) (printStmt expression) :=
  (alike_word _).same fun _ => .committed <| he.bind fun _ _ hinner =>
    (alike_symbol _).same fun _ => Alike.freshId.bind fun _ _ hid => .pure (.print hid hinner)

theorem alike_returnStmt (hρ : ρ.Reads) :
    Alike ρ (Stmt.Alike ρ) (returnStmt expression) (returnStmt expression) :=
  (alike_keyword _ _).same fun token => .committed <| he.optional.bind fun _ _ hvalue =>
    (alike_symbol _).same fun _ => Alike.freshId.bind fun _ _ hid =>
      .pure (.returnStmt hid (hρ.tokens token) hvalue)

theorem alike_varDecl (hρ : ρ.Reads) :
    Alike ρ (Stmt.Alike ρ) (varDecl expression) (varDecl expression) :=
  (alike_word _).same fun _ => .committed <| alike_identifier.same fun name =>
    (Alike.optional (alike_equalSign.same fun _ => he)).bind fun _ _ hinitializer =>
      (alike_symbol _).same fun _ => Alike.freshId.bind fun _ _ hid =>
        .pure (.varDecl hid (hρ.tokens name) hinitializer)

end Simple

theorem alike_blockStmt (hb : Alike ρ (List.Forall₂ (Stmt.Alike ρ)) block block) :
    Alike ρ (Stmt.Alike ρ) (blockStmt block) (blockStmt block) :=
  hb.bind fun _ _ hbody => Alike.freshId.bind fun _ _ hid => .pure (.block hid hbody)

section Compound

variable (he : Alike ρ (Expr.Alike ρ) expression expression)
  (hs : Alike ρ (Stmt.Alike ρ) statement statement)
include he hs

theorem alike_ifStmt :
    Alike ρ (Stmt.Alike ρ) (ifStmt expression statement) (ifStmt expression statement) := by
  refine (alike_word _).same fun _ => .committed <| (alike_symbol _).same fun _ =>
    he.bind fun _ _ hcondition => (alike_symbol _).same fun _ => hs.bind fun _ _ hthen =>
      (Alike.optional ((alike_word _).same fun _ => hs)).bind fun _ _ helse => ?_
  cases helse with
  | none => exact Alike.freshId.bind fun _ _ hid => .pure (.ifThen hid hcondition hthen)
  | some helse => exact Alike.freshId.bind fun _ _ hid => .pure (.ifElse hid hcondition hthen helse)

theorem alike_whileStmt :
    Alike ρ (Stmt.Alike ρ) (whileStmt expression statement) (whileStmt expression statement) :=
  (alike_word _).same fun _ => .committed <| (alike_symbol _).same fun _ =>
    he.bind fun _ _ hcondition => (alike_symbol _).same fun _ => hs.bind fun _ _ hbody =>
      Alike.freshId.bind fun _ _ hid => .pure (.whileLoop hid hcondition hbody)

end Compound

theorem alike_forInitializer (hρ : ρ.Reads) (he : Alike ρ (Expr.Alike ρ) expression expression) :
    Alike ρ (Option.Rel (Stmt.Alike ρ)) (forInitializer expression) (forInitializer expression) :=
  .firstOf (.cons ((alike_symbol _).same fun _ => .pure .none)
    (.cons ((alike_varDecl he hρ).bind fun _ _ h => .pure (.some h))
    (.cons ((alike_expressionStmt he).bind fun _ _ h => .pure (.some h)) .nil))) none

/-- The condition of a loop that has none gets no token on either side. -/
theorem alike_forLoop (hnone : ρ.constants none none) {initializer initializer' : Option Stmt}
    {condition condition' increment increment' : Option Expr} {body body' : Stmt}
    (hinitializer : Option.Rel (Stmt.Alike ρ) initializer initializer')
    (hcondition : Option.Rel (Expr.Alike ρ) condition condition')
    (hincrement : Option.Rel (Expr.Alike ρ) increment increment') (hbody : body.Alike ρ body') :
    Alike ρ (Stmt.Alike ρ) (forLoop initializer condition increment body)
      (forLoop initializer' condition' increment' body') := by
  have hcond : Alike ρ (Expr.Alike ρ) (loopCondition condition) (loopCondition condition') := by
    cases hcondition with
    | none => exact Alike.freshId.bind fun _ _ hid => .pure (.literal hid hnone)
    | some h => exact .pure h
  have hstep : Alike ρ (Stmt.Alike ρ) (loopBody body increment) (loopBody body' increment') := by
    cases hincrement with
    | none => exact .pure hbody
    | some h =>
        exact Alike.freshId.bind fun _ _ hid => Alike.freshId.bind fun _ _ hid' =>
          .pure (.block hid' (.cons hbody (.cons (.expression hid h) .nil)))
  refine hcond.bind fun _ _ hc => hstep.bind fun _ _ hb => Alike.freshId.bind fun _ _ hid => ?_
  cases hinitializer with
  | none => exact .pure (.whileLoop hid hc hb)
  | some h =>
      exact Alike.freshId.bind fun _ _ hid' =>
        .pure (.block hid' (.cons h (.cons (.whileLoop hid hc hb) .nil)))

section Nested

variable (hρ : ρ.Reads) (hnone : ρ.constants none none)
  (he : Alike ρ (Expr.Alike ρ) expression expression)
include hρ hnone he

theorem alike_forStmt (hs : Alike ρ (Stmt.Alike ρ) statement statement) :
    Alike ρ (Stmt.Alike ρ) (forStmt expression statement) (forStmt expression statement) :=
  (alike_word _).same fun _ => .committed <| (alike_symbol _).same fun _ =>
    (alike_forInitializer hρ he).bind fun _ _ hinitializer => he.optional.bind fun _ _ hcondition =>
      (alike_symbol _).same fun _ => he.optional.bind fun _ _ hincrement =>
        (alike_symbol _).same fun _ => hs.bind fun _ _ hbody =>
          alike_forLoop hnone hinitializer hcondition hincrement hbody

theorem alike_statement (hb : Alike ρ (List.Forall₂ (Stmt.Alike ρ)) block block) (depth : Nat) :
    Alike ρ (Stmt.Alike ρ) (Parser.statement expression block depth)
      (Parser.statement expression block depth) := by
  induction depth with
  | zero => exact .exhausted
  | succ depth ih =>
      exact .choice _ (.cons (alike_forStmt hρ hnone he ih) (.cons (alike_ifStmt he ih)
        (.cons (alike_printStmt he) (.cons (alike_returnStmt he hρ) (.cons (alike_whileStmt he ih)
        (.cons (alike_blockStmt hb) (.cons (alike_expressionStmt he) .nil)))))))

end Nested

-- ============================================================= declarations

section Declarations

variable (hρ : ρ.Reads)
include hρ

theorem alike_function (hb : Alike ρ (List.Forall₂ (Stmt.Alike ρ)) block block) :
    Alike ρ (fun f f' => ρ.nodes f.id f'.id ∧ f.Alike ρ f') (function block) (function block) := by
  have hall : Alike ρ Eq (commaSeparated identifier) (commaSeparated identifier) :=
    (alike_commaSeparated alike_identifier).mono fun _ _ h => by
      rwa [List.forall₂_eq_eq_eq] at h
  refine Alike.skipTrivia.same fun place => alike_identifier.same fun name =>
    (alike_symbol _).same fun _ => hall.same fun params =>
      (alike_symbol _).same fun _ => hb.bind fun _ _ hbody => ?_
  split
  · exact .failAt _ _ _
  · have hparams : List.Forall₂ ρ.tokens params params := List.forall₂_same.mpr fun x _ => hρ.tokens x
    exact Alike.freshId.bind fun _ _ hid => .pure ⟨hid, .mk (hρ.tokens name) hparams hbody⟩

theorem alike_funDecl (hb : Alike ρ (List.Forall₂ (Stmt.Alike ρ)) block block) :
    Alike ρ (Stmt.Alike ρ) (funDecl block) (funDecl block) :=
  (alike_word _).same fun _ => .committed <| (alike_function hρ hb).bind fun _ _ h =>
    .pure (.funDecl h.1 h.2 (hρ.functions false _ _))

theorem alike_superclass : Alike ρ (NameRef.Alike ρ) superclass superclass :=
  (alike_symbol _).same fun _ => alike_identifier.same fun name =>
    Alike.freshId.bind fun _ _ hid => .pure ⟨hid, hρ.tokens name⟩

theorem alike_classDecl (hb : Alike ρ (List.Forall₂ (Stmt.Alike ρ)) block block) :
    Alike ρ (Stmt.Alike ρ) (classDecl block) (classDecl block) :=
  (alike_word _).same fun _ => .committed <| alike_identifier.same fun name =>
    (alike_superclass hρ).optional.bind fun _ _ hparent => (alike_symbol _).same fun _ =>
      (alike_function hρ hb).many.bind fun _ _ hmethods => (alike_symbol _).same fun _ =>
        Alike.freshId.bind fun _ _ hid => .pure (.classDecl hid (hρ.tokens name) hparent
          (hmethods.imp fun _ _ h => h.2) (hmethods.imp fun f f' _ => hρ.functions _ f f'))

/-- Declarations are read alike. -/
theorem alike_declaration (hnone : ρ.constants none none)
    (he : Alike ρ (Expr.Alike ρ) expression expression) (depth : Nat) :
    Alike ρ (Stmt.Alike ρ) (Parser.declaration expression depth)
      (Parser.declaration expression depth) := by
  induction depth with
  | zero => exact .exhausted
  | succ depth ih =>
      have hb := alike_braced ih
      exact .choice _ (.cons (alike_classDecl hρ hb) (.cons (alike_funDecl hρ hb)
        (.cons (alike_varDecl he hρ) (.cons (alike_statement hρ hnone he hb _) .nil))))

end Declarations

-- ============================================================== whole texts

theorem alike_endOfText : Alike ρ Eq endOfText endOfText := by
  refine alike_look fun cursor => ?_
  split
  · exact .pure rfl
  · exact .reject _

theorem alike_program (hρ : ρ.Reads) (hnone : ρ.constants none none) (depth : Nat) :
    Alike ρ (List.Forall₂ (Stmt.Alike ρ)) (program depth) (program depth) :=
  (alike_declarations none (alike_declaration hρ hnone (alike_assignment hρ depth) depth)).bind
    fun _ _ hbody => alike_endOfText.same fun _ => .pure hbody

theorem alike_singleExpression (hρ : ρ.Reads) (depth : Nat) :
    Alike ρ (Expr.Alike ρ) (singleExpression depth) (singleExpression depth) :=
  (alike_assignment hρ depth).bind fun _ _ he => alike_endOfText.same fun _ => .pure he

end Statements

end Parser

/-- Two readings of one text that differ in the numbers of nodes. -/
structure Reading.Alike {α : Type} (ρ : Likeness) (R : α → α → Prop) (r r' : Reading α) : Prop where
  failed (e : Failure) (h : r.result = .error e) : r'.result = .error e
  found (a : α) (h : r.result = .ok a) : ∃ a', r'.result = .ok a' ∧ R a a'
  recovered : r'.recovered = r.recovered
  nodes (k : Nat) : ρ.nodes (r.nextId + k) (r'.nextId + k)

/-- Reading a text twice by one rule. -/
theorem Parser.Alike.read {α : Type} {ρ : Likeness} {R : α → α → Prop} {p : Nat → Parser α}
    (hp : ∀ depth, Parser.Alike ρ R (p depth) (p depth)) (text : List Char) {low low' : NodeId}
    (hnodes : ∀ k, ρ.nodes (low + k) (low' + k)) :
    (Parser.read p text low).Alike ρ R (Parser.read p text low') := by
  have hends := hp (text.length + 1) ⟨Cursor.start text, low, [], text.length⟩
    ⟨Cursor.start text, low', [], text.length⟩ ⟨rfl, rfl, rfl, hnodes⟩
  unfold Parser.read
  dsimp only
  generalize p (text.length + 1) ⟨Cursor.start text, low, [], text.length⟩ = r at hends ⊢
  generalize p (text.length + 1) ⟨Cursor.start text, low', [], text.length⟩ = r' at hends ⊢
  cases hends with
  | ok found progress =>
      refine ⟨nofun, fun a ha => ?_, progress.recovered, progress.nodes⟩
      obtain rfl := Except.ok.inj ha
      exact ⟨_, rfl, found⟩
  | error progress => exact ⟨fun _ h => h, nofun, progress.recovered, progress.nodes⟩

namespace Reading.Alike

variable {α : Type} {ρ : Likeness} {R : α → α → Prop} {r r' : Reading α}

theorem faults_eq (h : r.Alike ρ R r') : r'.faults = r.faults := by
  unfold Reading.faults
  rw [h.recovered]
  cases hr : r.result with
  | error e => rw [h.failed e hr]
  | ok a =>
      obtain ⟨a', ha', -⟩ := h.found a hr
      rw [ha']

/-- What one reading refuses the other refuses with the same faults. -/
theorem program_error (h : r.Alike ρ R r') {faults : List Fault} (hr : r.program = .error faults) :
    r'.program = .error faults := by
  unfold Reading.program at hr ⊢
  rw [h.recovered, h.faults_eq]
  cases hresult : r.result with
  | error e =>
      rw [hresult] at hr
      rw [h.failed e hresult]
      exact hr
  | ok a =>
      obtain ⟨a', ha', -⟩ := h.found a hresult
      rw [hresult] at hr
      rw [ha']
      cases hrecovered : r.recovered with
      | nil =>
          rw [hrecovered] at hr
          cases hr
      | cons fault rest =>
          rw [hrecovered] at hr
          exact hr

theorem program_ok (h : r.Alike ρ R r') {a : α} (hr : r.program = .ok a) :
    ∃ a', r'.program = .ok a' ∧ R a a' := by
  unfold Reading.program at hr ⊢
  rw [h.recovered]
  split at hr
  · rename_i b hresult hnone
    cases hr
    obtain ⟨a', ha', hR⟩ := h.found _ hresult
    exact ⟨a', by rw [ha', hnone], hR⟩
  · cases hr

end Reading.Alike

variable {ρ : Likeness} {low low' : NodeId}

/-- A program is read alike however its nodes are numbered. -/
theorem readProgram_alike (hρ : ρ.Reads) (hnone : ρ.constants none none)
    (hnodes : ∀ k, ρ.nodes (low + k) (low' + k)) (text : List Char) :
    (readProgram text low).Alike ρ (List.Forall₂ (Stmt.Alike ρ)) (readProgram text low') :=
  Parser.Alike.read (Parser.alike_program hρ hnone) text hnodes

theorem readExpression_alike (hρ : ρ.Reads) (hnodes : ∀ k, ρ.nodes (low + k) (low' + k))
    (text : List Char) :
    (readExpression text low).Alike ρ (Expr.Alike ρ) (readExpression text low') :=
  Parser.Alike.read (Parser.alike_singleExpression hρ) text hnodes

end Lox
