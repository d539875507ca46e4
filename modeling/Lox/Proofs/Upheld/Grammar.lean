/-
The grammar upholds every invariant of reading, one lemma for each rule. What is
good about a tree that was read is that its tokens are (`Invariant.expr`,
`Invariant.body`). A rule that may refuse a text that it applies to needs to know
that the invariant admits the refusal (`Invariant.Refuses`).

Statements are taken over any expressions that are upheld, so that an invariant of
expressions may say more than one of statements does.
-/
import Lox.Proofs.Upheld.Invariant
import Lox.Proofs.Fault.Known

namespace Lox

-- ============================================================ tokens of lists

theorem Expr.mem_tokensAll {es : List Expr} {t : Token} :
    t ∈ Expr.tokensAll es ↔ ∃ e ∈ es, t ∈ e.tokens := by
  induction es with
  | nil => simp [Expr.tokensAll]
  | cons e rest ih => simp [Expr.tokensAll, ih]

theorem Stmt.mem_tokensAll {body : List Stmt} {t : Token} :
    t ∈ Stmt.tokensAll body ↔ ∃ s ∈ body, t ∈ s.tokens := by
  induction body with
  | nil => simp [Stmt.tokensAll]
  | cons s rest ih => simp [Stmt.tokensAll, ih]

theorem FunDecl.mem_tokensAll {fs : List FunDecl} {t : Token} :
    t ∈ FunDecl.tokensAll fs ↔ ∃ f ∈ fs, t ∈ f.tokens := by
  induction fs with
  | nil => simp [FunDecl.tokensAll]
  | cons f rest ih => simp [FunDecl.tokensAll, ih]

end Lox

namespace Lox.Parser

variable {α β : Type} {inv : Invariant} {lax : Bool}

/-- The tokens of what follows a callee. -/
def Suffix.tokens : Suffix → List Token
  | .call paren arguments => Expr.tokensAll arguments ++ [paren]
  | .get name => [name]

namespace Steady

theorem getSuffix : Steady getSuffix := (symbol '.').bind fun _ => identifier.bind fun _ => .pure _

theorem word {spelling : String} : Steady (word spelling) := (keyword _ _).bind fun _ => .pure _

theorem suffix {expression : Parser Expr} (he : Steady expression) :
    Steady (Parser.firstOf none [Parser.callSuffix expression, Parser.getSuffix]) := by
  refine firstOf (fun p hp => ?_) none
  simp only [List.mem_cons, List.not_mem_nil, or_false] at hp
  rcases hp with rfl | rfl
  · exact callSuffix he
  · exact getSuffix

end Steady

namespace Invariant

/-- Every token of a list is good. -/
def Tokens (inv : Invariant) (tokens : List Token) : Prop := ∀ t ∈ tokens, inv.token t

def expr (inv : Invariant) (e : Expr) : Prop := inv.Tokens e.tokens

def stmt (inv : Invariant) (s : Stmt) : Prop := inv.Tokens s.tokens

def funDecl (inv : Invariant) (f : FunDecl) : Prop := inv.Tokens f.tokens

def suffix (inv : Invariant) (x : Suffix) : Prop := inv.Tokens x.tokens

def body (inv : Invariant) (body : List Stmt) : Prop := inv.Tokens (Stmt.tokensAll body)

@[simp] theorem tokens_nil : inv.Tokens [] := nofun

@[simp] theorem tokens_cons {t : Token} {rest : List Token} :
    inv.Tokens (t :: rest) ↔ inv.token t ∧ inv.Tokens rest := List.forall_mem_cons

@[simp] theorem tokens_append {some more : List Token} :
    inv.Tokens (some ++ more) ↔ inv.Tokens some ∧ inv.Tokens more := List.forall_mem_append

theorem tokensAll_exprs {es : List Expr} (h : ∀ e ∈ es, inv.expr e) :
    inv.Tokens (Expr.tokensAll es) := by
  intro t ht
  obtain ⟨e, he, ht⟩ := Expr.mem_tokensAll.mp ht
  exact h e he t ht

theorem body_of_forall {stmts : List Stmt} (h : ∀ s ∈ stmts, inv.stmt s) : inv.body stmts := by
  intro t ht
  obtain ⟨s, hs, ht⟩ := Stmt.mem_tokensAll.mp ht
  exact h s hs t ht

theorem tokensAll_funDecls {fs : List FunDecl} (h : ∀ f ∈ fs, inv.funDecl f) :
    inv.Tokens (FunDecl.tokensAll fs) := by
  intro t ht
  obtain ⟨f, hf, ht⟩ := FunDecl.mem_tokensAll.mp ht
  exact h f hf t ht

theorem tokensOptional {e : Option Expr} (h : ∀ a ∈ e, inv.expr a) :
    inv.Tokens (Expr.tokensOptional e) := by
  cases e with
  | none => exact tokens_nil
  | some e => exact h e rfl

end Invariant

-- ============================================================ spotless rules

namespace Spotless

variable {expression : Parser Expr} {block : Parser (List Stmt)}

/-- A word commits to what comes behind it. -/
theorem word_committed (spelling : String) (p : Parser α) :
    Spotless (word spelling >>= fun _ => Parser.committed p) :=
  (of_steady .word).before fun _ => .committed _

theorem recovering (closer : Option Char) (declaration : Parser Stmt) :
    Spotless (recovering closer declaration) := by
  refine behind .skipTrivia fun _ s e t hrun hsoft => ?_
  dsimp only at hrun
  split at hrun
  · cases hrun
    rfl
  · cases hfirst : declaration s with
    | ok stmt u =>
        rw [hfirst] at hrun
        cases hrun
    | error failure u =>
        rw [hfirst] at hrun
        cases hrun

theorem braced (declaration : Parser Stmt) : Spotless (braced declaration) :=
  (of_steady (.symbol '{')).before fun _ => .committed _

theorem expressionStmt (he : Steady expression) : Spotless (expressionStmt expression) :=
  (of_steady he).before fun _ => .committed _

theorem statement (he : Steady expression) (hb : Spotless block) (depth : Nat) :
    Spotless (statement expression block depth) := by
  cases depth with
  | zero => exact of_steady (.reject _)
  | succ depth =>
      intro s
      refine choice .statement (fun p hp => ?_) s
      simp only [List.mem_cons, List.not_mem_nil, or_false] at hp
      rcases hp with rfl | rfl | rfl | rfl | rfl | rfl | rfl
      · exact word_committed _ _
      · exact word_committed _ _
      · exact word_committed _ _
      · exact (of_steady (.keyword _ _)).before fun _ => .committed _
      · exact word_committed _ _
      · exact hb.before fun _ => .bind .freshId fun _ => .pure _
      · exact expressionStmt he

theorem function (hb : Spotless block) : Spotless (function block) := by
  have hparams : Steady (commaSeparated Parser.identifier) :=
    (Steady.optional (Steady.identifier.bind fun _ =>
      (Steady.many ((Steady.symbol _).bind fun _ => .identifier)).bind fun _ => .pure _)).bind
      fun _ => .pure _
  refine behind .skipTrivia fun place => behind .identifier fun name => behind (.symbol _) fun _ =>
    behind hparams fun params => behind (.symbol _) fun _ => hb.before fun body => ?_
  split
  · exact .refuse _ _
  · exact .bind .freshId fun _ => .pure _

end Spotless

namespace Upholds

variable {expression : Parser Expr} {block : Parser (List Stmt)}

theorem word (spelling : String) : Upholds inv true (fun _ => True) (word spelling) := by
  have htoken : Upholds inv true inv.token (Parser.keyword .keyword spelling) :=
    keyword spelling ⟨by decide, by decide⟩
  exact htoken.bind fun _ _ => .pure trivial

/-- A word that commits to what comes behind it. -/
theorem word_committed {P : α → Prop} {p : Parser α} (spelling : String) (hp : Upholds inv false P p) :
    Upholds inv true P (Parser.word spelling >>= fun _ => Parser.committed p) :=
  (word spelling).bind fun _ _ => hp.committed

-- ================================================================= primary

theorem literal {p : Parser (Constant × Token)}
    (hp : Upholds inv lax (fun found => inv.token found.2) p) :
    Upholds inv lax inv.expr (literal p) :=
  hp.bind fun _ htoken => freshId.bind fun _ _ => .pure (by simpa [Invariant.expr, Expr.tokens])

theorem thisExpr : Upholds inv true inv.expr thisExpr := by
  have htoken : Upholds inv true inv.token (Parser.keyword .keyword "this") :=
    keyword "this" ⟨by decide, by decide⟩
  exact htoken.bind fun _ h => freshId.bind fun _ _ => .pure (by simpa [Invariant.expr, Expr.tokens])

theorem superExpr : Upholds inv true inv.expr superExpr := by
  have htoken : Upholds inv true inv.token (Parser.keyword .keyword "super") :=
    keyword "super" ⟨by decide, by decide⟩
  refine htoken.bind fun token ht => .committed <| (symbol '.').bind fun _ _ =>
    identifier.bind fun method hm => freshId.bind fun _ _ => .pure ?_
  simpa [Invariant.expr, Expr.tokens] using ⟨ht, hm⟩

theorem variableExpr : Upholds inv lax inv.expr variableExpr :=
  identifier.bind fun _ h => freshId.bind fun _ _ => .pure (by simpa [Invariant.expr, Expr.tokens])

theorem groupingExpr (he : Upholds inv false inv.expr expression) :
    Upholds inv lax inv.expr (groupingExpr expression) :=
  (symbol '(').bind fun _ _ => .committed <| he.bind fun _ hinner => (symbol ')').bind fun _ _ =>
    freshId.bind fun _ _ => .pure hinner

theorem primary (he : Upholds inv false inv.expr expression) :
    Upholds inv false inv.expr (primary expression) := by
  have hword : ∀ spelling value, Upholds inv true inv.expr
      (Parser.literal (Parser.wordConstant spelling value))
        ∧ Spotless (Parser.literal (Parser.wordConstant spelling value)) := fun spelling value =>
    ⟨literal (wordConstant spelling value),
      .of_steady (.literal ((Steady.keyword _ _).bind fun _ => .pure _))⟩
  refine choice .expression (fun p hp => ?_)
    ⟨Parser.literal Parser.numberConstant, List.mem_cons_self, literal numberConstant⟩
  simp only [List.mem_cons, List.not_mem_nil, or_false] at hp
  rcases hp with rfl | rfl | rfl | rfl | rfl | rfl | rfl | rfl | rfl
  · exact ⟨literal numberConstant, .of_steady (.literal .numberConstant)⟩
  · exact ⟨literal stringConstant, .of_steady (.literal .stringConstant)⟩
  · exact hword _ _
  · exact hword _ _
  · exact hword _ _
  · exact ⟨thisExpr, .before (.of_steady (.keyword _ _)) fun _ => .bind .freshId fun _ => .pure _⟩
  · exact ⟨superExpr, .before (.of_steady (.keyword _ _)) fun _ => .committed _⟩
  · exact ⟨variableExpr, .before (.of_steady .identifier) fun _ => .bind .freshId fun _ => .pure _⟩
  · exact ⟨groupingExpr he, .before (.of_steady (.symbol _)) fun _ => .committed _⟩

-- =================================================================== calls

theorem commaSeparated {P : α → Prop} {item : Parser α} (hitem : Upholds inv false P item)
    (hsteady : Steady item) :
    Upholds inv lax (fun found => ∀ a ∈ found, P a) (commaSeparated item) := by
  have hmore : Steady (Parser.many (do Parser.symbol ','; item)) :=
    .many ((Steady.symbol _).bind fun _ => hsteady)
  refine bind (optional (P := fun found => ∀ a ∈ found, P a) ?_
    (.of_steady (hsteady.bind fun first => hmore.bind fun more => .pure (first :: more)))) ?_
  · refine hitem.loosen.bind fun first hfirst =>
      (many ((symbol ',').bind fun _ _ => hitem.loosen)
        (.of_steady ((Steady.symbol _).bind fun _ => hsteady))).bind fun more hmore => .pure ?_
    exact List.forall_mem_cons.mpr ⟨hfirst, hmore⟩
  · intro found hfound
    refine .pure ?_
    cases found with
    | none => nofun
    | some items => exact hfound items rfl

theorem callSuffix (hcause : inv.Refuses .tooManyArguments)
    (he : Upholds inv false inv.expr expression) (hsteady : Steady expression) :
    Upholds inv lax inv.suffix (callSuffix expression) := by
  refine skipTrivia.bind fun place hplace => (symbol '(').bind fun _ _ =>
    (commaSeparated he hsteady).bind fun arguments hargs => ?_
  have hparen : Upholds inv lax inv.token (Parser.symbolToken .rightParen ')') :=
    symbolToken ')' ⟨by decide, by decide⟩
  refine hparen.bind fun paren hparen => ?_
  split
  · exact refuse hcause hplace
  · refine .pure ?_
    simpa [Invariant.suffix, Suffix.tokens] using ⟨Invariant.tokensAll_exprs hargs, hparen⟩

theorem getSuffix : Upholds inv lax inv.suffix getSuffix :=
  (symbol '.').bind fun _ _ => identifier.bind fun _ h => .pure (by
    simpa [Invariant.suffix, Suffix.tokens])

theorem applySuffixes {e : Expr} {suffixes : List Suffix} (he : inv.expr e)
    (hsuffixes : ∀ x ∈ suffixes, inv.suffix x) :
    Upholds inv lax inv.expr (applySuffixes e suffixes) := by
  induction suffixes generalizing e with
  | nil => exact .pure he
  | cons suffix rest ih =>
      obtain ⟨hsuffix, hrest⟩ := List.forall_mem_cons.mp hsuffixes
      cases suffix with
      | call paren arguments =>
          refine freshId.bind fun _ _ => ih ?_ hrest
          show inv.Tokens (e.tokens ++ Expr.tokensAll arguments ++ [paren])
          rw [List.append_assoc]
          exact Invariant.tokens_append.mpr ⟨he, hsuffix⟩
      | get name =>
          exact freshId.bind fun _ _ => ih (Invariant.tokens_append.mpr ⟨he, hsuffix⟩) hrest

theorem call (hcause : inv.Refuses .tooManyArguments)
    (he : Upholds inv false inv.expr expression) (hsteady : Steady expression) :
    Upholds inv false inv.expr (call expression) := by
  have hsuffix : Upholds inv false inv.suffix
      (Parser.firstOf none [Parser.callSuffix expression, Parser.getSuffix]) := by
    refine firstOf (fun p hp => ?_) ⟨Parser.getSuffix, by simp, getSuffix⟩
    simp only [List.mem_cons, List.not_mem_nil, or_false] at hp
    rcases hp with rfl | rfl
    · exact ⟨callSuffix hcause he hsteady, .of_steady (.callSuffix hsteady)⟩
    · exact ⟨getSuffix, .of_steady .getSuffix⟩
  exact (primary he).bind fun head hhead =>
    (many hsuffix.loosen (.of_steady (.suffix hsteady))).bind fun suffixes hsuffixes =>
      applySuffixes hhead hsuffixes

-- =============================================================== operators

theorem unary (hcause : inv.Refuses .tooManyArguments)
    (he : Upholds inv false inv.expr expression) (hsteady : Steady expression) (depth : Nat) :
    Upholds inv false inv.expr (unary expression depth) := by
  induction depth with
  | zero => exact .reject _
  | succ depth ih =>
      intro s
      refine choice .expression (fun p hp => ?_)
        ⟨Parser.call expression, by simp, call hcause he hsteady⟩ s
      simp only [List.mem_cons, List.not_mem_nil, or_false] at hp
      rcases hp with rfl | rfl
      · have hsigned : Upholds inv true inv.expr (do
            let token ← Parser.operator unaryOperators
            let operand ← Parser.unary expression depth
            Pure.pure (.unary (← Parser.freshId) token operand)) :=
          (operator _).bind fun _ ht => ih.loosen.bind fun _ ho => freshId.bind fun _ _ =>
            .pure (Invariant.tokens_cons.mpr ⟨ht, ho⟩)
        exact ⟨hsigned, .of_steady ((Steady.operator _).bind fun _ =>
          (Steady.unary hsteady depth).bind fun _ => Steady.freshId.bind fun _ => .pure _)⟩
      · exact ⟨(call hcause he hsteady).loosen, .of_steady (.call hsteady)⟩

/-- Joining two operands loses no token and brings none but the operator. -/
def Joins (inv : Invariant) (join : Joiner) : Prop :=
  ∀ id left token right, inv.expr left → inv.token token → inv.expr right →
    inv.expr (join id left token right)

theorem joins_binary : Joins inv .binary := fun _ _ _ _ hl ht hr =>
  Invariant.tokens_append.mpr ⟨hl, Invariant.tokens_cons.mpr ⟨ht, hr⟩⟩

theorem joins_logical : Joins inv .logical := fun _ _ _ _ hl ht hr =>
  Invariant.tokens_append.mpr ⟨hl, Invariant.tokens_cons.mpr ⟨ht, hr⟩⟩

theorem foldLeft {join : Joiner} (hjoin : Joins inv join) {left : Expr}
    {more : List (Token × Expr)} (hleft : inv.expr left)
    (hmore : ∀ pair ∈ more, inv.token pair.1 ∧ inv.expr pair.2) :
    Upholds inv lax inv.expr (foldLeft join left more) := by
  induction more generalizing left with
  | nil => exact .pure hleft
  | cons pair rest ih =>
      obtain ⟨⟨htoken, hright⟩, hrest⟩ := List.forall_mem_cons.mp hmore
      exact freshId.bind fun _ _ => ih (hjoin _ _ _ _ hleft htoken hright) hrest

theorem leftAssociative {join : Joiner} (hjoin : Joins inv join) {token : Parser Token}
    {operand : Parser Expr} (ht : Upholds inv true inv.token token) (htsteady : Steady token)
    (ho : Upholds inv false inv.expr operand) (hosteady : Steady operand) :
    Upholds inv false inv.expr (leftAssociative join token operand) := by
  have hround : Upholds inv true (fun pair => inv.token pair.1 ∧ inv.expr pair.2) (do
      let op ← token
      let right ← operand
      Pure.pure (op, right)) :=
    ht.bind fun _ htoken => ho.loosen.bind fun _ hright => .pure ⟨htoken, hright⟩
  exact ho.bind fun first hfirst =>
    (many hround (.of_steady (htsteady.bind fun _ => hosteady.bind fun _ => .pure _))).bind
      fun more hmore => foldLeft hjoin hfirst hmore

theorem logicalOr {operand : Parser Expr} (ho : Upholds inv false inv.expr operand)
    (hosteady : Steady operand) : Upholds inv false inv.expr (logicalOr operand) := by
  have hword : ∀ (kind : TokenKind) (spelling : String), kind ≠ .identifier ∧ kind ≠ .string →
      Upholds inv true inv.token (Parser.keyword kind spelling) := fun _ spelling plain =>
    keyword spelling plain
  have hfactor := leftAssociative joins_binary (operator ["*", "/"]) (.operator _) ho hosteady
  have hterm := leftAssociative joins_binary (operator ["+", "-"]) (.operator _) hfactor
    (.leftAssociative _ (.operator _) hosteady)
  have hcomparison := leftAssociative joins_binary (operator [">=", "<=", ">", "<"]) (.operator _)
    hterm (.leftAssociative _ (.operator _) <| .leftAssociative _ (.operator _) hosteady)
  have hequality := leftAssociative joins_binary (operator ["==", "!="]) (.operator _) hcomparison
    (.leftAssociative _ (.operator _) <| .leftAssociative _ (.operator _) <|
      .leftAssociative _ (.operator _) hosteady)
  have hand := leftAssociative joins_logical
    (hword .logicalAnd "and" ⟨by decide, by decide⟩) (.keyword _ _) hequality
    (.leftAssociative _ (.operator _) <| .leftAssociative _ (.operator _) <|
      .leftAssociative _ (.operator _) <| .leftAssociative _ (.operator _) hosteady)
  exact leftAssociative joins_logical
    (hword .logicalOr "or" ⟨by decide, by decide⟩) (.keyword _ _) hand
    (.leftAssociative _ (.keyword _ _) <| .leftAssociative _ (.operator _) <|
      .leftAssociative _ (.operator _) <| .leftAssociative _ (.operator _) <|
      .leftAssociative _ (.operator _) hosteady)

-- ============================================================== assignment

theorem assignTo (hcause : inv.Refuses .invalidTarget) {target value : Expr} {equals : Token}
    (htarget : inv.expr target) (hequals : inv.token equals) (hvalue : inv.expr value) :
    Upholds inv lax inv.expr (assignTo target equals value) := by
  unfold Parser.assignTo
  split
  · rename_i name
    obtain ⟨hname, -⟩ := Invariant.tokens_cons.mp htarget
    exact freshId.bind fun _ _ => .pure (Invariant.tokens_cons.mpr ⟨hname, hvalue⟩)
  · rename_i object name
    obtain ⟨hobject, hname⟩ := Invariant.tokens_append.mp htarget
    obtain ⟨hname, -⟩ := Invariant.tokens_cons.mp hname
    exact freshId.bind fun _ _ => .pure
      (Invariant.tokens_append.mpr ⟨hobject, Invariant.tokens_cons.mpr ⟨hname, hvalue⟩⟩)
  · exact refuse hcause (inv.marked hequals)

/-- Expressions are upheld by an invariant that admits the refusals of expressions. -/
theorem assignment (hargs : inv.Refuses .tooManyArguments) (htarget : inv.Refuses .invalidTarget)
    (depth : Nat) : Upholds inv false inv.expr (assignment depth) := by
  induction depth with
  | zero => exact .reject _
  | succ depth ih =>
      have hsteady := Steady.assignment depth
      have hlevels := logicalOr (unary hargs ih hsteady (depth + 1))
        (Steady.unary hsteady (depth + 1))
      have hsource : Upholds inv true (fun pair => inv.token pair.1 ∧ inv.expr pair.2) (do
          let equals ← Parser.equalSign
          let value ← Parser.assignment depth
          Pure.pure (equals, value)) :=
        equalSign.bind fun _ hequals => ih.loosen.bind fun _ hvalue => .pure ⟨hequals, hvalue⟩
      intro s
      refine hlevels.bind (fun target ht => (optional hsource (.of_steady
        (Steady.equalSign.bind fun _ => hsteady.bind fun _ => .pure _))).bind
          fun source hfound => ?_) s
      cases source with
      | none => exact .pure ht
      | some pair =>
          obtain ⟨hequals, hvalue⟩ := hfound pair rfl
          exact assignTo htarget ht hequals hvalue

-- ============================================================== declarations

theorem recovering {declaration : Parser Stmt} (closer : Option Char)
    (hd : Upholds inv false inv.stmt declaration) :
    Upholds inv lax (fun found => ∀ a ∈ found, inv.stmt a) (recovering closer declaration) := by
  refine skipTrivia.bind fun _ _ s hs => ?_
  by_cases hstop : (s.cursor.skipGap.atEnd || s.cursor.skipGap.rest.head? == closer) = true
  · exact .of_error (if_pos hstop) (.inl (inv.missing (inv.advance hs _) _))
  · cases hrun : declaration s with
    | ok stmt t =>
        obtain ⟨ht, hstmt⟩ := (hd s hs).ok hrun
        refine .of_ok ((if_neg hstop).trans (by rw [hrun])) ht fun a ha => ?_
        cases ha
        exact hstmt
    | error e t =>
        have hfailure := ((hd s hs).error hrun).strict
        refine .of_ok ((if_neg hstop).trans (by rw [hrun])) (inv.recovered hs hfailure) ?_
        nofun

theorem declarations {declaration : Parser Stmt} (closer : Option Char)
    (hd : Upholds inv false inv.stmt declaration) :
    Upholds inv lax inv.body (declarations closer declaration) := by
  refine (many (recovering closer hd) (.recovering closer declaration)).bind fun found hfound =>
    .pure (Invariant.body_of_forall fun s hs => ?_)
  obtain ⟨o, ho, hos⟩ := List.mem_filterMap.mp hs
  exact hfound o ho s hos

theorem braced {declaration : Parser Stmt} (hd : Upholds inv false inv.stmt declaration) :
    Upholds inv lax inv.body (braced declaration) :=
  (symbol '{').bind fun _ _ => .committed <| (declarations (some '}') hd).bind fun _ hbody =>
    (symbol '}').bind fun _ _ => .pure hbody

-- ======================================================= simple statements

theorem expressionStmt (he : Upholds inv false inv.expr expression) :
    Upholds inv false inv.stmt (expressionStmt expression) :=
  he.bind fun _ h => .committed <| (symbol ';').bind fun _ _ => freshId.bind fun _ _ => .pure h

theorem printStmt (he : Upholds inv false inv.expr expression) :
    Upholds inv true inv.stmt (printStmt expression) :=
  word_committed "print" <| he.bind fun _ h => (symbol ';').bind fun _ _ =>
    freshId.bind fun _ _ => .pure h

theorem returnStmt (he : Upholds inv false inv.expr expression) (hsteady : Steady expression) :
    Upholds inv true inv.stmt (returnStmt expression) := by
  have htoken : Upholds inv true inv.token (Parser.keyword .keyword "return") :=
    keyword "return" ⟨by decide, by decide⟩
  exact htoken.bind fun token ht => .committed <|
    (optional he.loosen (.of_steady hsteady)).bind fun value hvalue => (symbol ';').bind fun _ _ =>
      freshId.bind fun _ _ =>
        .pure (Invariant.tokens_cons.mpr ⟨ht, Invariant.tokensOptional hvalue⟩)

theorem varDecl (he : Upholds inv false inv.expr expression) (hsteady : Steady expression) :
    Upholds inv true inv.stmt (varDecl expression) := by
  have hinitializer : Upholds inv true inv.expr (do let _ ← Parser.equalSign; expression) :=
    equalSign.bind fun _ _ => he.loosen
  exact word_committed "var" <| identifier.bind fun name hname =>
    (optional hinitializer (.of_steady (Steady.equalSign.bind fun _ => hsteady))).bind
      fun value hvalue => (symbol ';').bind fun _ _ => freshId.bind fun _ _ =>
        .pure (Invariant.tokens_cons.mpr ⟨hname, Invariant.tokensOptional hvalue⟩)

theorem blockStmt (hb : Upholds inv false inv.body block) :
    Upholds inv false inv.stmt (blockStmt block) :=
  hb.bind fun _ hbody => freshId.bind fun _ _ => .pure hbody

-- ===================================================== compound statements

section

variable {statement : Parser Stmt}

theorem ifStmt (he : Upholds inv false inv.expr expression)
    (hs : Upholds inv false inv.stmt statement) (hspotless : Spotless statement) :
    Upholds inv true inv.stmt (ifStmt expression statement) := by
  have helse : Upholds inv true inv.stmt (do Parser.word "else"; statement) :=
    (word "else").bind fun _ _ => hs.loosen
  refine word_committed "if" <| (symbol '(').bind fun _ _ => he.bind fun condition hcondition =>
    (symbol ')').bind fun _ _ => hs.bind fun thenBranch hthen =>
      (optional helse (.behind .word fun _ => hspotless)).bind fun elseBranch hfound => ?_
  cases elseBranch with
  | none =>
      exact freshId.bind fun _ _ => .pure (Invariant.tokens_append.mpr ⟨hcondition, hthen⟩)
  | some elseBranch =>
      exact freshId.bind fun _ _ => .pure (Invariant.tokens_append.mpr
        ⟨Invariant.tokens_append.mpr ⟨hcondition, hthen⟩, hfound elseBranch rfl⟩)

theorem whileStmt (he : Upholds inv false inv.expr expression)
    (hs : Upholds inv false inv.stmt statement) :
    Upholds inv true inv.stmt (whileStmt expression statement) :=
  word_committed "while" <| (symbol '(').bind fun _ _ => he.bind fun _ hcondition =>
    (symbol ')').bind fun _ _ => hs.bind fun _ hbody => freshId.bind fun _ _ =>
      .pure (Invariant.tokens_append.mpr ⟨hcondition, hbody⟩)

theorem forInitializer (he : Upholds inv false inv.expr expression) (hsteady : Steady expression) :
    Upholds inv false (fun found => ∀ a ∈ found, inv.stmt a) (forInitializer expression) := by
  have hnone : Upholds inv false (fun found => ∀ a ∈ found, inv.stmt a)
      (do Parser.symbol ';'; Pure.pure (none : Option Stmt)) :=
    (symbol ';').bind fun _ _ => .pure nofun
  have hsome : ∀ s : Stmt, inv.stmt s → ∀ a ∈ some s, inv.stmt a := by
    intro s hs a ha
    cases ha
    exact hs
  refine firstOf (fun p hp => ?_) ⟨_, List.mem_cons_self, hnone⟩
  simp only [List.mem_cons, List.not_mem_nil, or_false] at hp
  rcases hp with rfl | rfl | rfl
  · exact ⟨hnone.loosen, .before (.of_steady (.symbol _)) fun _ => .pure _⟩
  · exact ⟨(varDecl he hsteady).bind fun s hs => .pure (hsome s hs),
      .before (.word_committed _ _) fun _ => .pure _⟩
  · exact ⟨(expressionStmt he).loosen.bind fun s hs => .pure (hsome s hs),
      .before (.expressionStmt hsteady) fun _ => .pure _⟩

theorem forLoop {initializer : Option Stmt} {condition increment : Option Expr} {body : Stmt}
    (hinitializer : ∀ a ∈ initializer, inv.stmt a) (hcondition : ∀ a ∈ condition, inv.expr a)
    (hincrement : ∀ a ∈ increment, inv.expr a) (hbody : inv.stmt body) :
    Upholds inv lax inv.stmt (forLoop initializer condition increment body) := by
  have hloopCondition : Upholds inv lax inv.expr (loopCondition condition) := by
    cases condition with
    | none => exact freshId.bind fun _ _ => .pure nofun
    | some e => exact .pure (hcondition e rfl)
  have hloopBody : Upholds inv lax inv.stmt (loopBody body increment) := by
    cases increment with
    | none => exact .pure hbody
    | some e =>
        refine freshId.bind fun _ _ => freshId.bind fun _ _ => .pure ?_
        simpa [Invariant.stmt, Stmt.tokens, Stmt.tokensAll] using ⟨hbody, hincrement e rfl⟩
  refine hloopCondition.bind fun condition hcondition => hloopBody.bind fun body hbody =>
    freshId.bind fun _ _ => ?_
  cases initializer with
  | none => exact .pure (Invariant.tokens_append.mpr ⟨hcondition, hbody⟩)
  | some first =>
      refine freshId.bind fun _ _ => .pure ?_
      simpa [Invariant.stmt, Stmt.tokens, Stmt.tokensAll] using
        ⟨hinitializer first rfl, hcondition, hbody⟩

theorem forStmt (he : Upholds inv false inv.expr expression) (hsteady : Steady expression)
    (hs : Upholds inv false inv.stmt statement) :
    Upholds inv true inv.stmt (forStmt expression statement) :=
  have hclause : Upholds inv false (fun found => ∀ a ∈ found, inv.expr a)
      (Parser.optional expression) := optional he.loosen (.of_steady hsteady)
  word_committed "for" <| (symbol '(').bind fun _ _ =>
    (forInitializer he hsteady).bind fun _ hinitializer => hclause.bind fun _ hcondition =>
      (symbol ';').bind fun _ _ => hclause.bind fun _ hincrement => (symbol ')').bind fun _ _ =>
        hs.bind fun _ hbody => forLoop hinitializer hcondition hincrement hbody

end

theorem statement (he : Upholds inv false inv.expr expression) (hsteady : Steady expression)
    (hb : Upholds inv false inv.body block) (hspotless : Spotless block) (depth : Nat) :
    Upholds inv false inv.stmt (statement expression block depth) := by
  induction depth with
  | zero => exact .reject _
  | succ depth ih =>
      have hinner := Spotless.statement hsteady hspotless depth
      intro s
      refine choice .statement (fun p hp => ?_)
        ⟨Parser.expressionStmt expression, by simp, expressionStmt he⟩ s
      simp only [List.mem_cons, List.not_mem_nil, or_false] at hp
      rcases hp with rfl | rfl | rfl | rfl | rfl | rfl | rfl
      · exact ⟨forStmt he hsteady ih, .word_committed _ _⟩
      · exact ⟨ifStmt he ih hinner, .word_committed _ _⟩
      · exact ⟨printStmt he, .word_committed _ _⟩
      · exact ⟨returnStmt he hsteady, .before (.of_steady (.keyword _ _)) fun _ => .committed _⟩
      · exact ⟨whileStmt he ih, .word_committed _ _⟩
      · exact ⟨(blockStmt hb).loosen, hspotless.before fun _ => .bind .freshId fun _ => .pure _⟩
      · exact ⟨(expressionStmt he).loosen, .expressionStmt hsteady⟩

-- ====================================================== functions and classes

theorem function (hcause : inv.Refuses .tooManyParameters) (hb : Upholds inv false inv.body block) :
    Upholds inv false inv.funDecl (function block) := by
  have hname : Upholds inv false inv.token Parser.identifier := identifier
  refine skipTrivia.bind fun place hplace => hname.bind fun name hname => (symbol '(').bind fun _ _ =>
    (commaSeparated identifier .identifier).bind fun params hparams => (symbol ')').bind fun _ _ =>
      hb.bind fun body hbody => ?_
  split
  · exact refuse hcause hplace
  · refine freshId.bind fun _ _ => .pure ?_
    exact Invariant.tokens_append.mpr ⟨Invariant.tokens_cons.mpr ⟨hname, hparams⟩, hbody⟩

theorem funDecl (hcause : inv.Refuses .tooManyParameters) (hb : Upholds inv false inv.body block) :
    Upholds inv true inv.stmt (funDecl block) :=
  word_committed "fun" <| (function hcause hb).bind fun _ hf => .pure hf

theorem superclass : Upholds inv true (fun parent => inv.token parent.name) superclass :=
  (symbol '<').bind fun _ _ => identifier.bind fun _ h => freshId.bind fun _ _ => .pure h

theorem classDecl (hcause : inv.Refuses .tooManyParameters)
    (hb : Upholds inv false inv.body block) (hspotless : Spotless block) :
    Upholds inv true inv.stmt (classDecl block) := by
  have hname : Upholds inv false inv.token Parser.identifier := identifier
  refine word_committed "class" <| hname.bind fun name hname =>
    (optional superclass (.of_steady ((Steady.symbol _).bind fun _ => Steady.identifier.bind fun _ =>
      Steady.freshId.bind fun _ => .pure _))).bind fun parent hparent => (symbol '{').bind fun _ _ =>
    (many (function hcause hb).loosen (.function hspotless)).bind fun methods hmethods =>
      (symbol '}').bind fun _ _ => freshId.bind fun _ _ => .pure ?_
  have hmethods := Invariant.tokensAll_funDecls hmethods
  cases parent with
  | none => exact Invariant.tokens_append.mpr ⟨Invariant.tokens_cons.mpr ⟨hname, nofun⟩, hmethods⟩
  | some parent =>
      exact Invariant.tokens_append.mpr ⟨Invariant.tokens_cons.mpr
        ⟨hname, Invariant.tokens_cons.mpr ⟨hparent parent rfl, nofun⟩⟩, hmethods⟩

theorem declaration (hcause : inv.Refuses .tooManyParameters)
    (he : Upholds inv false inv.expr expression) (hsteady : Steady expression) (depth : Nat) :
    Upholds inv false inv.stmt (declaration expression depth) := by
  induction depth with
  | zero => exact .reject _
  | succ depth ih =>
      have hb : Upholds inv false inv.body
          (Parser.braced (Parser.declaration expression depth)) := braced ih
      have hspotless := Spotless.braced (Parser.declaration expression depth)
      have hs := statement he hsteady hb hspotless (depth + 1)
      intro s
      refine choice .declaration (fun p hp => ?_) ⟨_, by simp, hs⟩ s
      simp only [List.mem_cons, List.not_mem_nil, or_false] at hp
      rcases hp with rfl | rfl | rfl | rfl
      · exact ⟨classDecl hcause hb hspotless, .word_committed _ _⟩
      · exact ⟨funDecl hcause hb, .word_committed _ _⟩
      · exact ⟨varDecl he hsteady, .word_committed _ _⟩
      · exact ⟨hs.loosen, .statement hsteady hspotless _⟩

-- ================================================================ whole texts

theorem endOfText : Upholds inv lax (fun _ => True) endOfText := by
  refine look fun s hs => ?_
  split
  · exact .of_ok rfl hs trivial
  · exact reject _ s hs

theorem program (hcause : inv.Refuses .tooManyParameters) {depth : Nat}
    (he : Upholds inv false inv.expr (Parser.assignment depth)) :
    Upholds inv false inv.body (program depth) :=
  (declarations none (declaration hcause he (.assignment depth) depth)).bind fun _ hbody =>
    endOfText.bind fun _ _ => .pure hbody

theorem singleExpression {depth : Nat} (he : Upholds inv false inv.expr (Parser.assignment depth)) :
    Upholds inv false inv.expr (singleExpression depth) :=
  he.bind fun _ h => endOfText.bind fun _ _ => .pure h

variable {P : α → Prop} {rule : Nat → Parser α} {text : List Char} {nextId : NodeId}

/-- How reading a whole text ends. -/
theorem read (hrule : Upholds inv false P (rule (text.length + 1)))
    (hstart : inv.state (Cursor.start text) []) (nextId : NodeId) :
    match (Parser.read rule text nextId).result with
    | .ok a => P a ∧ ∃ c, inv.state c (Parser.read rule text nextId).recovered
    | .error e => inv.failure e (Parser.read rule text nextId).recovered := by
  unfold Parser.read
  dsimp only
  have hends := hrule ⟨Cursor.start text, nextId, [], text.length⟩ hstart
  cases hrun : rule (text.length + 1) ⟨Cursor.start text, nextId, [], text.length⟩ with
  | ok a t =>
      obtain ⟨ht, ha⟩ := hends.ok hrun
      exact ⟨ha, t.cursor, ht⟩
  | error e t => exact (hends.error hrun).strict

/-- What is accepted is good. -/
theorem accepted (hrule : Upholds inv false P (rule (text.length + 1)))
    (hstart : inv.state (Cursor.start text) []) {a : α}
    (h : (Parser.read rule text nextId).program = .ok a) : P a := by
  have hread := read hrule hstart nextId
  unfold Reading.program at h
  split at h
  · rename_i hresult hclean
    cases h
    rw [hresult] at hread
    exact hread.1
  · cases h

/-- The faults of a text are those on record at its end, and the failure that ended reading. -/
theorem rejected (hrule : Upholds inv false P (rule (text.length + 1)))
    (hstart : inv.state (Cursor.start text) []) {faults : List Fault}
    (h : (Parser.read rule text nextId).program = .error faults) :
    (∃ e r, inv.failure e r ∧ faults = r ++ [e.fault]) ∨ ∃ c, inv.state c faults := by
  have hread := read hrule hstart nextId
  unfold Reading.program at h
  split at h
  · cases h
  · cases h
    unfold Reading.faults
    cases hresult : (Parser.read rule text nextId).result with
    | ok a =>
        rw [hresult] at hread
        exact .inr hread.2
    | error e =>
        rw [hresult] at hread
        exact .inl ⟨e, _, hread, rfl⟩

end Upholds

end Lox.Parser
