/-
The grammar reads names at fresh places. Statements, blocks and functions begin at fresh
places and end at one, for they end in a semicolon or a brace; expressions begin at one
and end anywhere, and what the grammar has behind an expression is no name. So every
name of a tree stands alone in the text, one lemma for each rule.
-/
import Lox.Proofs.Naming.Fresh
import Lox.Proofs.Upheld.Grammar

namespace Lox

variable {text : List Char}

/-- Every name among some tokens stands alone. -/
def Token.AllSettled (text : List Char) (tokens : List Token) : Prop :=
  ∀ t ∈ tokens, t.Settled text

namespace Token.AllSettled

@[simp] theorem nil : AllSettled text [] := nofun

@[simp] theorem cons {t : Token} {tokens : List Token} :
    AllSettled text (t :: tokens) ↔ t.Settled text ∧ AllSettled text tokens :=
  List.forall_mem_cons

@[simp] theorem append {tokens more : List Token} :
    AllSettled text (tokens ++ more) ↔ AllSettled text tokens ∧ AllSettled text more :=
  List.forall_mem_append

theorem exprs {es : List Expr} (h : ∀ e ∈ es, AllSettled text e.tokens) :
    AllSettled text (Expr.tokensAll es) := by
  intro t ht
  obtain ⟨e, he, ht⟩ := Expr.mem_tokensAll.mp ht
  exact h e he t ht

theorem stmts {body : List Stmt} (h : ∀ s ∈ body, AllSettled text s.tokens) :
    AllSettled text (Stmt.tokensAll body) := by
  intro t ht
  obtain ⟨s, hs, ht⟩ := Stmt.mem_tokensAll.mp ht
  exact h s hs t ht

theorem funDecls {fs : List FunDecl} (h : ∀ f ∈ fs, AllSettled text f.tokens) :
    AllSettled text (FunDecl.tokensAll fs) := by
  intro t ht
  obtain ⟨f, hf, ht⟩ := FunDecl.mem_tokensAll.mp ht
  exact h f hf t ht

theorem optional {value : Option Expr} (h : ∀ e ∈ value, AllSettled text e.tokens) :
    AllSettled text (Expr.tokensOptional value) := by
  cases value with
  | none => exact nil
  | some e => exact h e rfl

end Token.AllSettled

end Lox

namespace Lox.Parser

open Token (AllSettled)

variable {α : Type} {text : List Char}

/-- A reader of expressions that begins at a fresh place. -/
def SettlesExpr (text : List Char) (p : Parser Expr) : Prop :=
  Leads (Cursor.Fresh text) p (fun e => AllSettled text e.tokens) (Cursor.On text)

/-- A reader of statements that begins at a fresh place and ends at one. -/
def SettlesStmt (text : List Char) (p : Parser Stmt) : Prop :=
  Leads (Cursor.Fresh text) p (fun s => AllSettled text s.tokens) (Cursor.Fresh text)

/-- A reader of braces with statements in them. -/
def SettlesBody (text : List Char) (p : Parser (List Stmt)) : Prop :=
  Leads (Cursor.On text) p (fun body => AllSettled text (Stmt.tokensAll body)) (Cursor.Fresh text)

namespace Leads

variable {good : α → Prop} {post : Cursor → Prop} {p : Parser α}

/-- What may begin anywhere may begin at a fresh place. -/
theorem fresh (hp : Leads (Cursor.On text) p good post) : Leads (Cursor.Fresh text) p good post :=
  hp.between (fun _ h => h.on) fun _ h => h

/-- A fresh place is a place of the text. -/
theorem on (hp : Leads post p good (Cursor.Fresh text)) : Leads post p good (Cursor.On text) :=
  hp.between (fun _ h => h) fun _ h => h.on

theorem word {spelling : String} :
    Leads (Cursor.On text) (word spelling) (fun _ => True) (Cursor.Fresh text) := by
  have hkeyword : Leads (Cursor.On text) (Parser.keyword .keyword spelling) (Token.Settled text)
      (Cursor.Fresh text) := keyword (by decide)
  exact hkeyword.bind fun _ => pure fun _ => trivial

/-- A reserved word that commits to what comes behind it. -/
theorem word_committed {spelling : String} (hp : Leads (Cursor.Fresh text) p good post) :
    Leads (Cursor.On text) (Parser.word spelling >>= fun _ => Parser.committed p) good post :=
  word.bind fun _ => (committed hp).imp fun _ h _ => h

-- ================================================================= primary

theorem literal {constant : Parser (Constant × Token)}
    (hp : Leads (Cursor.On text) constant (fun found => Token.Settled text found.2)
      (Cursor.On text)) : SettlesExpr text (literal constant) :=
  Leads.fresh <| hp.bind fun _ => freshId.bind fun _ => pure fun _ h => by
    simpa [Expr.tokens] using h

theorem thisExpr : SettlesExpr text thisExpr := by
  have htoken : Leads (Cursor.On text) (Parser.keyword .keyword "this") (Token.Settled text)
      (Cursor.Fresh text) := keyword (by decide)
  exact htoken.on.fresh.bind fun _ => freshId.bind fun _ => pure fun _ h => by
    simpa [Expr.tokens] using h

theorem superExpr : SettlesExpr text superExpr := by
  have htoken : Leads (Cursor.On text) (Parser.keyword .keyword "super") (Token.Settled text)
      (Cursor.Fresh text) := keyword (by decide)
  exact htoken.fresh.bind fun _ => committed <| (fresh (symbol (by decide))).bind fun _ =>
    identifier.bind fun _ => freshId.bind fun _ => pure fun _ hmethod _ htoken => by
      simpa [Expr.tokens] using ⟨htoken, hmethod.settled⟩

theorem variableExpr : SettlesExpr text variableExpr :=
  identifier.bind fun _ => freshId.bind fun _ => pure fun _ h => by
    simpa [Expr.tokens] using h.settled

variable {expression : Parser Expr} {block : Parser (List Stmt)}

theorem groupingExpr (he : SettlesExpr text expression) :
    SettlesExpr text (groupingExpr expression) :=
  (fresh (symbol (by decide))).bind fun _ => committed <| Leads.bind he fun _ =>
    (on (symbol (by decide))).bind fun _ => freshId.bind fun _ => pure fun _ _ hinner _ => hinner

theorem primary (he : SettlesExpr text expression) : SettlesExpr text (primary expression) := by
  refine choice skips_fresh fun p hp => ?_
  simp only [List.mem_cons, List.not_mem_nil, or_false] at hp
  rcases hp with rfl | rfl | rfl | rfl | rfl | rfl | rfl | rfl | rfl
  · exact literal numberConstant
  · exact literal stringConstant
  · exact literal wordConstant
  · exact literal wordConstant
  · exact literal wordConstant
  · exact thisExpr
  · exact superExpr
  · exact variableExpr
  · exact groupingExpr he

-- =================================================================== calls

theorem commaSeparated {item : Parser α}
    (hitem : Leads (Cursor.Fresh text) item good (Cursor.On text)) :
    Leads (Cursor.Fresh text) (commaSeparated item) (fun found => ∀ a ∈ found, good a)
      (Cursor.On text) := by
  have hround : Leads (Cursor.On text) (do Parser.symbol ','; item) good (Cursor.On text) :=
    (symbol (by decide)).bind fun _ => hitem.imp fun _ h _ => h
  have hlist : Leads (Cursor.Fresh text) (do
      let first ← item
      let more ← Parser.many do Parser.symbol ','; item
      Pure.pure (first :: more)) (fun found => ∀ a ∈ found, good a) (Cursor.On text) :=
    hitem.bind fun _ => (many hround).bind fun _ => pure fun hmore hfirst =>
      List.forall_mem_cons.mpr ⟨hfirst, hmore⟩
  refine (optional hlist fun _ h => h.on).bind fun found => pure fun hfound => ?_
  cases found with
  | none => nofun
  | some items => exact hfound items rfl

theorem callSuffix (he : SettlesExpr text expression) :
    Leads (Cursor.On text) (callSuffix expression) (fun x => AllSettled text x.tokens)
      (Cursor.On text) := by
  have hparen : Leads (Cursor.On text) (Parser.symbolToken .rightParen ')') (Token.Settled text)
      (Cursor.Fresh text) := symbolToken (by decide) (by decide)
  refine (skipTrivia skips_on).bind fun place => (symbol (by decide)).bind fun _ =>
    (commaSeparated he).bind fun arguments => hparen.on.bind fun paren => ?_
  split
  · exact fails
  · refine pure fun hparen harguments _ _ => ?_
    simpa [Suffix.tokens] using ⟨.exprs harguments, hparen⟩

theorem getSuffix :
    Leads (Cursor.On text) getSuffix (fun x => AllSettled text x.tokens) (Cursor.On text) :=
  (symbol (by decide)).bind fun _ => identifier.bind fun _ => pure fun h _ => by
    simpa [Suffix.tokens] using h.settled

theorem applySuffixes {pre : Cursor → Prop} (suffixes : List Suffix) : ∀ e : Expr,
    Leads pre (applySuffixes e suffixes)
      (fun whole => (∀ x ∈ suffixes, AllSettled text x.tokens) → AllSettled text e.tokens →
        AllSettled text whole.tokens) pre := by
  induction suffixes with
  | nil => exact fun e => pure fun _ h => h
  | cons suffix rest ih =>
      intro e
      cases suffix with
      | call paren arguments =>
          refine freshId.bind fun id => (ih _).imp fun whole h _ hsuffixes he => ?_
          obtain ⟨hsuffix, hrest⟩ := List.forall_mem_cons.mp hsuffixes
          refine h hrest ?_
          simpa [Expr.tokens, Suffix.tokens] using ⟨he, by simpa [Suffix.tokens] using hsuffix⟩
      | get name =>
          refine freshId.bind fun id => (ih _).imp fun whole h _ hsuffixes he => ?_
          obtain ⟨hsuffix, hrest⟩ := List.forall_mem_cons.mp hsuffixes
          refine h hrest ?_
          simpa [Expr.tokens, Suffix.tokens] using ⟨he, by simpa [Suffix.tokens] using hsuffix⟩

theorem call (he : SettlesExpr text expression) : SettlesExpr text (call expression) := by
  have hsuffix : Leads (Cursor.On text)
      (Parser.firstOf none [Parser.callSuffix expression, Parser.getSuffix])
      (fun x => AllSettled text x.tokens) (Cursor.On text) := by
    refine firstOf fun p hp => ?_
    simp only [List.mem_cons, List.not_mem_nil, or_false] at hp
    rcases hp with rfl | rfl
    · exact callSuffix he
    · exact getSuffix
  exact Leads.bind (primary he) fun head => (many hsuffix).bind fun suffixes =>
    applySuffixes suffixes head

-- =============================================================== operators

theorem unary (he : SettlesExpr text expression) (depth : Nat) :
    SettlesExpr text (unary expression depth) := by
  induction depth with
  | zero => exact reject
  | succ depth ih =>
      intro s
      refine choice skips_fresh (fun p hp => ?_) s
      simp only [List.mem_cons, List.not_mem_nil, or_false] at hp
      rcases hp with rfl | rfl
      · refine (fresh (operator (by decide))).bind fun _ => Leads.bind ih fun _ =>
          freshId.bind fun _ => pure fun _ hoperand htoken => ?_
        simpa [Expr.tokens] using ⟨htoken, hoperand⟩
      · exact call he

/-- The tokens of a node are those of its operands, with the operator between them. -/
def Between (join : Joiner) : Prop :=
  ∀ id left token right, (join id left token right).tokens = left.tokens ++ token :: right.tokens

theorem foldLeft {pre : Cursor → Prop} {join : Joiner} (hjoin : Between join)
    (more : List (Token × Expr)) : ∀ left : Expr,
    Leads pre (foldLeft join left more)
      (fun whole => (∀ x ∈ more, x.1.Settled text ∧ AllSettled text x.2.tokens) →
        AllSettled text left.tokens → AllSettled text whole.tokens) pre := by
  induction more with
  | nil => exact fun left => pure fun _ h => h
  | cons pair rest ih =>
      intro left
      refine freshId.bind fun id => (ih _).imp fun whole h _ hmore hleft => ?_
      obtain ⟨hpair, hrest⟩ := List.forall_mem_cons.mp hmore
      refine h hrest ?_
      rw [hjoin]
      exact Token.AllSettled.append.mpr ⟨hleft, Token.AllSettled.cons.mpr hpair⟩

theorem leftAssociative {join : Joiner} (hjoin : Between join) {token : Parser Token}
    {operand : Parser Expr}
    (ht : Leads (Cursor.On text) token (Token.Settled text) (Cursor.Fresh text))
    (ho : SettlesExpr text operand) : SettlesExpr text (leftAssociative join token operand) := by
  have hround : Leads (Cursor.On text) (do
      let op ← token
      let right ← operand
      Pure.pure (op, right)) (fun x => x.1.Settled text ∧ AllSettled text x.2.tokens)
      (Cursor.On text) :=
    ht.bind fun _ => Leads.bind ho fun _ => pure fun hright htoken => ⟨htoken, hright⟩
  exact Leads.bind ho fun first => (many hround).bind fun more => foldLeft hjoin more first

theorem logicalOr {operand : Parser Expr} (ho : SettlesExpr text operand) :
    SettlesExpr text (logicalOr operand) := by
  have hbinary : Between .binary := fun _ _ _ _ => rfl
  have hlogical : Between .logical := fun _ _ _ _ => rfl
  have hfactor : SettlesExpr text (factor operand) :=
    leftAssociative hbinary (operator (by decide)) ho
  have hterm : SettlesExpr text (term operand) :=
    leftAssociative hbinary (operator (by decide)) hfactor
  have hcomparison : SettlesExpr text (comparison operand) :=
    leftAssociative hbinary (operator (by decide)) hterm
  have hequality : SettlesExpr text (equality operand) :=
    leftAssociative hbinary (operator (by decide)) hcomparison
  have hand : SettlesExpr text (logicalAnd operand) :=
    leftAssociative hlogical (keyword (by decide)) hequality
  exact leftAssociative hlogical (keyword (by decide)) hand

-- ============================================================== assignment

theorem assignTo {pre : Cursor → Prop} (target : Expr) (equals : Token) (value : Expr) :
    Leads pre (assignTo target equals value)
      (fun e => AllSettled text value.tokens → AllSettled text target.tokens →
        AllSettled text e.tokens) pre := by
  unfold Parser.assignTo
  split
  · exact freshId.bind fun _ => pure fun _ hvalue htarget =>
      Token.AllSettled.cons.mpr ⟨(Token.AllSettled.cons.mp htarget).1, hvalue⟩
  · refine freshId.bind fun _ => pure fun _ hvalue htarget => ?_
    obtain ⟨hobject, hname⟩ := Token.AllSettled.append.mp htarget
    exact Token.AllSettled.append.mpr
      ⟨hobject, Token.AllSettled.cons.mpr ⟨(Token.AllSettled.cons.mp hname).1, hvalue⟩⟩
  · exact fails

theorem assignment (depth : Nat) : SettlesExpr text (assignment depth) := by
  induction depth with
  | zero => exact reject
  | succ depth ih =>
      have hsource : Leads (Cursor.On text) (do
          let equals ← Parser.equalSign
          let value ← Parser.assignment depth
          Pure.pure (equals, value)) (fun x => AllSettled text x.2.tokens) (Cursor.On text) :=
        equalSign.bind fun _ => Leads.bind ih fun _ => pure fun h _ => h
      intro s
      refine Leads.bind (logicalOr (unary ih (depth + 1))) (fun target =>
        (optional hsource fun _ h => h).bind fun source => ?_) s
      cases source with
      | none => exact pure fun _ htarget => htarget
      | some pair =>
          exact (assignTo target pair.1 pair.2).imp fun _ h hfound htarget =>
            h (hfound pair rfl) htarget

-- ============================================================ declarations

theorem declarations {declaration : Parser Stmt} (closer : Option Char)
    (hd : SettlesStmt text declaration) :
    Leads (Cursor.Fresh text) (declarations closer declaration)
      (fun body => AllSettled text (Stmt.tokensAll body)) (Cursor.Fresh text) := by
  refine (many (recovering closer skips_fresh hd)).bind fun found => pure fun hfound =>
    .stmts fun s hs => ?_
  obtain ⟨o, ho, hos⟩ := List.mem_filterMap.mp hs
  exact hfound o ho s hos

theorem braced {declaration : Parser Stmt} (hd : SettlesStmt text declaration) :
    SettlesBody text (braced declaration) :=
  (symbol (by decide)).bind fun _ => committed <| (declarations (some '}') hd).bind fun _ =>
    (fresh (symbol (by decide))).bind fun _ => pure fun _ hbody _ => hbody

-- ======================================================= simple statements

theorem expressionStmt (he : SettlesExpr text expression) :
    SettlesStmt text (expressionStmt expression) :=
  Leads.bind he fun _ => committed <| (symbol (by decide)).bind fun _ => freshId.bind fun _ =>
    pure fun _ _ h => h

theorem printStmt (he : SettlesExpr text expression) : SettlesStmt text (printStmt expression) :=
  fresh <| word_committed <| Leads.bind he fun _ => (symbol (by decide)).bind fun _ =>
    freshId.bind fun _ => pure fun _ _ h => h

theorem optionalExpr (he : SettlesExpr text expression) :
    Leads (Cursor.Fresh text) (Parser.optional expression)
      (fun found => ∀ e ∈ found, AllSettled text e.tokens) (Cursor.On text) :=
  optional he fun _ h => h.on

theorem returnStmt (he : SettlesExpr text expression) :
    SettlesStmt text (returnStmt expression) := by
  have htoken : Leads (Cursor.On text) (Parser.keyword .keyword "return") (Token.Settled text)
      (Cursor.Fresh text) := keyword (by decide)
  exact htoken.fresh.bind fun _ => committed <| (optionalExpr he).bind fun _ =>
    (symbol (by decide)).bind fun _ => freshId.bind fun _ => pure fun _ _ hvalue htoken =>
      Token.AllSettled.cons.mpr ⟨htoken, .optional hvalue⟩

theorem varDecl (he : SettlesExpr text expression) : SettlesStmt text (varDecl expression) := by
  have hinitializer : Leads (Cursor.On text) (do let _ ← Parser.equalSign; expression)
      (fun e => AllSettled text e.tokens) (Cursor.On text) :=
    equalSign.bind fun _ => Leads.imp he fun _ h _ => h
  exact fresh <| word_committed <| identifier.bind fun _ =>
    (optional hinitializer fun _ h => h).bind fun _ => (symbol (by decide)).bind fun _ =>
      freshId.bind fun _ => pure fun _ _ hvalue hname =>
        Token.AllSettled.cons.mpr ⟨hname.settled, .optional hvalue⟩

theorem blockStmt (hb : SettlesBody text block) : SettlesStmt text (blockStmt block) :=
  (fresh hb).bind fun _ => freshId.bind fun _ => pure fun _ h => h

-- ===================================================== compound statements

section

variable {statement : Parser Stmt}

theorem ifStmt (he : SettlesExpr text expression) (hs : SettlesStmt text statement) :
    SettlesStmt text (ifStmt expression statement) := by
  have helse : Leads (Cursor.Fresh text) (do Parser.word "else"; statement)
      (fun s => AllSettled text s.tokens) (Cursor.Fresh text) :=
    (fresh word).bind fun _ => Leads.imp hs fun _ h _ => h
  refine fresh <| word_committed <| (fresh (symbol (by decide))).bind fun _ =>
    Leads.bind he fun condition => (symbol (by decide)).bind fun _ =>
      Leads.bind hs fun thenBranch => (optional helse fun _ h => h).bind fun elseBranch => ?_
  cases elseBranch with
  | none =>
      exact freshId.bind fun _ => pure fun _ _ hthen _ hcondition _ =>
        Token.AllSettled.append.mpr ⟨hcondition, hthen⟩
  | some elseBranch =>
      exact freshId.bind fun _ => pure fun _ hfound hthen _ hcondition _ =>
        Token.AllSettled.append.mpr
          ⟨Token.AllSettled.append.mpr ⟨hcondition, hthen⟩, hfound elseBranch rfl⟩

theorem whileStmt (he : SettlesExpr text expression) (hs : SettlesStmt text statement) :
    SettlesStmt text (whileStmt expression statement) :=
  fresh <| word_committed <| (fresh (symbol (by decide))).bind fun _ =>
    Leads.bind he fun _ => (symbol (by decide)).bind fun _ => Leads.bind hs fun _ =>
      freshId.bind fun _ => pure fun _ hbody _ hcondition _ =>
        Token.AllSettled.append.mpr ⟨hcondition, hbody⟩

theorem forInitializer (he : SettlesExpr text expression) :
    Leads (Cursor.Fresh text) (forInitializer expression)
      (fun found => ∀ s ∈ found, AllSettled text s.tokens) (Cursor.Fresh text) := by
  have hnone : ∀ a ∈ (none : Option Stmt), AllSettled text a.tokens := by
    intro a ha
    cases ha
  have hsome : ∀ s : Stmt, AllSettled text s.tokens → ∀ a ∈ some s, AllSettled text a.tokens := by
    intro s hs a ha
    cases ha
    exact hs
  refine firstOf fun p hp => ?_
  simp only [List.mem_cons, List.not_mem_nil, or_false] at hp
  rcases hp with rfl | rfl | rfl
  · exact (fresh (symbol (by decide))).bind fun _ => pure fun _ => hnone
  · exact Leads.bind (varDecl he) fun s => pure (hsome s)
  · exact Leads.bind (expressionStmt he) fun s => pure (hsome s)

theorem forLoop {pre : Cursor → Prop} (initializer : Option Stmt)
    (condition increment : Option Expr) (body : Stmt) :
    Leads pre (forLoop initializer condition increment body)
      (fun whole => AllSettled text body.tokens → (∀ e ∈ increment, AllSettled text e.tokens) →
        (∀ e ∈ condition, AllSettled text e.tokens) →
        (∀ s ∈ initializer, AllSettled text s.tokens) → AllSettled text whole.tokens) pre := by
  have hcondition : Leads pre (loopCondition condition)
      (fun e => (∀ e ∈ condition, AllSettled text e.tokens) → AllSettled text e.tokens) pre := by
    cases condition with
    | none => exact freshId.bind fun _ => pure fun _ _ => nofun
    | some e => exact pure fun h => h e rfl
  have hbody : Leads pre (loopBody body increment)
      (fun whole => AllSettled text body.tokens → (∀ e ∈ increment, AllSettled text e.tokens) →
        AllSettled text whole.tokens) pre := by
    cases increment with
    | none => exact pure fun h _ => h
    | some e =>
        refine freshId.bind fun _ => freshId.bind fun _ => pure fun _ _ hbody hincrement => ?_
        simpa [Stmt.tokens, Stmt.tokensAll] using ⟨hbody, hincrement e rfl⟩
  refine hcondition.bind fun _ => hbody.bind fun _ => freshId.bind fun _ => ?_
  cases initializer with
  | none =>
      exact pure fun _ hb hc hbody hincrement hcondition _ =>
        Token.AllSettled.append.mpr ⟨hc hcondition, hb hbody hincrement⟩
  | some first =>
      refine freshId.bind fun _ => pure fun _ _ hb hc hbody hincrement hcondition hfirst => ?_
      simpa [Stmt.tokens, Stmt.tokensAll] using
        ⟨hfirst first rfl, hc hcondition, hb hbody hincrement⟩

theorem forStmt (he : SettlesExpr text expression) (hs : SettlesStmt text statement) :
    SettlesStmt text (forStmt expression statement) :=
  fresh <| word_committed <| (fresh (symbol (by decide))).bind fun _ =>
    (forInitializer he).bind fun initializer => (optionalExpr he).bind fun condition =>
      (symbol (by decide)).bind fun _ => (optionalExpr he).bind fun increment =>
        (symbol (by decide)).bind fun _ => Leads.bind hs fun body =>
          (forLoop initializer condition increment body).imp
            fun _ h hbody _ hincrement _ hcondition hinitializer _ =>
              h hbody hincrement hcondition hinitializer

end

theorem statement (he : SettlesExpr text expression) (hb : SettlesBody text block) (depth : Nat) :
    SettlesStmt text (statement expression block depth) := by
  induction depth with
  | zero => exact reject
  | succ depth ih =>
      intro s
      refine choice skips_fresh (fun p hp => ?_) s
      simp only [List.mem_cons, List.not_mem_nil, or_false] at hp
      rcases hp with rfl | rfl | rfl | rfl | rfl | rfl | rfl
      · exact forStmt he ih
      · exact ifStmt he ih
      · exact printStmt he
      · exact returnStmt he
      · exact whileStmt he ih
      · exact blockStmt hb
      · exact expressionStmt he

-- ====================================================== functions and classes

theorem function (hb : SettlesBody text block) :
    Leads (Cursor.Fresh text) (function block) (fun f => AllSettled text f.tokens)
      (Cursor.Fresh text) := by
  refine (skipTrivia skips_fresh).bind fun place => identifier.bind fun name =>
    (symbol (by decide)).bind fun _ => (commaSeparated identifier).bind fun params =>
      (symbol (by decide)).bind fun _ => (fresh hb).bind fun body => ?_
  split
  · exact fails
  · refine freshId.bind fun _ => pure fun _ hbody _ hparams _ hname _ => ?_
    exact Token.AllSettled.append.mpr ⟨Token.AllSettled.cons.mpr
      ⟨hname.settled, fun t ht => (hparams t ht).settled⟩, hbody⟩

theorem funDecl (hb : SettlesBody text block) : SettlesStmt text (funDecl block) :=
  fresh <| word_committed <| (function hb).bind fun _ => pure fun h => h

theorem superclass :
    Leads (Cursor.On text) superclass (fun parent => parent.name.StandsAlone text)
      (Cursor.On text) :=
  (symbol (by decide)).bind fun _ => identifier.bind fun _ => freshId.bind fun _ =>
    pure fun _ h _ => h

theorem classDecl (hb : SettlesBody text block) : SettlesStmt text (classDecl block) := by
  refine fresh <| word_committed <| identifier.bind fun name =>
    (optional superclass fun _ h => h).bind fun parent => (symbol (by decide)).bind fun _ =>
      (many (function hb)).bind fun methods => (fresh (symbol (by decide))).bind fun _ =>
        freshId.bind fun _ => pure fun _ _ hmethods _ hparent hname => ?_
  have hmethods := Token.AllSettled.funDecls hmethods
  cases parent with
  | none => simpa [Stmt.tokens, NameRef.tokensOptional] using ⟨hname.settled, hmethods⟩
  | some parent =>
      simpa [Stmt.tokens, NameRef.tokensOptional] using
        ⟨hname.settled, (hparent parent rfl).settled, hmethods⟩

theorem declaration (he : SettlesExpr text expression) (depth : Nat) :
    SettlesStmt text (declaration expression depth) := by
  induction depth with
  | zero => exact reject
  | succ depth ih =>
      have hb : SettlesBody text (Parser.braced (Parser.declaration expression depth)) := braced ih
      intro s
      refine choice skips_fresh (fun p hp => ?_) s
      simp only [List.mem_cons, List.not_mem_nil, or_false] at hp
      rcases hp with rfl | rfl | rfl | rfl
      · exact classDecl hb
      · exact funDecl hb
      · exact varDecl he
      · exact statement he hb (depth + 1)

theorem program (depth : Nat) :
    Leads (Cursor.Fresh text) (program depth)
      (fun body => AllSettled text (Stmt.tokensAll body)) (fun _ => True) := by
  have hend : Leads (Cursor.Fresh text) endOfText (fun _ => True) (fun _ => True) :=
    does_endOfText.mono fun _ _ _ _ _ => ⟨trivial, trivial⟩
  exact (declarations none (declaration (assignment depth) depth)).bind fun _ =>
    hend.bind fun _ => pure fun _ h => h

end Leads

end Lox.Parser
