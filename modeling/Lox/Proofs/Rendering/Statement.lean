/-
Statements and declarations are read off the words that spell them, and what is
read is alike. What follows a statement matters in one case alone: an `else`
belongs to the nearest `if` in front of it that has none, so none may follow an
open spelling.

Nothing is left to recovery: a declaration that is spelt never fails, so no fault
goes on record.
-/
import Lox.Proofs.Rendering.Expression
import Lox.Proofs.Rendering.Layout

namespace Lox

open Text

/-- The words with which statements begin that are no expressions. -/
def statementHeads : List Word :=
  [.symbol "\x7b", .keyword "class", .keyword "for", .keyword "fun", .keyword "if",
    .keyword "print", .keyword "return", .keyword "var", .keyword "while"]

section Spelt

variable {P : Expr → Prop} {a : Stmt} {o : Bool} {ws more : List Word}

theorem Stmt.Spells.begins (h : a.Spells P o ws) (hP : ∀ e, P e → e.Canonical) :
    ∃ w, ws.head? = some w ∧ (w.begins = true ∨ w ∈ statementHeads) := by
  cases h with
  | @expression id e he =>
      obtain ⟨w, hw, hbegins, -⟩ := e.begins (hP e he)
      refine ⟨w, ?_, .inl hbegins⟩
      rw [e.head?_words_append, hw]
  | _ => exact ⟨_, rfl, .inr (by decide)⟩

/-- Declarations begin with words of their own. -/
theorem Stmt.Spells.begins_plain (h : a.Spells P o ws) (hP : ∀ e, P e → e.Canonical)
    (hplain : a.declares = none) :
    ∃ w, ws.head? = some w ∧ w ∉ ["class", "fun", "var"].map Word.keyword := by
  have hdeclares : ∀ w ∈ ["class", "fun", "var"].map Word.keyword, w.begins = false := by decide
  cases h with
  | @expression id e he =>
      obtain ⟨w, hw, hbegins, -⟩ := e.begins (hP e he)
      refine ⟨w, ?_, fun hmem => ?_⟩
      · rw [e.head?_words_append, hw]
      · rw [hdeclares w hmem] at hbegins
        cases hbegins
  | varDecl => cases hplain
  | funDecl => cases hplain
  | classDecl => cases hplain
  | _ => exact ⟨_, rfl, by decide⟩

theorem Stmt.Spells.ne_nil (h : a.Spells P o ws) (hP : ∀ e, P e → e.Canonical) : ws ≠ [] := by
  obtain ⟨w, hw, -⟩ := h.begins hP
  rintro rfl
  cases hw

theorem FunDecl.Spells.ne_nil {f : FunDecl} (h : f.Spells P ws) : ws ≠ [] := by
  cases h
  exact List.cons_ne_nil _ _

/-- Statements one after another, each with its own words. -/
theorem Stmt.SpellsAll.exists_parts : {body : List Stmt} → {ws : List Word} →
    Stmt.SpellsAll P body ws → ∃ parts : List (Stmt × List Word), parts.map Prod.fst = body
      ∧ parts.flatMap Prod.snd = ws ∧ ∀ x ∈ parts, ∃ o, x.1.Spells P o x.2
  | _, _, .nil => ⟨[], rfl, rfl, nofun⟩
  | _, _, .cons h hrest => by
    obtain ⟨parts, rfl, rfl, hall⟩ := hrest.exists_parts
    exact ⟨(_, _) :: parts, rfl, rfl, List.forall_mem_cons.mpr ⟨⟨_, h⟩, hall⟩⟩

theorem FunDecl.SpellsAll.exists_parts : {fs : List FunDecl} → {ws : List Word} →
    FunDecl.SpellsAll P fs ws → ∃ parts : List (FunDecl × List Word), parts.map Prod.fst = fs
      ∧ parts.flatMap Prod.snd = ws ∧ ∀ x ∈ parts, x.1.Spells P x.2
  | _, _, .nil => ⟨[], rfl, rfl, nofun⟩
  | _, _, .cons h hrest => by
    obtain ⟨parts, rfl, rfl, hall⟩ := hrest.exists_parts
    exact ⟨(_, _) :: parts, rfl, rfl, List.forall_mem_cons.mpr ⟨h, hall⟩⟩

end Spelt

namespace Parser

variable {α β : Type} {ws more : List Word} {w : Word} {n : Nat} {expression : Parser Expr}
  {block : Parser (List Stmt)} {P : Expr → Prop} {ρ : Likeness}

theorem takes_word (s : String) : Takes (word s) [.keyword s] more fun _ => True :=
  (takes_keyword .keyword s).last fun _ _ => .pure trivial

theorem leaves_word {s : String} (hs : s ∈ reservedWords) (hne : ws.head? ≠ some (.keyword s)) :
    Leaves (word s) ws :=
  (leaves_keyword .keyword hs hne).bind

-- ======================================================= simple statements

/-- The reader takes the expressions in question that have no more than so many words, and reads
them as trees that are alike. -/
def Rereads (P : Expr → Prop) (ρ : Likeness) (n : Nat) (p : Parser Expr) : Prop :=
  ∀ e : Expr, P e → e.words.length ≤ n → ∀ more, Stops 0 more → Takes p e.words more (e.Alike ρ)

theorem Rereads.mono {m : Nat} {p : Parser Expr} (h : Rereads P ρ n p) (hm : m ≤ n) :
    Rereads P ρ m p :=
  fun e he hlength => h e he (Nat.le_trans hlength hm)

section Simple

variable (he : Rereads P ρ n expression)
include he

theorem takes_expression {e : Expr} (hp : P e) (hlength : e.words.length ≤ n)
    (hw : w.strength = none) : Takes expression e.words (w :: more) (e.Alike ρ) :=
  he e hp hlength (w :: more) (.of_none hw)

/-- An expression that may be missing in front of a word. -/
theorem takes_optional (hnone : ∀ w ∈ closers, ∀ more, Leaves expression (w :: more))
    {value : Option Expr} (hp : ∀ e ∈ value, P e) (hlength : (Expr.wordsOptional value).length ≤ n)
    (hw : w ∈ closers) :
    Takes (optional expression) (Expr.wordsOptional value) (w :: more)
      (Option.Rel (Expr.Alike ρ) value) := by
  have hstrength : ∀ w ∈ closers, w.strength = none := by decide
  cases value with
  | none =>
      refine (Takes.none (hnone w hw more)).mono fun value' h => ?_
      rw [h]
      exact .none
  | some e =>
      refine (takes_expression he (hp e rfl) hlength (hstrength w hw)).some.mono fun value' h => ?_
      obtain ⟨e', rfl, he'⟩ := h
      exact .some he'

variable (hρ : ρ.Lax)
include hρ

theorem takes_expressionStmt {id : NodeId} {e : Expr} (hp : P e) (hlength : e.words.length ≤ n) :
    Takes (expressionStmt expression) (e.words ++ [.symbol ";"]) more
      ((Stmt.expression id e).Alike ρ) := by
  refine (takes_expression he hp hlength rfl).bind fun e' he' => .committed ?_
  exact (takes_symbol rfl).last fun _ _ => .silent .freshId fun id' _ =>
    .pure (.expression (hρ.nodes _ _) he')

theorem takes_printStmt {id : NodeId} {e : Expr} (hp : P e) (hlength : e.words.length ≤ n) :
    Takes (printStmt expression) (.keyword "print" :: (e.words ++ [.symbol ";"])) more
      ((Stmt.print id e).Alike ρ) := by
  refine (takes_word "print").cons fun _ _ => .committed ?_
  exact (takes_expression he hp hlength rfl).bind fun e' he' => (takes_symbol rfl).last fun _ _ =>
    .silent .freshId fun id' _ => .pure (.print (hρ.nodes _ _) he')

theorem takes_returnStmt (hnone : ∀ w ∈ closers, ∀ more, Leaves expression (w :: more))
    {id : NodeId} {keyword : Token} {value : Option Expr} (hkeyword : keyword.Is .keyword "return")
    (hp : ∀ e ∈ value, P e) (hlength : (Expr.wordsOptional value).length ≤ n) :
    Takes (returnStmt expression)
      (.keyword "return" :: (Expr.wordsOptional value ++ [.symbol ";"])) more
      ((Stmt.returnStmt id keyword value).Alike ρ) := by
  refine (takes_keyword _ _).cons fun token htoken => .committed ?_
  exact (takes_optional he hnone hp hlength (by decide)).bind fun value' hvalue =>
    (takes_symbol rfl).last fun _ _ => .silent .freshId fun id' _ =>
      .pure (.returnStmt (hρ.nodes _ _) (hρ.tokens (htoken.outline_eq hkeyword)) hvalue)

theorem takes_varDecl {id : NodeId} {name : Token} {initializer : Option Expr}
    (hname : name.kind = .identifier) (hp : ∀ e ∈ initializer, P e)
    (hlength : (Expr.wordsInit initializer).length ≤ n) :
    Takes (varDecl expression)
      (.keyword "var" :: name.word :: (Expr.wordsInit initializer ++ [.symbol ";"])) more
      ((Stmt.varDecl id name initializer).Alike ρ) := by
  rw [Token.word_of_identifier hname]
  have hinit : Takes (optional do let _ ← equalSign; expression) (Expr.wordsInit initializer)
      (.symbol ";" :: more) (Option.Rel (Expr.Alike ρ) initializer) := by
    cases initializer with
    | none =>
        refine (Takes.none (leaves_equalSign (by simp)).bind).mono fun value h => ?_
        rw [h]
        exact .none
    | some e =>
        rw [Expr.wordsInit, List.length_cons] at hlength
        have hvalue : Takes (do let _ ← equalSign; expression) (.symbol "=" :: e.words)
            (.symbol ";" :: more) (e.Alike ρ) :=
          takes_equalSign.cons fun _ _ => takes_expression he (hp e rfl) (by omega) rfl
        refine hvalue.some.mono fun value h => ?_
        obtain ⟨e', rfl, he'⟩ := h
        exact .some he'
  refine (takes_word "var").cons fun _ _ => .committed ?_
  exact (takes_identifier _).cons fun token htoken => hinit.bind fun value hvalue =>
    (takes_symbol rfl).last fun _ _ => .silent .freshId fun id' _ =>
      .pure (.varDecl (hρ.nodes _ _) (hρ.tokens (htoken.outline_eq ⟨hname, rfl⟩)) hvalue)

end Simple

-- ================================================================ recovery

/-- The reader takes the statements in question that fit and are spelt with no more than so many
words, unless an `else` follows that would belong to them. -/
def InvertsStmt (P : Expr → Prop) (ρ : Likeness) (fits : Stmt → Prop) (n : Nat) (p : Parser Stmt) :
    Prop :=
  ∀ (a : Stmt) (o : Bool) (ws : List Word), fits a → a.Spells P o ws → ws.length ≤ n → ∀ more,
    (o = true → more.head? ≠ some (.keyword "else")) → Takes p ws more (a.Alike ρ)

/-- No gap lies in front of a word. -/
theorem skipGap_front {c : Cursor} (h : c.InFront ws) : c.skipGap = c := by
  have hnone : triviaLength false c.rest = 0 := by
    have hlength := congrArg List.length h.trimmed_rest
    rw [trimmed, List.length_drop] at hlength
    have hpos : c.rest = [] ∨ 0 < c.rest.length := by
      rw [List.length_pos_iff]
      exact Classical.em _
    rcases hpos with hnil | hpos
    · rw [hnil]
      rfl
    · omega
  have hsolid : ∀ x ∈ c.rest.head?, isBlank x = false := by
    intro x hx
    cases ws with
    | nil =>
        rw [h.rest_nil] at hx
        cases hx
    | cons w more =>
        obtain ⟨y, tail, hshape, hblank, -⟩ := (h.valid w List.mem_cons_self).opens
        rw [h.head?, hshape] at hx
        obtain rfl := Option.some.inj hx
        exact hblank
  rw [Cursor.skipGap, gapLength_eq_zero hnone hsolid, Cursor.advance_zero]

/-- The word that ends the declarations in braces; nothing ends those of a whole text. -/
def Ends (closer : Option Char) (ws : List Word) : Prop :=
  match closer with
  | none => ws = []
  | some c => ∃ s, s.toList = [c] ∧ ws.head? = some (.symbol s)

theorem run_skipTrivia (s : Progress) :
    skipTrivia s = .ok s.cursor.skipTrivia.place { s with cursor := s.cursor.skipTrivia } := rfl

theorem takes_recovering {closer : Option Char} {declaration : Parser Stmt} {good : Stmt → Prop}
    (hp : Takes declaration (w :: ws) more good) (hne : w.spelling.head? ≠ closer) :
    Takes (recovering closer declaration) (w :: ws) more fun o => ∃ a, o = some a ∧ good a := by
  intro s hs
  obtain ⟨a, t, hrun, hgood, ht⟩ := hp _ hs.skipTrivia
  refine ⟨some a, t, ?_, ⟨a, rfl, hgood⟩, ht⟩
  have hfront := hs.front
  have hgo : (s.cursor.skipTrivia.atEnd || s.cursor.skipTrivia.rest.head? == closer) = false := by
    have hpos : s.cursor.skipTrivia.rest ≠ [] := List.length_pos_iff.mp hfront.stands.length_pos.2
    rw [hfront.head?, Cursor.atEnd, List.isEmpty_eq_false_iff.mpr hpos, Bool.false_or,
      beq_eq_false_iff_ne]
    exact hne
  unfold recovering
  refine (run_bind_ok (run_skipTrivia s)).trans ?_
  dsimp only
  rw [skipGap_front hfront, hgo, hrun]
  rfl

theorem leaves_recovering {closer : Option Char} {declaration : Parser Stmt}
    (h : Ends closer ws) : Leaves (recovering closer declaration) ws := by
  intro s hs
  have hfront := hs.front
  have hstop : (s.cursor.skipTrivia.atEnd || s.cursor.skipTrivia.rest.head? == closer) = true := by
    cases closer with
    | none =>
        obtain rfl := h
        rw [Cursor.atEnd, hfront.rest_nil]
        rfl
    | some c =>
        obtain ⟨spelling, hshape, hhead⟩ := h
        obtain ⟨rest, rfl⟩ := List.head?_eq_some_iff.mp hhead
        rw [hfront.head?, Word.spelling, hshape]
        simp
  refine ⟨⟨.soft, ⟨.expected .declaration, s.cursor.skipTrivia.place⟩⟩,
    { s with cursor := s.cursor.skipTrivia }, (run_bind_ok (run_skipTrivia s)).trans ?_, rfl, rfl, rfl⟩
  dsimp only
  rw [skipGap_front hfront, hstop]
  rfl

/-- None of the statements was left out. -/
theorem alike_filterMap {parts : List (Stmt × List Word)} {found : List (Option Stmt)}
    (h : List.Forall₂ (fun x o => ∃ a' : Stmt, o = some a' ∧ x.1.Alike ρ a') parts found) :
    List.Forall₂ (Stmt.Alike ρ) (parts.map Prod.fst) (found.filterMap id) := by
  induction h with
  | nil => exact .nil
  | cons ha _ ih =>
      obtain ⟨a', rfl, ha'⟩ := ha
      exact .cons ha' ih

/-- No statement begins with a word that ends declarations, or with an `else`. -/
theorem not_statementHead (hw : w.begins = true ∨ w ∈ statementHeads) :
    w ≠ .symbol "\x7d" ∧ w ≠ .keyword "else" := by
  refine ⟨?_, ?_⟩ <;> rintro rfl <;> revert hw <;> decide

theorem head_ne_closer {closer : Option Char} (hvalid : w.Valid)
    (hw : w.begins = true ∨ w ∈ statementHeads) (hcloser : closer = none ∨ closer = some '\x7d') :
    w.spelling.head? ≠ closer := by
  rcases hcloser with rfl | rfl
  · obtain ⟨c, tail, hshape, -, -⟩ := hvalid.opens
    rw [hshape]
    simp
  · intro hhead
    have honly : ∀ s ∈ symbols, s.toList.head? = some '\x7d' → s = "\x7d" := by decide
    obtain ⟨s, hs, rfl⟩ := hvalid.symbolic hhead (s := "\x7d") (by decide) rfl
    rw [honly s hs hhead] at hw
    exact (not_statementHead hw).1 rfl

theorem takes_declarations {closer : Option Char} {declaration : Parser Stmt}
    (hP : ∀ e, P e → e.Canonical) (hd : InvertsStmt P ρ (fun _ => True) n declaration)
    {body : List Stmt} (hspells : Stmt.SpellsAll P body ws) (hlength : ws.length ≤ n)
    (hcloser : closer = none ∨ closer = some '\x7d') (hend : Ends closer more)
    (helse : more.head? ≠ some (.keyword "else")) :
    Takes (declarations closer declaration) ws more (List.Forall₂ (Stmt.Alike ρ) body) := by
  obtain ⟨parts, rfl, rfl, hparts⟩ := hspells.exists_parts
  have hbegins : ∀ x ∈ parts, ∃ w ws, x.2 = w :: ws
      ∧ (w.begins = true ∨ w ∈ statementHeads) := by
    intro x hx
    obtain ⟨o, hx⟩ := hparts x hx
    obtain ⟨w, hw, hbegins⟩ := hx.begins hP
    obtain ⟨ws, hws⟩ := List.head?_eq_some_iff.mp hw
    exact ⟨w, ws, hws, hbegins⟩
  have hmany : Takes (many (recovering closer declaration)) (parts.flatMap Prod.snd) more
      (List.Forall₂ (fun x o => ∃ a' : Stmt, o = some a' ∧ x.1.Alike ρ a') parts) := by
    refine .many (fun ws => ws.head? ≠ some (.keyword "else")) (fun x hx behind hbehind => ?_)
      (fun x hx behind => ?_) (fun x hx => ?_) (leaves_recovering hend) helse
    · have hle := length_le_flatMap (f := Prod.snd) hx
      obtain ⟨o, hspells⟩ := hparts x hx
      have hone := hd x.1 o x.2 trivial hspells (by omega) behind fun _ => hbehind
      obtain ⟨w, ws, hws, hw⟩ := hbegins x hx
      rw [hws] at hone ⊢
      intro s hs
      have hvalid := hs.front.valid w List.mem_cons_self
      exact takes_recovering hone (head_ne_closer hvalid hw hcloser) s hs
    · obtain ⟨w, ws, hws, hw⟩ := hbegins x hx
      rw [hws]
      exact fun he => (not_statementHead hw).2 (Option.some.inj he)
    · obtain ⟨w, ws, hws, -⟩ := hbegins x hx
      rw [hws]
      exact List.cons_ne_nil _ _
  exact hmany.last fun found hfound => .pure (alike_filterMap hfound)

/-- The reader takes declarations in braces that have no more than so many words, braces and all,
and leaves what does not begin with a brace. -/
structure InvertsBlock (P : Expr → Prop) (ρ : Likeness) (n : Nat) (p : Parser (List Stmt)) :
    Prop where
  takes : ∀ body ws, Stmt.SpellsAll P body ws → ws.length + 2 ≤ n → ∀ more,
    Takes p (.symbol "\x7b" :: (ws ++ [.symbol "\x7d"])) more (List.Forall₂ (Stmt.Alike ρ) body)
  leaves : ∀ ws, ws.head? ≠ some (.symbol "\x7b") → Leaves p ws

theorem inverts_braced {declaration : Parser Stmt} (hP : ∀ e, P e → e.Canonical)
    (hd : InvertsStmt P ρ (fun _ => True) n declaration) :
    InvertsBlock P ρ (n + 2) (braced declaration) where
  takes body ws hspells hlength more := by
    refine (takes_symbol rfl).cons fun _ _ => .committed ?_
    have hbody : Takes (declarations (some '\x7d') declaration) ws (.symbol "\x7d" :: more)
        (List.Forall₂ (Stmt.Alike ρ) body) :=
      takes_declarations hP hd hspells (by omega) (.inr rfl) ⟨_, rfl, rfl⟩ (by simp)
    exact hbody.bind fun body' hbody' => (takes_symbol rfl).last fun _ _ => Takes.pure hbody'
  leaves ws hne := (leaves_symbol_ne "\x7b" (by decide) (by decide) rfl hne).bind

-- ===================================================== compound statements

section Compound

variable {statement : Parser Stmt} {condition : Expr} {id : NodeId} {bs : List Word}
  (hρ : ρ.Lax) (he : Rereads P ρ n expression) (hc : P condition)
  (hlength : condition.words.length ≤ n)
include hρ he hc hlength

theorem takes_whileStmt {body : Stmt} (hbody : Takes statement bs more (body.Alike ρ)) :
    Takes (whileStmt expression statement)
      (.keyword "while" :: .symbol "(" :: (condition.words ++ .symbol ")" :: bs)) more
      ((Stmt.whileLoop id condition body).Alike ρ) := by
  refine (takes_word "while").cons fun _ _ => .committed ?_
  exact (takes_symbol rfl).cons fun _ _ =>
    (takes_expression he hc hlength rfl).bind fun condition' hcondition =>
    (takes_symbol rfl).cons fun _ _ => hbody.last fun body' hbody' =>
    .silent .freshId fun id' _ => .pure (.whileLoop (hρ.nodes _ _) hcondition hbody')

/-- An `if` takes the `else` behind its branch, if one follows. -/
theorem takes_ifStmt {thenBranch : Stmt} (hthen : Takes statement bs more (thenBranch.Alike ρ))
    (helse : more.head? ≠ some (.keyword "else")) :
    Takes (ifStmt expression statement)
      (.keyword "if" :: .symbol "(" :: (condition.words ++ .symbol ")" :: bs)) more
      ((Stmt.ifThen id condition thenBranch).Alike ρ) := by
  refine (takes_word "if").cons fun _ _ => .committed ?_
  refine (takes_symbol rfl).cons fun _ _ =>
    (takes_expression he hc hlength rfl).bind fun condition' hcondition =>
    (takes_symbol rfl).cons fun _ _ => hthen.last fun thenBranch' hthen' =>
    .silent (.none (leaves_word (by decide) helse).bind) fun branch hbranch => ?_
  rw [hbranch]
  exact .silent .freshId fun id' _ => .pure (.ifThen (hρ.nodes _ _) hcondition hthen')

theorem takes_ifElseStmt {thenBranch elseBranch : Stmt}
    (hthen : Takes statement bs (.keyword "else" :: (ws ++ more)) (thenBranch.Alike ρ))
    (helse : Takes statement ws more (elseBranch.Alike ρ)) :
    Takes (ifStmt expression statement)
      (.keyword "if" :: .symbol "(" :: (condition.words ++ .symbol ")" :: (bs
        ++ .keyword "else" :: ws))) more
      ((Stmt.ifElse id condition thenBranch elseBranch).Alike ρ) := by
  have hbranch : Takes (optional do word "else"; statement) (.keyword "else" :: ws) more
      fun o => ∃ a, o = some a ∧ elseBranch.Alike ρ a :=
    Takes.some ((takes_word "else").cons fun _ _ => helse)
  refine (takes_word "if").cons fun _ _ => .committed ?_
  refine (takes_symbol rfl).cons fun _ _ =>
    (takes_expression he hc hlength rfl).bind fun condition' hcondition =>
    (takes_symbol rfl).cons fun _ _ => hthen.bind fun thenBranch' hthen' =>
    hbranch.last fun branch hfound => ?_
  obtain ⟨elseBranch', rfl, helse'⟩ := hfound
  exact .silent .freshId fun id' _ => .pure (.ifElse (hρ.nodes _ _) hcondition hthen' helse')

end Compound

theorem takes_blockStmt (hρ : ρ.Lax) (hb : InvertsBlock P ρ n block) {id : NodeId}
    {body : List Stmt} (hspells : Stmt.SpellsAll P body ws) (hlength : ws.length + 2 ≤ n) :
    Takes (blockStmt block) (.symbol "\x7b" :: (ws ++ [.symbol "\x7d"])) more
      ((Stmt.block id body).Alike ρ) :=
  (hb.takes body ws hspells hlength more).last fun _ hbody =>
    .silent .freshId fun _ _ => .pure (.block (hρ.nodes _ _) hbody)

-- =================================================================== loops

section Loops

variable {initializer initializer' : Option Stmt}
  {condition condition' increment increment' : Option Expr} {body body' whole : Stmt} (hρ : ρ.Lax)
include hρ

/-- Parts that are alike make loops that are alike. -/
theorem takes_forLoop (hfirst : Option.Rel (Stmt.Alike ρ) initializer initializer')
    (hc : Option.Rel (Expr.Alike ρ) condition condition')
    (hi : Option.Rel (Expr.Alike ρ) increment increment') (hbody : body.Alike ρ body')
    (hloop : IsLoop initializer condition increment body whole) :
    Takes (forLoop initializer' condition' increment' body') [] more (whole.Alike ρ) := by
  obtain @⟨id, e, a, _, hcondition, hstepped, hwhole⟩ := hloop
  have hhead : Takes (loopCondition condition') [] more (e.Alike ρ) := by
    cases hc with
    | none =>
        cases hcondition with
        | missing =>
            exact .silent .freshId fun _ _ => .pure (.literal (hρ.nodes _ _) hρ.missing)
    | some h =>
        cases hcondition with
        | given => exact .pure h
  have hinner : Takes (loopBody body' increment') [] more (a.Alike ρ) := by
    cases hi with
    | none =>
        cases hstepped with
        | plain => exact .pure hbody
    | some h =>
        cases hstepped with
        | stepped =>
            exact .silent .freshId fun _ _ => .silent .freshId fun _ _ => .pure
              (.block (hρ.nodes _ _) (.cons hbody (.cons (.expression (hρ.nodes _ _) h) .nil)))
  refine .silent hhead fun e' he' => .silent hinner fun a' ha' => .silent .freshId fun id' _ => ?_
  have hwhile : (Stmt.whileLoop id e a).Alike ρ (.whileLoop id' e' a') :=
    .whileLoop (hρ.nodes _ _) he' ha'
  cases hfirst with
  | none =>
      cases hwhole with
      | plain => exact .pure hwhile
  | some h =>
      cases hwhole with
      | started =>
          exact .silent .freshId fun _ _ =>
            .pure (.block (hρ.nodes _ _) (.cons h (.cons hwhile .nil)))

variable (hP : ∀ e, P e → e.Canonical) (he : Rereads P ρ n expression)
include hP he

theorem takes_forInitializer (hstarts : Stmt.Starts P initializer ws) (hlength : ws.length ≤ n) :
    Takes (forInitializer expression) ws more (Option.Rel (Stmt.Alike ρ) initializer) := by
  cases hstarts with
  | nothing => exact Picks.here ((takes_symbol rfl).last fun _ _ => .pure .none) none
  | declaration hname hp =>
      simp only [List.length_append, List.length_cons] at hlength
      refine Picks.later (leaves_symbol_ne ";" (by decide) (by decide) rfl (by simp)).bind
        (.here ?_) none
      exact (takes_varDecl he hρ hname hp (by omega)).last fun _ ha => .pure (.some ha)
  | @expression id e hp =>
      rw [List.length_append] at hlength
      obtain ⟨w, hw, hbegins, -⟩ := e.begins (hP e hp)
      have hhead : ∀ v : Word, v.begins = false →
          (e.words ++ [Word.symbol ";"] ++ more).head? ≠ some v := by
        intro v hv hhead
        rw [List.append_assoc, e.head?_words_append, hw] at hhead
        rw [← Option.some.inj hhead, hbegins] at hv
        cases hv
      have hsymbol := leaves_symbol_ne ";" (by decide) (by decide) rfl (hhead _ (by decide))
      have hword := leaves_word (s := "var") (by decide) (hhead _ (by decide))
      refine Picks.later hsymbol.bind (.later hword.bind.bind (.here ?_)) none
      exact (takes_expressionStmt he hρ hp (by omega)).last fun _ ha => .pure (.some ha)

theorem takes_forStmt {statement : Parser Stmt} {first bs : List Word}
    (hnone : ∀ w ∈ closers, ∀ more, Leaves expression (w :: more))
    (hstarts : Stmt.Starts P initializer first) (hfirst : first.length ≤ n)
    (hc : ∀ e ∈ condition, P e) (hclength : (Expr.wordsOptional condition).length ≤ n)
    (hi : ∀ e ∈ increment, P e) (hilength : (Expr.wordsOptional increment).length ≤ n)
    (hbody : Takes statement bs more (body.Alike ρ))
    (hloop : IsLoop initializer condition increment body whole) :
    Takes (forStmt expression statement)
      (.keyword "for" :: .symbol "(" :: (first ++ (Expr.wordsOptional condition
        ++ .symbol ";" :: (Expr.wordsOptional increment ++ .symbol ")" :: bs)))) more
      (whole.Alike ρ) := by
  refine (takes_word "for").cons fun _ _ => .committed ?_
  exact (takes_symbol rfl).cons fun _ _ =>
    (takes_forInitializer hρ hP he hstarts hfirst).bind fun initializer' hinitializer =>
    (takes_optional he hnone hc hclength (by decide)).bind fun condition' hcondition =>
    (takes_symbol rfl).cons fun _ _ =>
    (takes_optional he hnone hi hilength (by decide)).bind fun increment' hincrement =>
    (takes_symbol rfl).cons fun _ _ => hbody.last fun body' hbody' =>
    takes_forLoop hρ hinitializer hcondition hincrement hbody' hloop

end Loops

-- =============================================================== statements

/-- What does not begin with a word of its own is left to the reader of expressions. -/
theorem leaves_worded (hb : InvertsBlock P ρ n block) {statement : Parser Stmt}
    (h : ∀ v, v.begins = false → ws.head? ≠ some v) :
    ∀ p ∈ [forStmt expression statement, ifStmt expression statement, printStmt expression,
      returnStmt expression, whileStmt expression statement, blockStmt block], Leaves p ws := by
  intro p hp
  simp only [List.mem_cons, List.not_mem_nil, or_false] at hp
  rcases hp with rfl | rfl | rfl | rfl | rfl | rfl
  · exact (leaves_word (by decide) (h _ (by decide))).bind
  · exact (leaves_word (by decide) (h _ (by decide))).bind
  · exact (leaves_word (by decide) (h _ (by decide))).bind
  · exact (leaves_keyword _ (by decide) (h _ (by decide))).bind
  · exact (leaves_word (by decide) (h _ (by decide))).bind
  · exact (hb.leaves ws (h _ (by decide))).bind

section Whole

variable {m : Nat} (hρ : ρ.Lax) (hP : ∀ e, P e → e.Canonical) (he : Rereads P ρ m expression)
  (hnone : ∀ w ∈ closers, ∀ more, Leaves expression (w :: more))
include hρ hP he hnone

theorem inverts_statement {depth : Nat} (hb : InvertsBlock P ρ n block) (hm : depth ≤ m)
    (hn : depth ≤ n) :
    InvertsStmt P ρ (fun a => a.declares = none) depth (statement expression block depth) := by
  induction depth with
  | zero =>
      intro a o ws _ hspells hlength
      have hpos := List.length_pos_iff.mpr (hspells.ne_nil hP)
      omega
  | succ depth ih =>
      have hs := ih (by omega) (by omega)
      have he' : Rereads P ρ depth expression := he.mono (by omega)
      intro a o ws hplain hspells hlength more hclosed
      cases hspells with
      | @expression id e hp =>
          simp only [List.length_append, List.length_cons] at hlength
          refine .choice (Picks.behind (leaves_worded hb fun v hv hhead => ?_)
            (.here (takes_expressionStmt he' hρ hp (by omega))))
          obtain ⟨w, hw, hbegins, -⟩ := e.begins (hP e hp)
          rw [List.append_assoc, e.head?_words_append, hw] at hhead
          rw [← Option.some.inj hhead, hbegins] at hv
          cases hv
      | print hp =>
          simp only [List.length_append, List.length_cons] at hlength
          exact .choice (.later (leaves_word (by decide) (by simp)).bind
            (.later (leaves_word (by decide) (by simp)).bind
            (.here (takes_printStmt he' hρ hp (by omega)))))
      | returnStmt hkeyword hp =>
          simp only [List.length_append, List.length_cons] at hlength
          exact .choice (.later (leaves_word (by decide) (by simp)).bind
            (.later (leaves_word (by decide) (by simp)).bind
            (.later (leaves_word (by decide) (by simp)).bind
            (.here (takes_returnStmt he' hρ hnone hkeyword hp (by omega))))))
      | @whileLoop id condition body o ws hc hbody hplain' =>
          simp only [List.length_append, List.length_cons] at hlength
          exact .choice (.later (leaves_word (by decide) (by simp)).bind
            (.later (leaves_word (by decide) (by simp)).bind
            (.later (leaves_word (by decide) (by simp)).bind
            (.later (leaves_keyword _ (by decide) (by simp)).bind
            (.here (takes_whileStmt hρ he' hc (by omega)
              (hs body o ws hplain' hbody (by omega) more hclosed)))))))
      | @ifThen id condition thenBranch o ws hc hthen hplain' =>
          simp only [List.length_append, List.length_cons] at hlength
          exact .choice (.later (leaves_word (by decide) (by simp)).bind
            (.here (takes_ifStmt hρ he' hc (by omega)
              (hs thenBranch o ws hplain' hthen (by omega) more fun _ => hclosed rfl)
              (hclosed rfl))))
      | @ifElse id condition thenBranch elseBranch o ws es hc hthen hplain' helse hplain'' =>
          simp only [List.length_append, List.length_cons] at hlength
          exact .choice (.later (leaves_word (by decide) (by simp)).bind
            (.here (takes_ifElseStmt hρ he' hc (by omega)
              (hs thenBranch false ws hplain' hthen (by omega) _ nofun)
              (hs elseBranch o es hplain'' helse (by omega) more hclosed))))
      | @forLoop initializer condition increment body _ o first ws hstarts hc hi hbody hplain'
          hloop =>
          simp only [List.length_append, List.length_cons] at hlength
          exact .choice (.here (takes_forStmt hρ hP he' hnone hstarts (by omega) hc (by omega) hi
            (by omega) (hs body o ws hplain' hbody (by omega) more hclosed) hloop))
      | @block id body ws hbody =>
          simp only [List.length_append, List.length_cons, List.length_nil] at hlength
          exact .choice (.later (leaves_word (by decide) (by simp)).bind
            (.later (leaves_word (by decide) (by simp)).bind
            (.later (leaves_word (by decide) (by simp)).bind
            (.later (leaves_keyword _ (by decide) (by simp)).bind
            (.later (leaves_word (by decide) (by simp)).bind
            (.here (takes_blockStmt hρ hb hbody (by omega))))))))
      | varDecl => cases hplain
      | funDecl => cases hplain
      | classDecl => cases hplain

-- ============================================================ declarations

omit hP he hnone in
theorem takes_function (hb : InvertsBlock P ρ n block) {f : FunDecl} (hspells : f.Spells P ws)
    (hlength : ws.length ≤ n) : Takes (function block) ws more (f.Alike ρ) := by
  obtain @⟨id, name, params, body, ws, hname, hparams, hfew, hbody⟩ := hspells
  simp only [List.length_append, List.length_cons, List.length_nil] at hlength
  rw [Token.word_of_identifier hname]
  have hparam : ∀ param ∈ params, ∀ behind, Listed behind →
      Takes identifier [param.word] behind (ρ.tokens param) := by
    intro param hmem behind _
    rw [Token.word_of_identifier (hparams param hmem)]
    exact (takes_identifier _).mono fun token h =>
      hρ.tokens (h.outline_eq ⟨hparams param hmem, rfl⟩)
  refine .silent .skipTrivia fun place _ => (takes_identifier _).cons fun token htoken =>
    (takes_symbol rfl).cons fun _ _ =>
    (takes_commaSeparated hparam (leaves_identifier (by simp) (by simp))).bind
      fun params' hparams' =>
    (takes_symbol rfl).cons fun _ _ =>
    (hb.takes body ws hbody (by omega) more).last fun body' hbody' => ?_
  rw [if_neg (by rw [← hparams'.length_eq]; omega)]
  exact .silent .freshId fun id' _ => .pure
    (.mk (hρ.tokens (htoken.outline_eq ⟨hname, rfl⟩)) hparams' hbody')

omit hP he hnone in
theorem takes_superclass {parent : NameRef} (hc : parent.Canonical) :
    Takes superclass [.symbol "<", parent.name.word] more (parent.Alike ρ) := by
  rw [Token.word_of_identifier hc]
  exact (takes_symbol rfl).cons fun _ _ => (takes_identifier _).last fun token htoken =>
    .silent .freshId fun id _ =>
      .pure ⟨hρ.nodes _ _, hρ.tokens (htoken.outline_eq ⟨hc, rfl⟩)⟩

omit hP he hnone in
theorem takes_classDecl (hb : InvertsBlock P ρ n block) {id : NodeId} {name : Token}
    {parent : Option NameRef} {methods : List FunDecl} (hname : name.kind = .identifier)
    (hparent : ∀ p ∈ parent, p.Canonical) (hmethods : FunDecl.SpellsAll P methods ws)
    (hlength : ws.length ≤ n) :
    Takes (classDecl block)
      (.keyword "class" :: name.word :: (NameRef.words parent
        ++ .symbol "\x7b" :: (ws ++ [.symbol "\x7d"]))) more
      ((Stmt.classDecl id name parent methods).Alike ρ) := by
  obtain ⟨parts, rfl, rfl, hparts⟩ := hmethods.exists_parts
  rw [Token.word_of_identifier hname]
  have hsuper : Takes (optional superclass) (NameRef.words parent)
      (.symbol "\x7b" :: (parts.flatMap Prod.snd ++ [.symbol "\x7d"]) ++ more)
      (Option.Rel (NameRef.Alike ρ) parent) := by
    cases parent with
    | none =>
        refine (Takes.none (leaves_symbol fun w hw => ?_).bind).mono fun found h => ?_
        · obtain rfl := Option.some.inj hw
          decide
        · rw [h]
          exact .none
    | some p =>
        refine (takes_superclass hρ (hparent p rfl)).some.mono fun found h => ?_
        obtain ⟨p', rfl, hp'⟩ := h
        exact .some hp'
  have hmany : Takes (many (function block)) (parts.flatMap Prod.snd) (.symbol "\x7d" :: more)
      (List.Forall₂ (fun x f' => FunDecl.Alike ρ x.1 f') parts) := by
    refine .many (fun _ => True) (fun x hx behind _ => ?_) (fun _ _ _ => trivial)
      (fun x hx => (hparts x hx).ne_nil)
      (.skipTrivia fun _ => (leaves_identifier (by simp) (by simp)).bind) trivial
    have hle := length_le_flatMap (f := Prod.snd) hx
    exact takes_function hρ hb (hparts x hx) (by omega)
  refine (takes_word "class").cons fun _ _ => .committed ?_
  refine (takes_identifier _).cons fun token htoken => hsuper.bind fun found hfound =>
    (takes_symbol rfl).cons fun _ _ => hmany.bind fun methods' hmethods' =>
    (takes_symbol rfl).last fun _ _ => .silent .freshId fun id' _ => .pure ?_
  have hall : List.Forall₂ (FunDecl.Alike ρ) (parts.map Prod.fst) methods' :=
    List.forall₂_map_left_iff.mpr hmethods'
  exact .classDecl (hρ.nodes _ _) (hρ.tokens (htoken.outline_eq ⟨hname, rfl⟩)) hfound hall
    (hρ.methods hall)

omit hρ he hnone in
/-- What declares nothing is left to the reader of statements. -/
theorem leaves_declaring {a : Stmt} {o : Bool} (hspells : a.Spells P o ws)
    (hplain : a.declares = none) :
    ∀ p ∈ [classDecl block, funDecl block, varDecl expression], Leaves p (ws ++ more) := by
  obtain ⟨w, hw, hnot⟩ := hspells.begins_plain hP hplain
  have hne : ∀ s ∈ ["class", "fun", "var"], (ws ++ more).head? ≠ some (.keyword s) := by
    intro s hs hhead
    rw [List.head?_append_of_ne_nil _ (hspells.ne_nil hP), hw] at hhead
    obtain rfl := Option.some.inj hhead
    exact hnot (List.mem_map_of_mem hs)
  intro p hp
  simp only [List.mem_cons, List.not_mem_nil, or_false] at hp
  rcases hp with rfl | rfl | rfl
  · exact (leaves_word (by decide) (hne _ (by decide))).bind
  · exact (leaves_word (by decide) (hne _ (by decide))).bind
  · exact (leaves_word (by decide) (hne _ (by decide))).bind

theorem inverts_declaration {depth : Nat} (hm : depth ≤ m) :
    InvertsStmt P ρ (fun _ => True) depth (declaration expression depth) := by
  induction depth with
  | zero =>
      intro a o ws _ hspells hlength
      have hpos := List.length_pos_iff.mpr (hspells.ne_nil hP)
      omega
  | succ depth ih =>
      have hb := inverts_braced hP (ih (by omega))
      have he' : Rereads P ρ depth expression := he.mono (by omega)
      have hs := inverts_statement hρ hP he hnone hb hm (by omega)
      intro a o ws _ hspells hlength more hclosed
      by_cases hplain : a.declares = none
      · exact .choice (Picks.behind (leaves_declaring hP hspells hplain)
          (.here (hs a o ws hplain hspells hlength more hclosed)))
      cases hspells with
      | varDecl hname hp =>
          simp only [List.length_append, List.length_cons] at hlength
          exact .choice (.later (leaves_word (by decide) (by simp)).bind
            (.later (leaves_word (by decide) (by simp)).bind
            (.here (takes_varDecl he' hρ hname hp (by omega)))))
      | funDecl hf =>
          rw [List.length_cons] at hlength
          refine .choice (.later (leaves_word (by decide) (by simp)).bind (.here ?_))
          refine (takes_word "fun").cons fun _ _ => .committed ?_
          exact (takes_function hρ hb hf (by omega)).last fun f' hf' =>
            .pure (.funDecl (hρ.nodes _ _) hf' (hρ.functions _ _ _))
      | classDecl hname hparent hmethods =>
          simp only [List.length_append, List.length_cons] at hlength
          exact .choice (.here (takes_classDecl hρ hb hname hparent hmethods (by omega)))
      | forLoop _ _ _ _ _ hloop => exact absurd hloop.declares hplain
      | _ => exact absurd rfl hplain

end Whole

end Parser

end Lox
