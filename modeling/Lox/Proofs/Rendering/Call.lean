/-
Operands that were written down are read back: constants, names and what stands
in brackets, with calls and accesses behind them.

A reader takes an expression as far as the words behind it do not go on with it.
Every word with which an expression can go on does so at one level of the
grammar (`Word.strength`), and the reader of a tighter level stops in front.

A chain of calls and accesses is a row of suffixes to the reader and nested to
the left in the tree. `exists_suffixes` takes the row off the tree, and the
reader puts it on again.
-/
import Lox.Proofs.Rendering.Readers
import Lox.Proofs.Rendering.Outline

namespace Lox

open Text

/-- The level at which an expression goes on with this word. -/
def Word.strength : Word → Option Nat
  | .symbol s =>
    if s = "=" then some 0
    else if s ∈ ["(", "."] then some 8
    else if s ∈ binaryOperators then some (operatorLevel s)
    else none
  | .keyword s => if s = "or" then some 1 else if s = "and" then some 2 else none
  | _ => none

/-- Constants that are words of their own. -/
def constantWords : List String := ["true", "false", "nil"]

/-- Whether an expression may begin with this word. -/
def Word.begins : Word → Bool
  | .symbol s => s ∈ ["(", "!", "-"]
  | .keyword s => s ∈ constantWords ++ ["this", "super"]
  | _ => true

/-- Whether this word is a constant. -/
def Word.isConstant : Word → Bool
  | .number _ | .string _ => true
  | .keyword s => s ∈ constantWords
  | _ => false

theorem Token.isConstant_of_denotes {token : Token} {value : Constant} (h : token.Denotes value) :
    token.word.isConstant = true := by
  cases h with
  | number kind | string kind =>
      rw [Token.word, kind]
      rfl
  | true is | false is | nil is =>
      rw [is.word_keyword]
      decide

theorem Word.begins_of_isConstant {w : Word} (h : w.isConstant = true) : w.begins = true := by
  cases w with
  | keyword s => simp_all [begins, isConstant]
  | symbol s => cases h
  | _ => rfl

theorem operatorLevel_le (s : String) : operatorLevel s ≤ 6 := by
  unfold operatorLevel
  split
  · decide
  split
  · decide
  split <;> decide

theorem le_operatorLevel (s : String) : 3 ≤ operatorLevel s := by
  unfold operatorLevel
  split
  · decide
  split
  · decide
  split <;> decide

theorem Expr.level_logical_le (id : NodeId) (l : Expr) (op : Token) (r : Expr) :
    (Expr.logical id l op r).level ≤ 2 := by
  rw [level]
  split <;> decide

-- The level of an expression tells what it is.

theorem Expr.eq_assignment {e : Expr} (h : e.level = 0) :
    (∃ id name value, e = .assign id name value) ∨ ∃ id object name value,
      e = .set id object name value := by
  cases e with
  | assign id name value => exact .inl ⟨id, name, value, rfl⟩
  | set id object name value => exact .inr ⟨id, object, name, value, rfl⟩
  | binary id l op r =>
      have hle := le_operatorLevel op.lexeme
      simp only [level] at h
      omega
  | logical id l op r =>
      simp only [level] at h
      split at h <;> cases h
  | _ => cases h

theorem Expr.eq_logical {e : Expr} (h : 1 ≤ e.level) (h' : e.level ≤ 2) :
    ∃ id l op r, e = .logical id l op r := by
  cases e with
  | logical id l op r => exact ⟨id, l, op, r, rfl⟩
  | binary id l op r =>
      have hle := le_operatorLevel op.lexeme
      simp only [level] at h'
      omega
  | _ =>
      simp only [level] at h h'
      omega

theorem Expr.eq_binary {e : Expr} (h : 3 ≤ e.level) (h' : e.level ≤ 6) :
    ∃ id l op r, e = .binary id l op r := by
  cases e with
  | binary id l op r => exact ⟨id, l, op, r, rfl⟩
  | logical id l op r =>
      have hle := level_logical_le id l op r
      omega
  | _ =>
      simp only [level] at h h'
      omega

theorem Expr.eq_unary {e : Expr} (h : e.level = 7) :
    ∃ id op operand, e = .unary id op operand := by
  cases e with
  | unary id op operand => exact ⟨id, op, operand, rfl⟩
  | binary id l op r =>
      have hle := operatorLevel_le op.lexeme
      simp only [level] at h
      omega
  | logical id l op r =>
      have hle := level_logical_le id l op r
      omega
  | _ => cases h

theorem Expr.head?_words_append (e : Expr) (ws : List Word) :
    (e.words ++ ws).head? = e.words.head? :=
  List.head?_append_of_ne_nil _ e.words_ne_nil

/-- How an expression begins. -/
theorem Expr.begins (e : Expr) (hc : e.Canonical) : ∃ w, e.words.head? = some w ∧ w.begins = true
    ∧ (8 ≤ e.level → ∀ s ∈ unaryOperators, w ≠ .symbol s) := by
  cases e with
  | literal id value token =>
      cases token with
      | none => exact ⟨_, rfl, by decide, fun _ _ _ => by simp⟩
      | some token =>
          have hconstant := Token.isConstant_of_denotes hc
          refine ⟨_, rfl, Word.begins_of_isConstant hconstant, fun _ s _ he => ?_⟩
          rw [he] at hconstant
          cases hconstant
  | var id name =>
      refine ⟨.name name.lexeme, ?_, rfl, fun _ s _ => by simp⟩
      rw [Expr.words, Token.word_of_identifier hc, List.head?_cons]
  | this id keyword =>
      refine ⟨.keyword "this", ?_, by decide, fun _ s _ => by simp⟩
      rw [Expr.words, Token.Is.word_keyword hc, List.head?_cons]
  | super id keyword method =>
      refine ⟨.keyword "super", ?_, by decide, fun _ s _ => by simp⟩
      rw [Expr.words, hc.1.word_keyword, List.head?_cons]
  | grouping id inner => exact ⟨_, rfl, by decide, fun _ => by decide⟩
  | assign id name value =>
      refine ⟨.name name.lexeme, ?_, rfl, fun hl => absurd hl (by simp [Expr.level])⟩
      rw [Expr.words, Token.word_of_identifier hc.1, List.head?_cons]
  | unary id operator operand =>
      obtain ⟨hkind, hlexeme, -, -⟩ := hc
      have hknown : ∀ s ∈ unaryOperators, (Word.symbol s).begins = true := by decide
      refine ⟨.symbol operator.lexeme, ?_, hknown _ hlexeme,
        fun hl => absurd hl (by simp [Expr.level])⟩
      rw [Expr.words, Token.word_of_operator hkind, List.head?_cons]
  -- The others begin as their left part does.
  | binary id left operator right =>
      obtain ⟨w, hw, hbegins, -⟩ := left.begins hc.2.2.2.2.1
      have hlevel := operatorLevel_le operator.lexeme
      exact ⟨w, by rw [Expr.words, left.head?_words_append, hw], hbegins,
        fun hl => absurd (Nat.le_trans hl hlevel) (by decide)⟩
  | logical id left operator right =>
      obtain ⟨w, hw, hbegins, -⟩ := left.begins hc.2.1
      have hlevel := Expr.level_logical_le id left operator right
      exact ⟨w, by rw [Expr.words, left.head?_words_append, hw], hbegins,
        fun hl => absurd (Nat.le_trans hl hlevel) (by decide)⟩
  | call id callee paren arguments =>
      obtain ⟨w, hw, hbegins, hop⟩ := callee.begins hc.2.1
      exact ⟨w, by rw [Expr.words, callee.head?_words_append, hw], hbegins, fun _ => hop hc.1⟩
  | get id object name =>
      obtain ⟨w, hw, hbegins, hop⟩ := object.begins hc.2.1
      exact ⟨w, by rw [Expr.words, object.head?_words_append, hw], hbegins, fun _ => hop hc.1⟩
  | set id object name value =>
      obtain ⟨w, hw, hbegins, -⟩ := object.begins hc.2.1
      exact ⟨w, by rw [Expr.words, object.head?_words_append, hw], hbegins,
        fun hl => absurd hl (by simp [Expr.level])⟩

namespace Parser

variable {α β : Type} {ws more : List Word} {w : Word} {k j n : Nat}

-- ================================================================ stopping

/-- No expression of this level goes on with these words. -/
def Stops (k : Nat) (ws : List Word) : Prop := ∀ w ∈ ws.head?, ∀ j ∈ w.strength, j < k

theorem Stops.mono (h : Stops k ws) (hk : k ≤ j) : Stops j ws :=
  fun w hw i hi => Nat.lt_of_lt_of_le (h w hw i hi) hk

/-- Words that no expression goes on with. -/
theorem Stops.of_none (h : w.strength = none) : Stops k (w :: ws) := by
  intro v hv i hi
  obtain rfl := Option.some.inj hv
  rw [h] at hi
  cases hi

theorem Stops.of_some (h : w.strength = some j) (hj : j < k) : Stops k (w :: ws) := by
  intro v hv i hi
  obtain rfl := Option.some.inj hv
  rw [h] at hi
  obtain rfl := Option.some.inj hi
  exact hj

/-- A word with which the level would go on does not follow. -/
theorem Stops.ne (h : Stops k ws) (hw : w.strength = some j) (hj : k ≤ j) : ws.head? ≠ some w :=
  fun hhead => absurd (h w hhead j hw) (Nat.not_lt.mpr hj)

/-- Calls and accesses aside, every level stops anywhere. -/
theorem Stops.nine : Stops 9 ws := by
  intro w _ j hj
  cases w with
  | symbol s =>
      have hle := operatorLevel_le s
      simp only [Word.strength] at hj
      split at hj
      · obtain rfl := Option.some.inj hj
        decide
      split at hj
      · obtain rfl := Option.some.inj hj
        decide
      split at hj
      · obtain rfl := Option.some.inj hj
        omega
      · cases hj
  | keyword s =>
      simp only [Word.strength] at hj
      split at hj
      · obtain rfl := Option.some.inj hj
        decide
      split at hj
      · obtain rfl := Option.some.inj hj
        decide
      · cases hj
  | _ => cases hj

/-- The reader takes every expression of a level that has no more than so many words, where it
stops. -/
def Inverts (k n : Nat) (p : Parser Expr) : Prop :=
  ∀ e : Expr, e.Canonical → k ≤ e.level → e.words.length ≤ n → ∀ more, Stops k more →
    Takes p e.words more fun e' => e'.outline = e.outline

variable {expression : Parser Expr}

-- ================================================================= primary

/-- The readers of constants, which come first. -/
def constantReaders : List (Parser Expr) :=
  [literal numberConstant, literal stringConstant, literal (wordConstant "true" (.boolean true)),
    literal (wordConstant "false" (.boolean false)), literal (wordConstant "nil" .nil)]

theorem leaves_constants (h : ∀ w ∈ ws.head?, w.isConstant = false) :
    ∀ p ∈ constantReaders, Leaves p ws := by
  have hword : ∀ s ∈ constantWords, ws.head? ≠ some (.keyword s) := by
    intro s hs he
    have hnot := h _ he
    rw [Word.isConstant, decide_eq_false_iff_not] at hnot
    exact hnot hs
  intro p hp
  simp only [constantReaders, List.mem_cons, List.not_mem_nil, or_false] at hp
  rcases hp with rfl | rfl | rfl | rfl | rfl
  · exact (leaves_numberConstant fun s he => by cases h _ he).bind
  · exact (leaves_stringConstant fun s he => by cases h _ he).bind
  · exact (leaves_wordConstant _ (by decide) (hword _ (by decide))).bind
  · exact (leaves_wordConstant _ (by decide) (hword _ (by decide))).bind
  · exact (leaves_wordConstant _ (by decide) (hword _ (by decide))).bind

theorem takes_literal {p : Parser (Constant × Token)} {value : Constant} {kind : TokenKind}
    {spelling : String} {token : Token} (htoken : token.Is kind spelling)
    (hp : Takes p [w] more (IsConstant value kind spelling)) :
    Takes (literal p) [w] more fun e => e.outline = .literal 0 value (some token.outline) := by
  refine hp.last fun found hfound => ?_
  obtain ⟨found, token'⟩ := found
  obtain ⟨rfl, his⟩ := hfound
  refine .silent .freshId fun id _ => .pure ?_
  rw [Expr.outline, his.outline_eq htoken]

/-- A constant is taken by the reader of constants of its kind. -/
theorem takes_constant {value : Constant} {token : Token} (h : token.Denotes value) :
    Takes (primary expression) [token.word] more
      fun e => e.outline = .literal 0 value (some token.outline) := by
  cases h with
  | number kind =>
      rw [Token.word, kind]
      exact .choice (.here (takes_literal ⟨kind, rfl⟩ (takes_numberConstant _)))
  | string kind =>
      rw [Token.word, kind]
      exact .choice (.later (leaves_numberConstant (by simp)).bind
        (.here (takes_literal ⟨kind, rfl⟩ (takes_stringConstant _))))
  | true is =>
      rw [is.word_keyword]
      exact .choice (.later (leaves_numberConstant (by simp)).bind
        (.later (leaves_stringConstant (by simp)).bind
        (.here (takes_literal is (takes_wordConstant _ _)))))
  | false is =>
      rw [is.word_keyword]
      exact .choice (.later (leaves_numberConstant (by simp)).bind
        (.later (leaves_stringConstant (by simp)).bind
        (.later (leaves_wordConstant _ (by decide) (by simp)).bind
        (.here (takes_literal is (takes_wordConstant _ _))))))
  | nil is =>
      rw [is.word_keyword]
      exact .choice (.later (leaves_numberConstant (by simp)).bind
        (.later (leaves_stringConstant (by simp)).bind
        (.later (leaves_wordConstant _ (by decide) (by simp)).bind
        (.later (leaves_wordConstant _ (by decide) (by simp)).bind
        (.here (takes_literal is (takes_wordConstant _ _)))))))

/-- What is no constant is left to the readers behind. -/
theorem takes_primary {good : Expr → Prop} (h : ∀ w ∈ (ws ++ more).head?, w.isConstant = false)
    (hp : Picks [thisExpr, superExpr, variableExpr, groupingExpr expression] ws more good) :
    Takes (primary expression) ws more good :=
  .choice (Picks.behind (leaves_constants h) hp)

theorem inverts_primary (he : Inverts 0 n expression) : Inverts 9 (n + 1) (primary expression) := by
  intro e hc hlevel hlength more _
  cases e with
  | literal id value token =>
      cases token with
      | some token => exact takes_constant hc
      | none =>
          obtain rfl := hc
          have halways : Token.always.Denotes (.boolean true) := .true ⟨rfl, rfl⟩
          exact takes_constant halways
  | var id name =>
      rw [Expr.words, Token.word_of_identifier hc]
      refine takes_primary (by simp [Word.isConstant]) ?_
      refine .later (leaves_keyword _ (by decide) (by simp)).bind
        (.later (leaves_keyword _ (by decide) (by simp)).bind (.here ?_))
      refine (takes_identifier name.lexeme).last fun token his => .silent .freshId fun id _ =>
        .pure ?_
      rw [Expr.outline, Expr.outline, his.outline_eq ⟨hc, rfl⟩]
  | this id keyword =>
      rw [Expr.words, Token.Is.word_keyword hc]
      refine takes_primary (by simp [Word.isConstant, constantWords]) (.here ?_)
      refine (takes_keyword _ _).last fun token his => .silent .freshId fun id _ => .pure ?_
      rw [Expr.outline, Expr.outline, his.outline_eq hc]
  | super id keyword method =>
      rw [Expr.words, hc.1.word_keyword, Token.word_of_identifier hc.2]
      refine takes_primary (by simp [Word.isConstant, constantWords]) ?_
      refine .later (leaves_keyword _ (by decide) (by simp)).bind (.here ?_)
      refine (takes_keyword _ _).cons fun token his => .committed ?_
      refine (takes_symbol rfl).cons fun _ _ => (takes_identifier _).last fun name hname =>
        .silent .freshId fun id _ => .pure ?_
      rw [Expr.outline, Expr.outline, his.outline_eq hc.1, hname.outline_eq ⟨hc.2, rfl⟩]
  | grouping id inner =>
      rw [Expr.words]
      refine takes_primary (by simp [Word.isConstant]) ?_
      refine .later (leaves_keyword _ (by decide) (by simp)).bind
        (.later (leaves_keyword _ (by decide) (by simp)).bind
        (.later (leaves_identifier (by simp) (by simp)).bind (.here ?_)))
      refine (takes_symbol rfl).cons fun _ _ => .committed ?_
      have hinner := he inner hc (Nat.zero_le _) (by simp [Expr.words] at hlength; omega)
        (.symbol ")" :: more) (.of_none rfl)
      refine hinner.bind fun e' he' => (takes_symbol rfl).last fun _ _ => .silent .freshId
        fun id _ => .pure ?_
      rw [Expr.outline, Expr.outline, he']
  | binary id left operator right =>
      exact absurd (Nat.le_trans hlevel (operatorLevel_le operator.lexeme)) (by decide)
  | logical id left operator right =>
      have hle := Expr.level_logical_le id left operator right
      exact absurd (Nat.le_trans hlevel hle) (by decide)
  | _ => exact absurd hlevel (by simp [Expr.level])

-- =================================================================== calls

/-- What is left of a suffix without places and numbers. -/
def Suffix.outline : Suffix → Suffix
  | .call paren arguments => .call paren.outline (Expr.outlineAll arguments)
  | .get name => .get name.outline

/-- An outline goes on with the outline of a suffix. -/
def Suffix.extend (e : Expr) : Suffix → Expr
  | .call paren arguments => .call 0 e paren arguments
  | .get name => .get 0 e name

theorem Suffix.words_ne_nil (x : Suffix) : x.words ≠ [] := by
  cases x <;> simp [Suffix.words]

/-- An expression is a head with suffixes behind it. -/
structure Wrapped (e head : Expr) (suffixes : List Suffix) : Prop where
  atomic : 9 ≤ head.level
  canonical : head.Canonical
  all : ∀ x ∈ suffixes, x.Canonical
  words : e.words = head.words ++ suffixes.flatMap Suffix.words
  outline : e.outline = (suffixes.map Suffix.outline).foldl Suffix.extend head.outline

theorem Wrapped.refl {e : Expr} (hc : e.Canonical) (hlevel : 9 ≤ e.level) : Wrapped e e [] :=
  ⟨hlevel, hc, by simp, by simp, rfl⟩

/-- One more suffix behind an expression. -/
theorem Wrapped.snoc {e e' head : Expr} {suffixes : List Suffix} {x : Suffix}
    (h : Wrapped e head suffixes) (hx : x.Canonical) (hwords : e'.words = e.words ++ x.words)
    (houtline : e'.outline = x.outline.extend e.outline) :
    Wrapped e' head (suffixes ++ [x]) where
  atomic := h.atomic
  canonical := h.canonical
  all y hy := by
    rcases List.mem_append.mp hy with hy | hy
    · exact h.all y hy
    · obtain rfl := List.mem_singleton.mp hy
      exact hx
  words := by
    rw [hwords, h.words]
    simp
  outline := by
    rw [houtline, h.outline]
    simp

/-- A call or an access, taken apart into its head and what follows it. -/
theorem exists_suffixes : (e : Expr) → e.Canonical → 8 ≤ e.level →
    ∃ head suffixes, Wrapped e head suffixes
  | .call _ callee paren arguments, hc, _ => by
    obtain ⟨head, suffixes, h⟩ := exists_suffixes callee hc.2.1 hc.1
    exact ⟨head, _, h.snoc (x := .call paren arguments) hc.2.2 rfl rfl⟩
  | .get _ object name, hc, _ => by
    obtain ⟨head, suffixes, h⟩ := exists_suffixes object hc.2.1 hc.1
    exact ⟨head, _, h.snoc (x := .get name) hc.2.2 rfl rfl⟩
  | .literal .., hc, _ | .var .., hc, _ | .grouping .., hc, _ | .this .., hc, _
  | .super .., hc, _ => ⟨_, [], .refl hc (Nat.le_refl 9)⟩
  | .binary _ _ operator _, _, hlevel =>
    absurd (Nat.le_trans hlevel (operatorLevel_le operator.lexeme)) (by decide)
  | .logical id left operator right, _, hlevel =>
    absurd (Nat.le_trans hlevel (Expr.level_logical_le id left operator right)) (by decide)
  | .unary .., _, hlevel => absurd hlevel (by simp [Expr.level])
  | .assign .., _, hlevel => absurd hlevel (by simp [Expr.level])
  | .set .., _, hlevel => absurd hlevel (by simp [Expr.level])

/-- Putting the suffixes on uses up numbers only. -/
theorem takes_applySuffixes {xs ys : List Suffix}
    (h : List.Forall₂ (fun x y => Suffix.outline y = Suffix.outline x) xs ys) (e : Expr) :
    Takes (applySuffixes e ys) [] more
      fun e' => e'.outline = (xs.map Suffix.outline).foldl Suffix.extend e.outline := by
  induction h generalizing e with
  | nil => exact .pure rfl
  | @cons x y xs ys hx _ ih =>
      rw [List.map_cons, List.foldl_cons, ← hx]
      cases y with
      | call paren arguments =>
          exact .silent .freshId fun id _ => ih (.call id e paren arguments)
      | get name => exact .silent .freshId fun id _ => ih (.get id e name)

/-- One of some pieces is no longer than all of them. -/
theorem length_le_flatMap {f : α → List β} {x : α} {xs : List α} (h : x ∈ xs) :
    (f x).length ≤ (xs.flatMap f).length := by
  rw [List.flatMap]
  exact (List.sublist_flatten_of_mem (List.mem_map_of_mem h)).length_le

theorem length_le_commas {f : α → List Word} {x : α} {xs : List α} (h : x ∈ xs) :
    (f x).length ≤ (Word.commas (xs.map f)).length := by
  cases xs with
  | nil => cases h
  | cons y ys =>
      rw [List.map_cons, Word.commas, List.length_append]
      rcases List.mem_cons.mp h with rfl | h
      · exact Nat.le_add_right _ _
      · have hle := length_le_flatMap (f := fun ws => Word.symbol "," :: ws)
          (List.mem_map_of_mem (f := f) h)
        rw [List.length_cons] at hle
        rw [Word.commasMore]
        omega

/-- What stands behind a thing in a list. -/
def Listed (ws : List Word) : Prop :=
  ws.head? = some (.symbol ",") ∨ ws.head? = some (.symbol ")")

theorem Listed.stops (h : Listed ws) : Stops k ws := by
  intro w hw j hj
  rcases h with h | h
  all_goals
    obtain rfl := Option.some.inj (h.symm.trans hw)
    cases hj

theorem takes_commaSeparated {item : Parser α} {words : β → List Word} {alike : β → α → Prop}
    {xs : List β}
    (hitem : ∀ x ∈ xs, ∀ behind, Listed behind → Takes item (words x) behind (alike x))
    (hnone : Leaves item (.symbol ")" :: more)) :
    Takes (commaSeparated item) (Word.commas (xs.map words)) (.symbol ")" :: more)
      (List.Forall₂ alike xs) := by
  cases xs with
  | nil =>
      refine .silent (.none hnone.bind) fun found hfound => ?_
      rw [hfound]
      exact .pure .nil
  | cons x xs =>
      have hcommas : Word.commas ((x :: xs).map words)
          = words x ++ xs.flatMap fun y => .symbol "," :: words y := by
        rw [List.map_cons, Word.commas, Word.commasMore, List.flatMap_map]
      have hbehind : Listed ((xs.flatMap fun y => .symbol "," :: words y)
          ++ .symbol ")" :: more) := by
        cases xs with
        | nil => exact .inr rfl
        | cons y ys => exact .inl rfl
      have hmore : Takes (many do symbol ','; item) (xs.flatMap fun y => .symbol "," :: words y)
          (.symbol ")" :: more) (List.Forall₂ alike xs) := by
        refine .many Listed (fun y hy behind hlisted => ?_) (fun _ _ _ => .inl rfl)
          (fun _ _ => List.cons_ne_nil _ _) (leaves_symbol (by simp [Word.spelling])).bind
          (.inr rfl)
        exact (takes_symbol rfl).cons fun _ _ =>
          hitem y (List.mem_cons_of_mem _ hy) behind hlisted
      have hall := (hitem x List.mem_cons_self _ hbehind).bind fun a ha => hmore.last fun as has =>
        Takes.pure (List.Forall₂.cons ha has)
      rw [hcommas]
      refine hall.some.last fun found hfound => ?_
      obtain ⟨as, rfl, has⟩ := hfound
      exact .pure has

variable (he : Inverts 0 n expression) (hnone : ∀ more, Leaves expression (.symbol ")" :: more))
include he hnone

/-- A suffix is taken whatever stands behind it. -/
theorem takes_suffix {x : Suffix} (hx : x.Canonical) (hlength : x.words.length ≤ n) :
    Takes (firstOf none [callSuffix expression, getSuffix]) x.words more
      fun y => y.outline = x.outline := by
  cases x with
  | get name =>
      rw [Suffix.words, Token.word_of_identifier hx]
      refine Picks.later (.skipTrivia fun _ => (leaves_symbol (by simp [Word.spelling])).bind)
        (.here ?_) none
      refine (takes_symbol rfl).cons fun _ _ => (takes_identifier _).last fun token his => .pure ?_
      rw [Suffix.outline, Suffix.outline, his.outline_eq ⟨hx, rfl⟩]
  | call paren arguments =>
      obtain ⟨hparen, hfew, hall⟩ := hx
      rw [Suffix.words, hparen.word_rightParen, Expr.wordsAll_eq] at hlength ⊢
      have hargument : ∀ e ∈ arguments, ∀ behind, Listed behind →
          Takes expression e.words behind fun e' => e'.outline = e.outline := by
        intro e hmem behind hbehind
        refine he e (Expr.canonicalAll_iff.mp hall e hmem) (Nat.zero_le _) ?_ behind hbehind.stops
        have hle := length_le_commas (f := Expr.words) hmem
        simp only [List.length_cons, List.length_append] at hlength
        omega
      refine Picks.here ?_ none
      refine .silent .skipTrivia fun place _ => (takes_symbol rfl).cons fun _ _ =>
        (takes_commaSeparated hargument (hnone more)).bind fun es hes =>
        (takes_symbolToken rfl _).last fun token his => ?_
      rw [if_neg (by rw [← hes.length_eq]; omega)]
      refine .pure ?_
      rw [Suffix.outline, Suffix.outline, his.outline_eq hparen, Expr.outlineAll_eq,
        Expr.outlineAll_eq, map_outline_eq hes]

omit he hnone in
/-- Nothing is left that an expression could go on with. -/
theorem leaves_suffix (h : Stops 8 ws) :
    Leaves (firstOf none [callSuffix expression, getSuffix]) ws := by
  refine .firstOf (fun p hp => ?_) nofun
  simp only [List.mem_cons, List.not_mem_nil, or_false] at hp
  rcases hp with rfl | rfl
  · refine .skipTrivia fun _ => (leaves_symbol_ne "(" ?_ ?_ rfl ?_).bind
    · decide
    · decide
    · exact h.ne rfl (Nat.le_refl 8)
  · refine (leaves_symbol_ne "." ?_ ?_ rfl ?_).bind
    · decide
    · decide
    · exact h.ne rfl (Nat.le_refl 8)

theorem inverts_call : Inverts 8 (n + 1) (call expression) := by
  intro e hc hlevel hlength more hstops
  obtain ⟨head, suffixes, h⟩ := exists_suffixes e hc hlevel
  have hparts := congrArg List.length h.words
  rw [List.length_append] at hparts
  have hhead := inverts_primary he head h.canonical h.atomic (by omega)
    (suffixes.flatMap Suffix.words ++ more) .nine
  have hmany : Takes (many (firstOf none [callSuffix expression, getSuffix]))
      (suffixes.flatMap Suffix.words) more
      (List.Forall₂ (fun x y => Suffix.outline y = Suffix.outline x) suffixes) := by
    refine .many (fun _ => True) (fun x hx behind _ => takes_suffix he hnone (h.all x hx) ?_)
      (fun _ _ _ => trivial) (fun x _ => x.words_ne_nil) (leaves_suffix hstops) trivial
    have hle := length_le_flatMap (f := Suffix.words) hx
    have hpos := List.length_pos_iff.mpr head.words_ne_nil
    omega
  rw [h.words]
  refine hhead.bind fun head' houtline => hmany.last fun ys hys => ?_
  refine (takes_applySuffixes hys head').mono fun e' he' => ?_
  rw [he', houtline, h.outline]

end Parser

end Lox
