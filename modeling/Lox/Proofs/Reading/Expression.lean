/-
What the readers of expressions read: a canonical tree that binds at least as
strongly as the level asks for, from just the words of that tree.
-/
import Lox.Proofs.Reading.Reads
import Mathlib.Data.List.Perm.Basic

namespace Lox

theorem Expr.canonicalAll_iff {es : List Expr} : Expr.CanonicalAll es ↔ ∀ e ∈ es, e.Canonical := by
  induction es with
  | nil => simp [Expr.CanonicalAll]
  | cons e rest ih => simp [Expr.CanonicalAll, ih]

theorem Expr.wordsAll_eq (es : List Expr) : Expr.wordsAll es = Word.commas (es.map Expr.words) := by
  have hmore : ∀ es, Expr.wordsMore es = Word.commasMore (es.map Expr.words) := by
    intro es
    induction es with
    | nil => rfl
    | cons e rest ih =>
        rw [Expr.wordsMore, ih, Word.commasMore, Word.commasMore, List.map_cons, List.flatMap_cons,
          List.cons_append]
  cases es with
  | nil => rfl
  | cons e rest => rw [Expr.wordsAll, hmore, List.map_cons, Word.commas]

theorem Expr.idsAll_eq (es : List Expr) : Expr.idsAll es = es.flatMap Expr.ids := by
  unfold Expr.idsAll
  induction es with
  | nil => rfl
  | cons e rest ih => rw [Expr.nodesAll, List.map_append, ih, List.flatMap_cons, Expr.ids]

/-- Every tree has a word. -/
theorem Expr.words_ne_nil (e : Expr) : e.words ≠ [] := by
  cases e with
  | literal id value token => cases token <;> simp [Expr.words]
  | _ => simp [Expr.words]

namespace Parser

open Does (Row)

variable {α : Type} {s t u : Progress} {k : Nat}

/-- An expression of a level was read. -/
def IsExpr (k : Nat) (e : Expr) (s t : Progress) : Prop :=
  k ≤ e.level ∧ e.Canonical ∧ Reads s t e.words e.ids

theorem IsExpr.loosen {j : Nat} {e : Expr} (h : IsExpr k e s t) (hj : j ≤ k) : IsExpr j e s t :=
  ⟨Nat.le_trans hj h.1, h.2⟩

/-- Things that were read one after another. -/
theorem Row.collect (good : α → Prop) (ws : α → List Word) (ids : α → List NodeId) {as : List α}
    (h : Row (fun a s t => good a ∧ Reads s t (ws a) (ids a)) as s t) :
    (∀ a ∈ as, good a) ∧ Reads s t (as.flatMap ws) (as.flatMap ids) := by
  induction h with
  | nil same ids_le => exact ⟨nofun, .skip same ids_le⟩
  | cons first _ ih =>
      refine ⟨fun a ha => ?_, ?_⟩
      · rcases List.mem_cons.mp ha with rfl | ha
        · exact first.1
        · exact ih.1 a ha
      · rw [List.flatMap_cons, List.flatMap_cons]
        exact first.2.trans ih.2

theorem Row.mono {post other : α → Progress → Progress → Prop} {as : List α}
    (h : Row post as s t) (hp : ∀ a s t, post a s t → other a s t) : Row other as s t := by
  induction h with
  | nil same ids_le => exact .nil same ids_le
  | cons first _ ih => exact .cons (hp _ _ _ first) ih

-- ================================================================= primary

theorem does_literal {p : Parser (Constant × Token)} (hp : Does p Constants) :
    Does (literal p) (IsExpr 9) := by
  unfold literal
  refine (hp.bind fun found => Does.freshId.bind fun id => Does.pure _).mono fun e s t h => ?_
  obtain ⟨⟨value, token⟩, _, ⟨hdenotes, hreads⟩, _, _, ⟨rfl, rfl⟩, rfl, rfl⟩ := h
  exact ⟨Nat.le_refl _, hdenotes, hreads.numbered⟩

theorem does_thisExpr : Does thisExpr (IsExpr 9) := by
  unfold thisExpr
  refine ((does_keyword .keyword "this" (by decide)).bind fun token =>
    Does.freshId.bind fun id => Does.pure _).mono fun e s t h => ?_
  obtain ⟨token, _, ⟨his, hreads⟩, _, _, ⟨rfl, rfl⟩, rfl, rfl⟩ := h
  have hword : token.word = .keyword "this" := by rw [Token.word, his.1, his.2]
  exact ⟨Nat.le_refl _, his, (hword ▸ hreads).numbered⟩

theorem does_superExpr : Does superExpr (IsExpr 9) := by
  unfold superExpr
  refine ((does_keyword .keyword "super" (by decide)).bind fun token =>
    ((does_symbol "." rfl (by decide) (by decide)).bind fun _ => does_identifier.bind fun method =>
      Does.freshId.bind fun id => Does.pure _).committed).mono fun e s t h => ?_
  obtain ⟨token, _, ⟨his, htoken⟩, _, _, hdot, method, _, ⟨hkind, hmethod⟩, _, _, ⟨rfl, rfl⟩, rfl,
    rfl⟩ := h
  have hword : token.word = .keyword "super" := by rw [Token.word, his.1, his.2]
  exact ⟨Nat.le_refl _, ⟨his, hkind⟩,
    ((hword ▸ htoken).trans (hdot.trans hmethod)).numbered⟩

theorem does_variableExpr : Does variableExpr (IsExpr 9) := by
  unfold variableExpr
  refine (does_identifier.bind fun name => Does.freshId.bind fun id => Does.pure _).mono
    fun e s t h => ?_
  obtain ⟨name, _, ⟨hkind, hreads⟩, _, _, ⟨rfl, rfl⟩, rfl, rfl⟩ := h
  exact ⟨Nat.le_refl _, hkind, hreads.numbered⟩

variable {expression : Parser Expr}

theorem does_groupingExpr (he : Does expression (IsExpr 0)) :
    Does (groupingExpr expression) (IsExpr 9) := by
  unfold groupingExpr
  refine ((does_symbol "(" rfl (by decide) (by decide)).bind fun _ =>
    (he.bind fun inner => (does_symbol ")" rfl (by decide) (by decide)).bind fun _ =>
      Does.freshId.bind fun id => Does.pure _).committed).mono fun e s t h => ?_
  obtain ⟨_, _, hopen, inner, _, ⟨-, hcanonical, hinner⟩, _, _, hclose, _, _, ⟨rfl, rfl⟩, rfl,
    rfl⟩ := h
  have hall := (hopen.trans (hinner.trans hclose)).numbered
  rw [List.nil_append, List.append_nil] at hall
  exact ⟨Nat.le_refl _, hcanonical, hall⟩

theorem does_primary (he : Does expression (IsExpr 0)) : Does (primary expression) (IsExpr 9) := by
  unfold primary
  refine (Does.choice .expression (IsExpr 9) ?_).mono fun e s u h => ?_
  · intro p hp
    simp only [List.mem_cons, List.not_mem_nil, or_false] at hp
    rcases hp with rfl | rfl | rfl | rfl | rfl | rfl | rfl | rfl | rfl
    · exact does_literal does_numberConstant
    · exact does_literal does_stringConstant
    · exact does_literal (does_wordConstant _ _ (by decide) fun _ => .true)
    · exact does_literal (does_wordConstant _ _ (by decide) fun _ => .false)
    · exact does_literal (does_wordConstant _ _ (by decide) fun _ => .nil)
    · exact does_thisExpr
    · exact does_superExpr
    · exact does_variableExpr
    · exact does_groupingExpr he
  · obtain ⟨t, hcursor, hids, hlevel, hcanonical, hreads⟩ := h
    exact ⟨hlevel, hcanonical, hreads.of_skipTrivia e.words_ne_nil hcursor hids⟩

-- =================================================================== calls

/-- Things between commas. -/
def Separated (post : α → Progress → Progress → Prop) (as : List α) (s t : Progress) : Prop :=
  (as = [] → t.cursor = s.cursor ∧ s.nextId ≤ t.nextId)
    ∧ ∀ a rest, as = a :: rest → ∃ u, post a s u
      ∧ Row (fun b s t => ∃ v, Reads s v [.symbol ","] [] ∧ post b v t) rest u t

theorem does_commaSeparated {item : Parser α} {post : α → Progress → Progress → Prop}
    (hitem : Does item post) : Does (commaSeparated item) (Separated post) := by
  unfold commaSeparated
  refine ((hitem.bind fun first => (((does_symbol "," rfl (by decide) (by decide)).bind
    fun _ => hitem).many).bind fun more => Does.pure (first :: more)).optional.bind
      fun found => Does.pure (found.getD [])).mono fun as s t h => ?_
  obtain ⟨found, _, ⟨hsome, hnone⟩, rfl, rfl⟩ := h
  cases found with
  | none => exact ⟨fun _ => ⟨(hnone rfl).1, (hnone rfl).2.1⟩, nofun⟩
  | some all =>
      obtain ⟨first, u, hfirst, more, _, hmore, rfl, rfl⟩ := (hsome all rfl).1
      refine ⟨nofun, fun a rest he => ?_⟩
      cases he
      refine ⟨u, hfirst, Row.mono hmore fun b s t h => ?_⟩
      obtain ⟨_, v, hcomma, hb⟩ := h
      exact ⟨v, hcomma, hb⟩

theorem Separated.collect (good : α → Prop) (ws : α → List Word) (ids : α → List NodeId)
    {as : List α} (h : Separated (fun a s t => good a ∧ Reads s t (ws a) (ids a)) as s t) :
    (∀ a ∈ as, good a) ∧ Reads s t (Word.commas (as.map ws)) (as.flatMap ids) := by
  cases as with
  | nil => exact ⟨nofun, .skip (h.1 rfl).1 (h.1 rfl).2⟩
  | cons a rest =>
      obtain ⟨u, ⟨hgood, hreads⟩, hrow⟩ := h.2 a rest rfl
      obtain ⟨hall, hmore⟩ := Row.collect good (fun a => .symbol "," :: ws a) ids
        (Row.mono hrow fun b s t h => by
          obtain ⟨v, hcomma, hb, hread⟩ := h
          exact ⟨hb, hcomma.trans hread⟩)
      refine ⟨fun b hb => ?_, ?_⟩
      · rcases List.mem_cons.mp hb with rfl | hb
        · exact hgood
        · exact hall b hb
      · have hwords : rest.flatMap (fun a => Word.symbol "," :: ws a)
            = Word.commasMore (rest.map ws) := by
          rw [Word.commasMore, List.flatMap_map]
        rw [List.map_cons, Word.commas, List.flatMap_cons, ← hwords]
        exact hreads.trans hmore

theorem Separated.mono {post other : α → Progress → Progress → Prop} {as : List α}
    (h : Separated post as s t) (hp : ∀ a s t, post a s t → other a s t) :
    Separated other as s t := by
  refine ⟨h.1, fun a rest he => ?_⟩
  obtain ⟨u, ha, hrow⟩ := h.2 a rest he
  refine ⟨u, hp _ _ _ ha, Row.mono hrow fun b s t hb => ?_⟩
  obtain ⟨v, hcomma, hb⟩ := hb
  exact ⟨v, hcomma, hp _ _ _ hb⟩

theorem Separated.exprs {es : List Expr} (h : Separated (IsExpr 0) es s t) :
    Expr.CanonicalAll es ∧ Reads s t (Expr.wordsAll es) (Expr.idsAll es) := by
  obtain ⟨hall, hreads⟩ := Separated.collect Expr.Canonical Expr.words Expr.ids
    (Separated.mono h fun e s t he => he.2)
  rw [Expr.canonicalAll_iff, Expr.wordsAll_eq, Expr.idsAll_eq]
  exact ⟨hall, hreads⟩

/-- The words of what follows a callee or an object. -/
def Suffix.words : Suffix → List Word
  | .call paren arguments => .symbol "(" :: (Expr.wordsAll arguments ++ [paren.word])
  | .get name => [.symbol ".", name.word]

def Suffix.ids : Suffix → List NodeId
  | .call _ arguments => Expr.idsAll arguments
  | .get _ => []

def Suffix.Canonical : Suffix → Prop
  | .call paren arguments =>
    paren.Is .rightParen ")" ∧ arguments.length ≤ maxArguments ∧ Expr.CanonicalAll arguments
  | .get name => name.kind = .identifier

/-- A suffix was read. -/
abbrev IsSuffix (x : Suffix) (s t : Progress) : Prop := x.Canonical ∧ Reads s t x.words x.ids

theorem does_callSuffix (he : Does expression (IsExpr 0)) :
    Does (callSuffix expression) IsSuffix := by
  unfold callSuffix
  refine (Does.skipTrivia.bind fun place => (does_symbol "(" rfl (by decide) (by decide)).bind
    fun _ => (does_commaSeparated he).bind fun arguments =>
      (does_symbolToken .rightParen ")" rfl (by decide) (by decide)).bind fun paren =>
        (?_ : Does _ fun x s t => arguments.length ≤ maxArguments
          ∧ x = .call paren arguments ∧ t = s)).mono fun x s t h => ?_
  · split
    · exact (Does.failAt _ _ _).mono fun _ _ _ h => h.elim
    · exact (Does.pure _).mono fun _ _ _ h => ⟨by omega, h⟩
  · obtain ⟨_, _, rfl, _, _, hopen, arguments, _, harguments, paren, _, ⟨his, hclose⟩, hlength, rfl,
      rfl⟩ := h
    obtain ⟨hcanonical, hreads⟩ := harguments.exprs
    have hword : paren.word = .symbol ")" := by rw [Token.word, his.1, his.2]
    refine ⟨⟨his, hlength, hcanonical⟩, ?_⟩
    have hall := hopen.trans (hreads.trans (hword ▸ hclose))
    refine (hall.of_skipTrivia (List.cons_ne_nil _ _) rfl (Nat.le_refl _)).perm ?_
    simp [Suffix.ids]

theorem does_getSuffix : Does getSuffix IsSuffix := by
  unfold getSuffix
  refine ((does_symbol "." rfl (by decide) (by decide)).bind fun _ =>
    does_identifier.bind fun name => Does.pure _).mono fun x s t h => ?_
  obtain ⟨_, _, hdot, name, _, ⟨hkind, hname⟩, rfl, rfl⟩ := h
  exact ⟨hkind, hdot.trans hname⟩

/-- Wrapping an expression uses up a number for every suffix. -/
theorem does_applySuffixes (e : Expr) (suffixes : List Suffix) :
    Does (applySuffixes e suffixes) fun e' s t =>
      (8 ≤ e.level → e.Canonical → (∀ x ∈ suffixes, x.Canonical) → 8 ≤ e'.level ∧ e'.Canonical)
        ∧ e'.words = e.words ++ suffixes.flatMap Suffix.words
        ∧ ∃ ids, Reads s t [] ids ∧ e'.ids.Perm (e.ids ++ suffixes.flatMap Suffix.ids ++ ids) := by
  induction suffixes generalizing e with
  | nil =>
      refine (Does.pure e).mono fun e' s t h => ?_
      obtain ⟨rfl, rfl⟩ := h
      exact ⟨fun hl hc _ => ⟨hl, hc⟩, by simp, [], .refl _, by simp⟩
  | cons x rest ih =>
      cases x with
      | call paren arguments =>
          refine (Does.freshId.bind fun id => ih (.call id e paren arguments)).mono fun e' s t h => ?_
          obtain ⟨_, _, ⟨rfl, rfl⟩, hgood, hwords, ids, hreads, hperm⟩ := h
          refine ⟨fun hl hc hall => hgood (Nat.le_refl _) ?_ fun x hx =>
            hall x (List.mem_cons_of_mem _ hx), ?_, _, (Reads.fresh s).trans hreads, ?_⟩
          · have hx := hall _ List.mem_cons_self
            exact ⟨hl, hc, hx⟩
          · rw [hwords]
            simp [Expr.words, Suffix.words]
          · refine hperm.trans ?_
            simp only [Expr.ids, Expr.nodes, List.map_cons, List.map_append, List.flatMap_cons,
              Suffix.ids, Expr.idsAll, Node.id, Expr.id]
            grind
      | get name =>
          refine (Does.freshId.bind fun id => ih (.get id e name)).mono fun e' s t h => ?_
          obtain ⟨_, _, ⟨rfl, rfl⟩, hgood, hwords, ids, hreads, hperm⟩ := h
          refine ⟨fun hl hc hall => hgood (Nat.le_refl _) ?_ fun x hx =>
            hall x (List.mem_cons_of_mem _ hx), ?_, _, (Reads.fresh s).trans hreads, ?_⟩
          · have hx := hall _ List.mem_cons_self
            exact ⟨hl, hc, hx⟩
          · rw [hwords]
            simp [Expr.words, Suffix.words]
          · refine hperm.trans ?_
            simp only [Expr.ids, Expr.nodes, List.map_cons, List.flatMap_cons,
              Suffix.ids, Node.id, Expr.id]
            grind

theorem does_call (he : Does expression (IsExpr 0)) : Does (call expression) (IsExpr 8) := by
  unfold call
  refine ((does_primary he).bind fun head => (Does.many (Does.firstOf IsSuffix ?_ none)).bind
    fun suffixes => does_applySuffixes head suffixes).mono fun e s t h => ?_
  · intro p hp
    simp only [List.mem_cons, List.not_mem_nil, or_false] at hp
    rcases hp with rfl | rfl
    · exact does_callSuffix he
    · exact does_getSuffix
  · obtain ⟨head, _, ⟨hlevel, hcanonical, hhead⟩, suffixes, _, hrow, hgood, hwords, ids, hids,
      hperm⟩ := h
    have hall := Row.collect Suffix.Canonical Suffix.words Suffix.ids
      (Row.mono hrow fun x s t h => by
        obtain ⟨v, hcursor, hle, hx, hreads⟩ := h
        exact ⟨hx, hreads.of_same hcursor hle⟩)
    obtain ⟨hl, hc⟩ := hgood (by omega) hcanonical hall.1
    refine ⟨hl, hc, ?_⟩
    have hreads := hhead.trans (hall.2.trans hids)
    rw [List.append_nil, ← hwords] at hreads
    exact hreads.perm (by rw [← List.append_assoc]; exact hperm)

-- =============================================================== operators

theorem does_unary (he : Does expression (IsExpr 0)) (depth : Nat) :
    Does (unary expression depth) (IsExpr 7) := by
  induction depth with
  | zero => exact Does.exhausted.mono fun _ _ _ h => h.elim
  | succ depth ih =>
      intro s
      refine ((Does.choice .expression (IsExpr 7) ?_).mono fun e s u h => ?_) s
      · intro p hp
        simp only [List.mem_cons, List.not_mem_nil, or_false] at hp
        rcases hp with rfl | rfl
        · refine ((does_operator unaryOperators (by decide) (by decide)).bind fun token =>
            ih.bind fun operand => Does.freshId.bind fun id => Does.pure _).mono fun e s t h => ?_
          obtain ⟨token, _, ⟨hkind, hlexeme, htoken⟩, operand, _, ⟨hl, hc, hoperand⟩, _, _,
            ⟨rfl, rfl⟩, rfl, rfl⟩ := h
          have hword : token.word = .symbol token.lexeme := by rw [Token.word, hkind]
          refine ⟨Nat.le_refl _, ⟨hkind, ?_, hl, hc⟩, ((hword ▸ htoken).trans hoperand).numbered⟩
          have hsame : ∀ spelling ∈ unaryOperators, spelling ∈ Lox.unaryOperators := by decide
          exact hsame _ hlexeme
        · exact (does_call he).mono fun e s t h => h.loosen (by omega)
      · obtain ⟨t, hcursor, hids, hlevel, hcanonical, hreads⟩ := h
        exact ⟨hlevel, hcanonical, hreads.of_skipTrivia e.words_ne_nil hcursor hids⟩

/-- How a level of binary operators makes nodes, and for which operators. -/
structure Joins (k : Nat) (join : Joiner) (fits : Token → Prop) : Prop where
  words : ∀ id l token r, (join id l token r).words = l.words ++ token.word :: r.words
  ids : ∀ id l token r, (join id l token r).ids = id :: (l.ids ++ r.ids)
  level : ∀ id l token r, fits token → (join id l token r).level = k
  canonical : ∀ id l token r, fits token → k ≤ l.level → l.Canonical → k < r.level → r.Canonical →
    (join id l token r).Canonical

variable {join : Joiner} {fits : Token → Prop}

/-- Joining operands uses up a number for every operator. -/
theorem Joins.does_foldLeft (hj : Joins k join fits) (left : Expr) (more : List (Token × Expr)) :
    Does (foldLeft join left more) fun e s t =>
      (k ≤ left.level → left.Canonical →
          (∀ x ∈ more, fits x.1 ∧ k < x.2.level ∧ x.2.Canonical) → k ≤ e.level ∧ e.Canonical)
        ∧ e.words = left.words ++ more.flatMap (fun x => x.1.word :: x.2.words)
        ∧ ∃ ids, Reads s t [] ids ∧ e.ids.Perm (left.ids ++ more.flatMap (fun x => x.2.ids) ++ ids) := by
  induction more generalizing left with
  | nil =>
      refine (Does.pure left).mono fun e s t h => ?_
      obtain ⟨rfl, rfl⟩ := h
      exact ⟨fun hl hc _ => ⟨hl, hc⟩, by simp, [], .refl _, by simp⟩
  | cons x rest ih =>
      obtain ⟨token, right⟩ := x
      refine (Does.freshId.bind fun id => ih (join id left token right)).mono fun e s t h => ?_
      obtain ⟨_, _, ⟨rfl, rfl⟩, hgood, hwords, ids, hreads, hperm⟩ := h
      refine ⟨fun hl hc hall => ?_, ?_, _, (Reads.fresh s).trans hreads, ?_⟩
      · obtain ⟨hfits, hr, hrc⟩ := hall _ List.mem_cons_self
        refine hgood ?_ (hj.canonical _ _ _ _ hfits hl hc hr hrc) fun x hx =>
          hall x (List.mem_cons_of_mem _ hx)
        rw [hj.level _ _ _ _ hfits]
      · rw [hwords, hj.words]
        simp
      · refine hperm.trans ?_
        rw [hj.ids, List.flatMap_cons]
        grind

theorem does_leftAssociative (hj : Joins k join fits) {token : Parser Token} {operand : Parser Expr}
    (htoken : Does token fun t s u => fits t ∧ Reads s u [t.word] [])
    (hoperand : Does operand (IsExpr (k + 1))) :
    Does (leftAssociative join token operand) (IsExpr k) := by
  unfold leftAssociative
  refine (hoperand.bind fun first => (Does.many (htoken.bind fun op =>
    hoperand.bind fun right => Does.pure (op, right))).bind
      fun more => hj.does_foldLeft first more).mono fun e s t h => ?_
  obtain ⟨first, _, ⟨hlevel, hcanonical, hfirst⟩, more, _, hrow, hgood, hwords, ids, hids,
    hperm⟩ := h
  have hall := Row.collect (fun x : Token × Expr => fits x.1 ∧ k < x.2.level ∧ x.2.Canonical)
    (fun x => x.1.word :: x.2.words) (fun x => x.2.ids) (Row.mono hrow fun x s t h => by
      obtain ⟨op, _, ⟨hfits, hop⟩, right, _, ⟨hl, hc, hright⟩, rfl, rfl⟩ := h
      exact ⟨⟨hfits, hl, hc⟩, hop.trans hright⟩)
  obtain ⟨hl, hc⟩ := hgood (by omega) hcanonical hall.1
  refine ⟨hl, hc, ?_⟩
  have hreads := hfirst.trans (hall.2.trans hids)
  rw [List.append_nil, ← hwords] at hreads
  exact hreads.perm (by rw [← List.append_assoc]; exact hperm)

/-- The operators of a level. -/
def Operates (spellings : List String) (token : Token) : Prop :=
  token.kind = .operator ∧ token.lexeme ∈ spellings

theorem joins_binary {spellings : List String}
    (hknown : ∀ s ∈ spellings, s ∈ binaryOperators ∧ operatorLevel s = k) :
    Joins k .binary (Operates spellings) where
  words _ _ _ _ := rfl
  ids _ _ _ _ := by simp [Expr.ids, Expr.nodes, Node.id, Expr.id]
  level _ _ token _ h := (hknown _ h.2).2
  canonical _ _ token _ h hl hlc hr hrc := by
    obtain ⟨hmem, hlevel⟩ := hknown _ h.2
    rw [← hlevel] at hl hr
    exact ⟨h.1, hmem, hl, hr, hlc, hrc⟩

theorem does_operates (spellings : List String) (hmem : ∀ s ∈ spellings, s ∈ symbols)
    (hne : "=" ∉ spellings) :
    Does (operator spellings) fun t s u => Operates spellings t ∧ Reads s u [t.word] [] := by
  refine (does_operator spellings hmem hne).mono fun token s t h => ?_
  obtain ⟨hkind, hlexeme, hreads⟩ := h
  have hword : token.word = .symbol token.lexeme := by rw [Token.word, hkind]
  exact ⟨⟨hkind, hlexeme⟩, hword ▸ hreads⟩

theorem joins_logicalOr : Joins 1 .logical (Token.Is .logicalOr "or") where
  words _ _ _ _ := rfl
  ids _ _ _ _ := by simp [Expr.ids, Expr.nodes, Node.id, Expr.id]
  level _ _ token _ h := by rw [Expr.level, h.2, if_pos rfl]
  canonical _ _ token _ h hl hlc hr hrc := ⟨.inl ⟨h, hl, hr⟩, hlc, hrc⟩

theorem joins_logicalAnd : Joins 2 .logical (Token.Is .logicalAnd "and") where
  words _ _ _ _ := rfl
  ids _ _ _ _ := by simp [Expr.ids, Expr.nodes, Node.id, Expr.id]
  level _ _ token _ h := by rw [Expr.level, h.2, if_neg (by decide)]
  canonical _ _ token _ h hl hlc hr hrc := ⟨.inr ⟨h, hl, hr⟩, hlc, hrc⟩

theorem does_logicalOr {unary : Parser Expr} (hu : Does unary (IsExpr 7)) :
    Does (logicalOr unary) (IsExpr 1) := by
  have hfactor : Does (factor unary) (IsExpr 6) :=
    does_leftAssociative (joins_binary (by decide)) (does_operates _ (by decide) (by decide)) hu
  have hterm : Does (term unary) (IsExpr 5) :=
    does_leftAssociative (joins_binary (by decide)) (does_operates _ (by decide) (by decide)) hfactor
  have hcomparison : Does (comparison unary) (IsExpr 4) :=
    does_leftAssociative (joins_binary (by decide)) (does_operates _ (by decide) (by decide)) hterm
  have hequality : Does (equality unary) (IsExpr 3) :=
    does_leftAssociative (joins_binary (by decide)) (does_operates _ (by decide) (by decide))
      hcomparison
  have hand : Does (logicalAnd unary) (IsExpr 2) := by
    refine does_leftAssociative joins_logicalAnd ?_ hequality
    refine (does_keyword .logicalAnd "and" (by decide)).mono fun token s t h => ?_
    have hword : token.word = .keyword "and" := by rw [Token.word, h.1.1, h.1.2]
    exact ⟨h.1, hword ▸ h.2⟩
  refine does_leftAssociative joins_logicalOr ?_ hand
  refine (does_keyword .logicalOr "or" (by decide)).mono fun token s t h => ?_
  have hword : token.word = .keyword "or" := by rw [Token.word, h.1.1, h.1.2]
  exact ⟨h.1, hword ▸ h.2⟩

-- ============================================================== assignment

/-- A target that can be assigned to becomes a part of the assignment. -/
theorem does_assignTo (target : Expr) (equals : Token) (value : Expr) :
    Does (assignTo target equals value) fun e s t =>
      (target.Canonical → value.Canonical → e.Canonical)
        ∧ e.words = target.words ++ .symbol "=" :: value.words
        ∧ Reads s t [] [s.nextId] ∧ e.ids.Perm (s.nextId :: value.ids ++ target.ids.tail) := by
  unfold assignTo
  split
  · refine (Does.freshId.bind fun id => Does.pure _).mono fun e s t h => ?_
    obtain ⟨_, _, ⟨rfl, rfl⟩, rfl, rfl⟩ := h
    refine ⟨fun ht hv => ⟨ht, hv⟩, rfl, .fresh s, ?_⟩
    simp [Expr.ids, Expr.nodes, Node.id, Expr.id]
  · refine (Does.freshId.bind fun id => Does.pure _).mono fun e s t h => ?_
    obtain ⟨_, _, ⟨rfl, rfl⟩, rfl, rfl⟩ := h
    refine ⟨fun ht hv => ⟨ht.1, ht.2.1, ht.2.2, hv⟩, by simp [Expr.words], .fresh s, ?_⟩
    simp [Expr.ids, Expr.nodes, Node.id, Expr.id]
  · exact (Does.failAt _ _ _).mono fun _ _ _ h => h.elim

theorem does_assignment (depth : Nat) : Does (assignment depth) (IsExpr 0) := by
  induction depth with
  | zero => exact Does.exhausted.mono fun _ _ _ h => h.elim
  | succ depth ih =>
      intro s
      refine (((does_logicalOr (does_unary ih (depth + 1))).bind fun target =>
        (Does.optional (does_equalSign.bind fun equals => ih.bind fun value =>
          Does.pure (equals, value))).bind fun source => (?_ : Does _ fun e s t =>
            (source = none → e = target ∧ t = s) ∧ ∀ equals value, source = some (equals, value) →
              (target.Canonical → value.Canonical → e.Canonical)
                ∧ e.words = target.words ++ .symbol "=" :: value.words
                ∧ Reads s t [] [s.nextId]
                ∧ e.ids.Perm (s.nextId :: value.ids ++ target.ids.tail))).mono
                  fun e s u h => ?_) s
      · cases source with
        | none => exact (Does.pure target).mono fun e s t h => ⟨fun _ => h, nofun⟩
        | some found =>
            obtain ⟨equals, value⟩ := found
            refine (does_assignTo target equals value).mono fun e s t h => ⟨nofun, ?_⟩
            intro equals' value' he
            cases he
            exact h
      · obtain ⟨target, _, htarget, source, t, ⟨hsome, hnone⟩, hplain, hassign⟩ := h
        cases source with
        | none =>
            obtain ⟨rfl, rfl⟩ := hplain rfl
            obtain ⟨hcursor, hids, -⟩ := hnone rfl
            have hreads := htarget.2.2.trans (.skip hcursor hids)
            rw [List.append_nil, List.append_nil] at hreads
            exact ⟨Nat.zero_le _, htarget.2.1, hreads⟩
        | some found =>
            obtain ⟨equals, value⟩ := found
            obtain ⟨hgood, hwords, hids, hperm⟩ := hassign equals value rfl
            obtain ⟨_, _, hequals, _, _, ⟨-, hvc, hvalue⟩, he, rfl⟩ := (hsome _ rfl).1
            cases he
            refine ⟨Nat.zero_le _, hgood htarget.2.1 hvc, ?_⟩
            have hall := htarget.2.2.trans (hequals.trans (hvalue.trans hids))
            rw [List.append_nil] at hall
            rw [hwords]
            have htail : Reads _ _ _ (target.ids.tail ++ (value.ids ++ [t.nextId])) :=
              hall.sublist ((List.tail_sublist _).append_right _)
            refine htail.perm (hperm.trans ?_)
            grind

end Parser

end Lox
