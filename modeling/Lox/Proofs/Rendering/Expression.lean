/-
Expressions that were written down are read back. The operators of one level are
a row to the reader and nested to the left in the tree: `Folds.exists_row` takes
the row off the tree, and the reader folds it up again.

Nesting takes words, so the depth that a reader is given suffices for all
expressions of that many words.
-/
import Lox.Proofs.Rendering.Call

namespace Lox.Parser

variable {ws more : List Word} {w : Word} {k n : Nat} {expression : Parser Expr}

-- ================================================================== unary

/-- An operand begins with no operator. -/
theorem leaves_unaryOperator {e : Expr} (hc : e.Canonical) (hlevel : 8 ≤ e.level) :
    Leaves (operator unaryOperators) (e.words ++ more) := by
  refine leaves_operator (by decide) fun s hs => ?_
  obtain ⟨w, hw, hbegins, hnot⟩ := e.begins hc
  rw [e.head?_words_append, hw] at hs
  obtain rfl := Option.some.inj hs
  have hbracket : ∀ s ∈ ["(", "!", "-"], s ∉ Lox.unaryOperators →
      ∀ t ∈ unaryOperators, ¬ t.toList <+: s.toList := by decide
  exact hbracket s (of_decide_eq_true hbegins) fun hs => hnot hlevel s hs rfl

theorem find_unaryOperator : ∀ s ∈ Lox.unaryOperators,
    unaryOperators.find? (fun t => startsWith t s.toList) = some s := by decide

theorem inverts_unary (he : Inverts 0 n expression)
    (hnone : ∀ more, Leaves expression (.symbol ")" :: more)) (depth : Nat) :
    Inverts 7 (min depth (n + 1)) (unary expression depth) := by
  induction depth with
  | zero =>
      intro e hc _ hlength
      have hpos := List.length_pos_iff.mpr e.words_ne_nil
      omega
  | succ depth ih =>
      intro e hc hlevel hlength more hstops
      by_cases hcall : 8 ≤ e.level
      · exact .choice (.later (leaves_unaryOperator hc hcall).bind
          (.here (inverts_call he hnone e hc hcall (by omega) more (hstops.mono (by decide)))))
      · obtain ⟨id, op, operand, rfl⟩ := Expr.eq_unary (e := e) (by omega)
        obtain ⟨hkind, hop, hl, hoperand⟩ := hc
        rw [Expr.words, List.length_cons] at hlength
        rw [Expr.words, Token.word_of_operator hkind]
        refine .choice (.here ?_)
        refine (takes_operator (by decide) (find_unaryOperator _ hop)).cons fun token htoken =>
          (ih operand hoperand hl (by omega) more hstops).last fun e' he' =>
            .silent .freshId fun id _ => .pure ?_
        rw [Expr.outline, Expr.outline, htoken.outline_eq ⟨hkind, rfl⟩, he']

-- ================================================================ operators

/-- How the operators of a level and the tree fit together. -/
structure Folds (k : Nat) (join : Joiner) (fits : Token → Prop) : Prop where
  split : ∀ e : Expr, e.Canonical → e.level = k → ∃ id l token r, e = join id l token r
    ∧ fits token ∧ k ≤ l.level ∧ l.Canonical ∧ k < r.level ∧ r.Canonical
  words : ∀ id l token r, (join id l token r).words = l.words ++ token.word :: r.words
  outline : ∀ id l token r,
    (join id l token r).outline = join 0 l.outline token.outline r.outline
  strength : ∀ token, fits token → token.word.strength = some k

/-- An expression is a row of operands with operators between them. -/
structure Chained (k : Nat) (join : Joiner) (fits : Token → Prop) (e first : Expr)
    (row : List (Token × Expr)) : Prop where
  tighter : k < first.level
  canonical : first.Canonical
  all : ∀ x ∈ row, fits x.1 ∧ k < x.2.level ∧ x.2.Canonical
  words : e.words = first.words ++ row.flatMap fun x => x.1.word :: x.2.words
  outline : e.outline
    = (row.map fun x => (x.1.outline, x.2.outline)).foldl (fun l x => join 0 l x.1 x.2)
      first.outline

variable {join : Joiner} {fits : Token → Prop}

theorem Folds.exists_row (hf : Folds k join fits) (e : Expr) (hc : e.Canonical)
    (hlevel : k ≤ e.level) : ∃ first row, Chained k join fits e first row := by
  induction hn : e.words.length using Nat.strong_induction_on generalizing e with
  | _ n ih =>
    rcases Nat.lt_or_eq_of_le hlevel with hlt | heq
    · exact ⟨e, [], hlt, hc, by simp, by simp, rfl⟩
    · obtain ⟨id, l, token, r, rfl, hfits, hl, hlc, hr, hrc⟩ := hf.split e hc heq.symm
      have hwords := hf.words id l token r
      have hshorter : l.words.length < n := by
        rw [← hn, hwords, List.length_append, List.length_cons]
        omega
      obtain ⟨first, row, h⟩ := ih _ hshorter l hlc hl rfl
      refine ⟨first, row ++ [(token, r)], h.tighter, h.canonical, fun x hx => ?_, ?_, ?_⟩
      · rcases List.mem_append.mp hx with hx | hx
        · exact h.all x hx
        · obtain rfl := List.mem_singleton.mp hx
          exact ⟨hfits, hr, hrc⟩
      · rw [hwords, h.words]
        simp
      · rw [hf.outline, h.outline]
        simp

/-- Two operators with their right operands have one outline. -/
abbrev SameStep (x y : Token × Expr) : Prop :=
  y.1.outline = x.1.outline ∧ y.2.outline = x.2.outline

/-- Folding the row up uses up numbers only. -/
theorem Folds.takes_foldLeft (hf : Folds k join fits) {xs ys : List (Token × Expr)}
    (h : List.Forall₂ SameStep xs ys) (left : Expr) :
    Takes (foldLeft join left ys) [] more fun e => e.outline
      = (xs.map fun x => (x.1.outline, x.2.outline)).foldl (fun l x => join 0 l x.1 x.2)
        left.outline := by
  induction h generalizing left with
  | nil => exact .pure rfl
  | @cons x y xs ys hx _ ih =>
      obtain ⟨token, right⟩ := y
      refine .silent .freshId fun id _ => (ih (join id left token right)).mono fun e he => ?_
      rw [he, hf.outline, List.map_cons, List.foldl_cons, ← hx.1, ← hx.2]

/-- A level of binary operators takes a row of operands of the level above. -/
theorem inverts_leftAssociative (hf : Folds k join fits) {token : Parser Token}
    {operand : Parser Expr}
    (htoken : ∀ op, fits op → ∀ more,
      Takes token [op.word] more fun op' => op'.outline = op.outline)
    (hleaves : ∀ more, Stops k more → Leaves token more) (hoperand : Inverts (k + 1) n operand) :
    Inverts k n (leftAssociative join token operand) := by
  intro e hc hlevel hlength more hstops
  obtain ⟨first, row, h⟩ := hf.exists_row e hc hlevel
  have hparts := congrArg List.length h.words
  rw [List.length_append] at hparts
  have hfollowed : ∀ x ∈ row, ∀ behind, Stops (k + 1) ((x.1.word :: x.2.words) ++ behind) :=
    fun x hx behind => .of_some (hf.strength x.1 (h.all x hx).1) (Nat.lt_succ_self k)
  have hbehind : Stops (k + 1) (row.flatMap (fun x => x.1.word :: x.2.words) ++ more) := by
    cases row with
    | nil => exact hstops.mono (Nat.le_succ k)
    | cons x row =>
        rw [List.flatMap_cons, List.append_assoc]
        exact hfollowed x List.mem_cons_self _
  have hmany : Takes (many do let op ← token; let right ← operand; pure (op, right))
      (row.flatMap fun x => x.1.word :: x.2.words) more (List.Forall₂ SameStep row) := by
    refine .many (Stops (k + 1)) (fun x hx behind hb => ?_) hfollowed
      (fun _ _ => List.cons_ne_nil _ _) (hleaves more hstops).bind (hstops.mono (Nat.le_succ k))
    obtain ⟨hfits, hr, hrc⟩ := h.all x hx
    have hle := length_le_flatMap (f := fun x : Token × Expr => x.1.word :: x.2.words) hx
    rw [List.length_cons] at hle
    exact (htoken x.1 hfits _).cons fun op hop =>
      (hoperand x.2 hrc hr (by omega) behind hb).last fun right hright => Takes.pure ⟨hop, hright⟩
  rw [h.words]
  refine (hoperand first h.canonical h.tighter (by omega) _ hbehind).bind fun left hleft =>
    hmany.last fun ys hys => (hf.takes_foldLeft hys left).mono fun e' he' => ?_
  rw [he', hleft, h.outline]

theorem folds_binary {spellings : List String} (hk : 3 ≤ k) (hk' : k ≤ 6)
    (hlevel : ∀ s ∈ binaryOperators, operatorLevel s = k → s ∈ spellings)
    (hknown : ∀ s ∈ spellings, (Word.symbol s).strength = some k) :
    Folds k .binary (Operates spellings) where
  split e hc heq := by
    obtain ⟨id, l, op, r, rfl⟩ := Expr.eq_binary (e := e) (by omega) (by omega)
    obtain ⟨hkind, hop, hl, hr, hlc, hrc⟩ := hc
    rw [Expr.level] at heq
    rw [heq] at hl hr
    exact ⟨id, l, op, r, rfl, ⟨hkind, hlevel _ hop heq⟩, hl, hlc, hr, hrc⟩
  words _ _ _ _ := rfl
  outline _ _ _ _ := rfl
  strength token h := by
    rw [Token.word_of_operator h.1]
    exact hknown _ h.2

theorem takes_operates {spellings : List String} (hmem : ∀ s ∈ spellings, s ∈ symbols)
    (hfind : ∀ s ∈ spellings, spellings.find? (fun t => startsWith t s.toList) = some s)
    (op : Token) (hop : Operates spellings op) (more : List Word) :
    Takes (operator spellings) [op.word] more fun op' => op'.outline = op.outline := by
  rw [Token.word_of_operator hop.1]
  exact (takes_operator hmem (hfind _ hop.2)).mono fun op' h => h.outline_eq ⟨hop.1, rfl⟩

/-- No operator of a level begins a symbol that an expression of the level does not go on with. -/
theorem leaves_operates {spellings : List String} (hmem : ∀ s ∈ spellings, s ∈ symbols)
    (hnone : ∀ s ∈ symbols, (∀ j ∈ (Word.symbol s).strength, j < k) →
      ∀ t ∈ spellings, ¬ t.toList <+: s.toList) (more : List Word) (h : Stops k more) :
    Leaves (operator spellings) more := by
  intro s hs
  refine leaves_operator hmem (fun t ht => hnone t ?_ fun j hj => h _ ht j hj) s hs
  exact hs.front.valid _ (List.mem_of_mem_head? ht)

/-- A level of binary operators is settled by its spellings. -/
theorem inverts_binary {spellings : List String} {operand : Parser Expr} (hk : 3 ≤ k) (hk' : k ≤ 6)
    (hlevel : ∀ s ∈ binaryOperators, operatorLevel s = k → s ∈ spellings)
    (hknown : ∀ s ∈ spellings, (Word.symbol s).strength = some k)
    (hmem : ∀ s ∈ spellings, s ∈ symbols)
    (hfind : ∀ s ∈ spellings, spellings.find? (fun t => startsWith t s.toList) = some s)
    (hnone : ∀ s ∈ symbols, (∀ j ∈ (Word.symbol s).strength, j < k) →
      ∀ t ∈ spellings, ¬ t.toList <+: s.toList)
    (hoperand : Inverts (k + 1) n operand) :
    Inverts k n (leftAssociative .binary (operator spellings) operand) :=
  inverts_leftAssociative (folds_binary hk hk' hlevel hknown) (takes_operates hmem hfind)
    (leaves_operates hmem hnone) hoperand

theorem folds_logicalOr : Folds 1 .logical (Token.Is .logicalOr "or") where
  split e hc heq := by
    obtain ⟨id, l, op, r, rfl⟩ := Expr.eq_logical (e := e) (by omega) (by omega)
    obtain ⟨hop, hlc, hrc⟩ := hc
    rcases hop with ⟨his, hl, hr⟩ | ⟨his, -⟩
    · exact ⟨id, l, op, r, rfl, his, hl, hlc, hr, hrc⟩
    · rw [Expr.level, his.2] at heq
      exact absurd heq (by decide)
  words _ _ _ _ := rfl
  outline _ _ _ _ := rfl
  strength token h := by rw [Token.word, h.1, h.2]; rfl

theorem folds_logicalAnd : Folds 2 .logical (Token.Is .logicalAnd "and") where
  split e hc heq := by
    obtain ⟨id, l, op, r, rfl⟩ := Expr.eq_logical (e := e) (by omega) (by omega)
    obtain ⟨hop, hlc, hrc⟩ := hc
    rcases hop with ⟨his, -⟩ | ⟨his, hl, hr⟩
    · rw [Expr.level, his.2] at heq
      exact absurd heq (by decide)
    · exact ⟨id, l, op, r, rfl, his, hl, hlc, hr, hrc⟩
  words _ _ _ _ := rfl
  outline _ _ _ _ := rfl
  strength token h := by rw [Token.word, h.1, h.2]; rfl

theorem takes_logical {kind : TokenKind} {word : String}
    (hword : ∀ op : Token, op.Is kind word → op.word = .keyword word)
    (op : Token) (hop : op.Is kind word) (more : List Word) :
    Takes (keyword kind word) [op.word] more fun op' => op'.outline = op.outline := by
  rw [hword op hop]
  exact (takes_keyword kind word).mono fun op' h => h.outline_eq hop

theorem leaves_logical (kind : TokenKind) {word : String} (hword : word ∈ Text.reservedWords)
    (hstrength : (Word.keyword word).strength = some k) (more : List Word) (h : Stops k more) :
    Leaves (keyword kind word) more :=
  leaves_keyword kind hword (h.ne hstrength (Nat.le_refl k))

theorem inverts_logicalOr {unary : Parser Expr} (hu : Inverts 7 n unary) :
    Inverts 1 n (logicalOr unary) := by
  have hfactor : Inverts 6 n (factor unary) :=
    inverts_binary (by decide) (by decide) (by decide) (by decide) (by decide) (by decide)
      (by decide) hu
  have hterm : Inverts 5 n (term unary) :=
    inverts_binary (by decide) (by decide) (by decide) (by decide) (by decide) (by decide)
      (by decide) hfactor
  have hcomparison : Inverts 4 n (comparison unary) :=
    inverts_binary (by decide) (by decide) (by decide) (by decide) (by decide) (by decide)
      (by decide) hterm
  have hequality : Inverts 3 n (equality unary) :=
    inverts_binary (by decide) (by decide) (by decide) (by decide) (by decide) (by decide)
      (by decide) hcomparison
  have hand : Inverts 2 n (logicalAnd unary) :=
    inverts_leftAssociative folds_logicalAnd
      (takes_logical fun op h => by rw [Token.word, h.1, h.2])
      (leaves_logical _ (by decide) rfl) hequality
  exact inverts_leftAssociative folds_logicalOr
    (takes_logical fun op h => by rw [Token.word, h.1, h.2])
    (leaves_logical _ (by decide) rfl) hand

-- ============================================================== assignment

/-- Words in front of which an expression may be missing. -/
def closers : List Word := [.symbol ";", .symbol ")"]

section Closers

variable (h : w ∈ closers)
include h

theorem not_begins_of_closers : w.begins = false := by
  have hall : ∀ w ∈ closers, w.begins = false := by decide
  exact hall w h

theorem leaves_primary : Leaves (primary expression) (w :: ws) := by
  have hbegins := not_begins_of_closers h
  have hhead : ∀ v ∈ (w :: ws).head?, v.begins = false := by
    rintro v hv
    obtain rfl := Option.some.inj hv
    exact hbegins
  have hkeyword : ∀ s, (w :: ws).head? ≠ some (.keyword s) := by
    rintro s hs
    obtain rfl := Option.some.inj hs
    simp [closers] at h
  have hconstants : ∀ p ∈ constantReaders, Leaves p (w :: ws) := by
    refine leaves_constants fun v hv => ?_
    cases hconstant : v.isConstant with
    | false => rfl
    | true =>
        have hnot := hhead v hv
        rw [Word.begins_of_isConstant hconstant] at hnot
        cases hnot
  refine .choice fun p hp => ?_
  rcases List.mem_append.mp (show p ∈ constantReaders
    ++ [thisExpr, superExpr, variableExpr, groupingExpr expression] from hp) with hp | hp
  · exact hconstants p hp
  · simp only [List.mem_cons, List.not_mem_nil, or_false] at hp
    rcases hp with rfl | rfl | rfl | rfl
    · exact (leaves_keyword _ (by decide) fun hw => by cases hhead _ hw).bind
    · exact (leaves_keyword _ (by decide) fun hw => by cases hhead _ hw).bind
    · exact (leaves_identifier (fun s hw => by cases hhead _ hw) hkeyword).bind
    · exact (leaves_symbol_ne "(" (by decide) (by decide) rfl fun hw => by cases hhead _ hw).bind

theorem leaves_unary (depth : Nat) : Leaves (unary expression depth) (w :: ws) := by
  have hall : ∀ w ∈ closers, ∀ s ∈ symbols, w = .symbol s →
      ∀ t ∈ unaryOperators, ¬ t.toList <+: s.toList := by decide
  cases depth with
  | zero => exact .exhausted
  | succ depth =>
      refine .choice fun p hp => ?_
      simp only [List.mem_cons, List.not_mem_nil, or_false] at hp
      rcases hp with rfl | rfl
      · refine Leaves.bind fun s hs => leaves_operator (by decide) (fun t ht => ?_) s hs
        exact hall w h t (hs.front.valid _ (List.mem_of_mem_head? ht)) (Option.some.inj ht)
      · exact (leaves_primary h).bind

/-- In front of a closer the reader of expressions fails softly. -/
theorem leaves_assignment (depth : Nat) : Leaves (assignment depth) (w :: ws) := by
  cases depth with
  | zero => exact .exhausted
  | succ depth =>
      have hu : Leaves (unary (assignment depth) (depth + 1)) (w :: ws) := leaves_unary h _
      have hor : Leaves (logicalOr (unary (assignment depth) (depth + 1))) (w :: ws) :=
        hu.bind.bind.bind.bind.bind.bind
      exact hor.bind

end Closers

section Assignment

variable {depth : Nat}
  (hor : Inverts 1 (depth + 1) (logicalOr (unary (assignment depth) (depth + 1))))
  (hdepth : Inverts 0 depth (assignment depth))
include hor hdepth

/-- An assignment is a target, the sign, and a value. -/
theorem takes_assigned {target value e : Expr} (htarget : target.Canonical)
    (hlevel : 1 ≤ target.level) (hvalue : value.Canonical)
    (hlength : target.words.length + 1 + value.words.length ≤ depth + 1) (hstops : Stops 0 more)
    (hassign : ∀ target' equals value', target'.outline = target.outline →
      value'.outline = value.outline →
        Takes (assignTo target' equals value') [] more fun e' => e'.outline = e.outline) :
    Takes (assignment (depth + 1)) (target.words ++ .symbol "=" :: value.words) more
      fun e' => e'.outline = e.outline := by
  have hpos := List.length_pos_iff.mpr target.words_ne_nil
  have hsign : Stops 1 (.symbol "=" :: value.words ++ more) := .of_some rfl (by decide)
  have hsource : Takes
      (do let equals ← equalSign; let value ← assignment depth; pure (equals, value))
      (.symbol "=" :: value.words) more fun source => source.2.outline = value.outline :=
    takes_equalSign.cons fun equals _ =>
      (hdepth value hvalue (Nat.zero_le _) (by omega) more hstops).last fun value' hvalue' =>
        .pure hvalue'
  refine (hor target htarget hlevel (by omega) _ hsign).bind fun target' htarget' =>
    hsource.some.last fun source hsome => ?_
  obtain ⟨⟨equals, value'⟩, rfl, hvalue'⟩ := hsome
  exact hassign target' equals value' htarget' hvalue'

theorem inverts_assignment_succ : Inverts 0 (depth + 1) (assignment (depth + 1)) := by
  intro e hc _ hlength more hstops
  by_cases hzero : e.level = 0
  · rcases Expr.eq_assignment hzero with ⟨id, name, value, rfl⟩ | ⟨id, object, name, value, rfl⟩
    · obtain ⟨hname, hvalue⟩ := hc
      have hwords : (Expr.assign id name value).words
          = (Expr.var 0 name).words ++ .symbol "=" :: value.words := rfl
      rw [hwords, List.length_append, List.length_cons] at hlength
      rw [hwords]
      refine takes_assigned hor hdepth hname (Nat.le_add_left 1 8) hvalue (by omega) hstops ?_
      intro target' equals value' htarget' hvalue'
      obtain ⟨id, name', rfl, hname'⟩ := Expr.eq_var_of_outline htarget'
      refine .silent .freshId fun id _ => .pure ?_
      rw [Expr.outline, Expr.outline, hname', hvalue']
    · obtain ⟨hl, hobject, hname, hvalue⟩ := hc
      have hwords : (Expr.set id object name value).words
          = (Expr.get 0 object name).words ++ .symbol "=" :: value.words := by
        simp [Expr.words]
      rw [hwords, List.length_append, List.length_cons] at hlength
      rw [hwords]
      refine takes_assigned hor hdepth ⟨hl, hobject, hname⟩ (Nat.le_add_left 1 7) hvalue (by omega)
        hstops ?_
      intro target' equals value' htarget' hvalue'
      obtain ⟨id, object', name', rfl, hobject', hname'⟩ := Expr.eq_get_of_outline htarget'
      refine .silent .freshId fun id _ => .pure ?_
      rw [Expr.outline, Expr.outline, hobject', hname', hvalue']
  · have htarget := hor e hc (by omega) hlength more (hstops.mono (Nat.zero_le 1))
    refine htarget.last fun target' htarget' => .silent (.none ?_) fun source hnone => ?_
    · exact (leaves_equalSign (hstops.ne rfl (Nat.le_refl 0))).bind
    · rw [hnone]
      exact .pure htarget'

end Assignment

theorem inverts_assignment (depth : Nat) : Inverts 0 depth (assignment depth) := by
  induction depth with
  | zero =>
      intro e hc _ hlength
      have hpos := List.length_pos_iff.mpr e.words_ne_nil
      omega
  | succ depth ih =>
      have hu := inverts_unary ih (fun more => leaves_assignment (by decide) depth)
        (depth + 1)
      rw [Nat.min_self] at hu
      exact inverts_assignment_succ (inverts_logicalOr hu) ih

end Lox.Parser
