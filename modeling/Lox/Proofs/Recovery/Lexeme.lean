/-
What recovery goes by, as a text shows it: lexemes, and the gaps between them. Any text
that does not begin with a blank begins with a lexeme, and only with one
(`Recovery.isLexeme_iff`); any text begins with one gap, which may be empty
(`Recovery.isGap_iff`). So recovery never meets anything that it could not pass.
-/
import Lox.Proofs.Rendering.Written
import Lox.Proofs.Position.Recovery

namespace Lox.Recovery

open Text

/-- A lexeme, with the text behind it: a string, to the end of the text if nothing closes it; a
word; a number; or else a single character. Words and numbers are as long as they can be. -/
inductive IsLexeme : List Char → List Char → Prop
  | closed {inner behind : List Char} (free : '"' ∉ inner) :
      IsLexeme ('"' :: (inner ++ ['"'])) behind
  | unclosed {inner : List Char} (free : '"' ∉ inner) : IsLexeme ('"' :: inner) []
  | word {c : Char} {more behind : List Char} (start : isNameStart c = true)
      (chars : ∀ x ∈ more, isNameChar x = true) (ends : behind.head?.any isNameChar = false) :
      IsLexeme (c :: more) behind
  | whole {c : Char} {more behind : List Char} (digits : ∀ x ∈ c :: more, isDigit x = true)
      (ends : behind.head?.any isDigit = false)
      (noFraction : ∀ x rest, behind = '.' :: x :: rest → isDigit x = false) :
      IsLexeme (c :: more) behind
  | fraction {c d : Char} {more digits behind : List Char}
      (before : ∀ x ∈ c :: more, isDigit x = true) (after : ∀ x ∈ d :: digits, isDigit x = true)
      (ends : behind.head?.any isDigit = false) :
      IsLexeme (c :: more ++ '.' :: d :: digits) behind
  | single {c : Char} {behind : List Char} (solid : isBlank c = false) (noQuote : c ≠ '"')
      (noName : isNameStart c = false) (noDigit : isDigit c = false) : IsLexeme [c] behind

/-- Blanks and comments, with the text behind them, which begins with neither. A comment goes to
the end of its line. -/
inductive IsGap : List Char → List Char → Prop
  | nil {behind : List Char} (solid : behind.head?.any isBlank = false)
      (noComment : ¬ ['/', '/'] <+: behind) : IsGap [] behind
  | blank {c : Char} {gap behind : List Char} (blank : isBlank c = true)
      (more : IsGap gap behind) : IsGap (c :: gap) behind
  | comment {body gap behind : List Char} (inLine : '\n' ∉ body)
      (ends : (gap ++ behind).head? = none ∨ (gap ++ behind).head? = some '\n')
      (more : IsGap gap behind) : IsGap ('/' :: '/' :: (body ++ gap)) behind

-- ================================================================= lexemes

/-- A text is parted behind its first characters of a kind, as many as there are. -/
theorem exists_span {α : Type} (p : α → Bool) (l : List α) :
    ∃ front behind, l = front ++ behind ∧ (∀ x ∈ front, p x = true)
      ∧ behind.head?.any p = false := by
  induction l with
  | nil => exact ⟨[], [], rfl, nofun, rfl⟩
  | cons a l ih =>
      cases ha : p a with
      | false => exact ⟨[], a :: l, rfl, nofun, ha⟩
      | true =>
          obtain ⟨front, behind, rfl, hfront, hbehind⟩ := ih
          exact ⟨a :: front, behind, rfl, List.forall_mem_cons.mpr ⟨ha, hfront⟩, hbehind⟩

/-- The same for all characters up to one. -/
theorem exists_before (mark : Char) (cs : List Char) :
    ∃ front behind, cs = front ++ behind ∧ mark ∉ front
      ∧ (behind = [] ∨ ∃ rest, behind = mark :: rest) := by
  obtain ⟨front, behind, rfl, hfront, hbehind⟩ := exists_span (· ≠ mark) cs
  refine ⟨front, behind, rfl, fun hmem => by simpa using hfront mark hmem, ?_⟩
  cases behind with
  | nil => exact .inl rfl
  | cons x rest =>
      have hx : x = mark := by simpa using hbehind
      exact .inr ⟨rest, by rw [hx]⟩

theorem takeWhile_append {α : Type} {p : α → Bool} {l behind : List α} (hl : ∀ x ∈ l, p x = true)
    (hbehind : behind.head?.any p = false) : (l ++ behind).takeWhile p = l := by
  rw [List.takeWhile_append_of_pos hl]
  cases behind with
  | nil => simp
  | cons x rest => simp_all

/-- The characters that lexemes begin with are told apart. -/
theorem isNameStart_of_isDigit {c : Char} (h : isDigit c = true) : isNameStart c = false := by
  cases hname : isNameStart c with
  | false => rfl
  | true =>
      rw [isDigit_of_isNameStart hname] at h
      cases h

theorem ne_quote_of_isNameStart {c : Char} (h : isNameStart c = true) : c ≠ '"' := by
  rintro rfl
  exact absurd h (by decide)

theorem ne_quote_of_isDigit {c : Char} (h : isDigit c = true) : c ≠ '"' := by
  rintro rfl
  exact absurd h (by decide)

theorem stringLength_eq_zero {c : Char} (h : c ≠ '"') (cs : List Char) :
    Lexeme.stringLength (c :: cs) = 0 := by
  unfold Lexeme.stringLength
  split
  · rename_i heq
    exact absurd (List.cons.inj heq).1 h
  · rfl

theorem stringLength_quote (rest : List Char) :
    Lexeme.stringLength ('"' :: rest) = if (rest.takeWhile (· ≠ '"')).length < rest.length
      then (rest.takeWhile (· ≠ '"')).length + 2
      else (rest.takeWhile (· ≠ '"')).length + 1 := rfl

theorem stringLength_closed {inner : List Char} (free : '"' ∉ inner) (behind : List Char) :
    Lexeme.stringLength ('"' :: (inner ++ '"' :: behind)) = inner.length + 2 := by
  have htake : (inner ++ '"' :: behind).takeWhile (· ≠ '"') = inner :=
    takeWhile_append (fun x hx => decide_eq_true fun he => free (he ▸ hx)) rfl
  rw [stringLength_quote, htake, if_pos (by simp)]

theorem stringLength_unclosed {inner : List Char} (free : '"' ∉ inner) :
    Lexeme.stringLength ('"' :: inner) = inner.length + 1 := by
  have htake : inner.takeWhile (· ≠ '"') = inner :=
    List.takeWhile_eq_self_iff.mpr fun x hx => decide_eq_true fun he => free (he ▸ hx)
  rw [stringLength_quote, htake, if_neg (Nat.lt_irrefl _)]

theorem nameLength_word {c : Char} {more behind : List Char} (start : isNameStart c = true)
    (chars : ∀ x ∈ more, isNameChar x = true) (ends : behind.head?.any isNameChar = false) :
    nameLength (c :: (more ++ behind)) = more.length + 1 := by
  rw [nameLength, if_pos start, takeWhile_append chars ends, Nat.add_comm]

theorem takeWhile_isDigit {behind : List Char} (ends : behind.head?.any isDigit = false) :
    behind.takeWhile isDigit = [] :=
  takeWhile_append (l := []) nofun ends

theorem length_cons (c : Char) (rest : List Char) :
    Lexeme.length (c :: rest) = max 1 (max (Lexeme.stringLength (c :: rest))
      (max (nameLength (c :: rest)) (Lexeme.numberLength (c :: rest)))) := rfl

/-- Lexemes are measured as recovery measures them. -/
theorem IsLexeme.length_eq {l behind : List Char} (h : IsLexeme l behind) :
    Lexeme.length (l ++ behind) = l.length := by
  cases h with
  | @closed inner behind free =>
      have hshape : '"' :: (inner ++ ['"']) ++ behind = '"' :: (inner ++ '"' :: behind) := by simp
      rw [hshape, length_cons, stringLength_closed free, nameLength_eq_zero (by decide),
        numberLength_eq_zero (by decide)]
      simp
  | unclosed free =>
      rw [List.append_nil, length_cons, stringLength_unclosed free,
        nameLength_eq_zero (by decide), numberLength_eq_zero (by decide)]
      simp
  | word start chars ends =>
      rw [List.cons_append, length_cons, stringLength_eq_zero (ne_quote_of_isNameStart start),
        nameLength_word start chars ends, numberLength_eq_zero (isDigit_of_isNameStart start)]
      simp
  | @whole c more behind digits ends noFraction =>
      have hfirst := digits c List.mem_cons_self
      have hnumber := numberLength_append (List.cons_ne_nil c more) digits (takeWhile_isDigit ends)
      have hnone : fractionLength behind = 0 := by
        unfold fractionLength
        split
        · rename_i rest
          cases rest with
          | nil => rfl
          | cons x rest => simp [noFraction x rest rfl]
        · rfl
      rw [hnone] at hnumber
      rw [List.cons_append] at hnumber ⊢
      rw [length_cons, stringLength_eq_zero (ne_quote_of_isDigit hfirst),
        nameLength_eq_zero (isNameStart_of_isDigit hfirst), hnumber]
      simp
  | @fraction c d more digits behind before after ends =>
      have hfirst := before c List.mem_cons_self
      have hpoint : ('.' :: (d :: digits ++ behind)).takeWhile isDigit = [] :=
        takeWhile_isDigit (show isDigit '.' = false by decide)
      have hnumber := numberLength_append (List.cons_ne_nil c more) before hpoint
      have hfraction : fractionLength ('.' :: (d :: digits ++ behind)) = digits.length + 2 := by
        rw [fractionLength, takeWhile_append after ends]
        simp
        omega
      rw [hfraction] at hnumber
      have hshape : c :: more ++ '.' :: d :: digits ++ behind
          = c :: (more ++ '.' :: (d :: digits ++ behind)) := by simp
      rw [List.cons_append] at hnumber
      rw [hshape, length_cons, stringLength_eq_zero (ne_quote_of_isDigit hfirst),
        nameLength_eq_zero (isNameStart_of_isDigit hfirst), hnumber]
      simp
      omega
  | single solid noQuote noName noDigit =>
      rw [List.cons_append, length_cons, stringLength_eq_zero noQuote, nameLength_eq_zero noName,
        numberLength_eq_zero noDigit]
      rfl

/-- A text has at most one lexeme at its start. -/
theorem IsLexeme.unique {l l' behind behind' : List Char} (h : IsLexeme l behind)
    (h' : IsLexeme l' behind') (same : l ++ behind = l' ++ behind') :
    l = l' ∧ behind = behind' := by
  refine List.append_inj same ?_
  rw [← h.length_eq, ← h'.length_eq, same]

theorem exists_isLexeme_quote (rest : List Char) :
    ∃ l behind, '"' :: rest = l ++ behind ∧ IsLexeme l behind := by
  obtain ⟨inner, behind, rfl, hfree, rfl | ⟨more, rfl⟩⟩ := exists_before '"' rest
  · exact ⟨'"' :: inner, [], by simp, .unclosed hfree⟩
  · exact ⟨'"' :: (inner ++ ['"']), more, by simp, .closed hfree⟩

theorem exists_isLexeme_digit {c : Char} (hc : isDigit c = true) (rest : List Char) :
    ∃ l behind, c :: rest = l ++ behind ∧ IsLexeme l behind := by
  obtain ⟨more, behind, rfl, hmore, hends⟩ := exists_span isDigit rest
  have hdigits : ∀ x ∈ c :: more, isDigit x = true := List.forall_mem_cons.mpr ⟨hc, hmore⟩
  by_cases hfraction : ∃ d tail, behind = '.' :: d :: tail ∧ isDigit d = true
  · obtain ⟨d, tail, rfl, hd⟩ := hfraction
    obtain ⟨digits, behind, rfl, hafter, hends⟩ := exists_span isDigit tail
    have hafter : ∀ x ∈ d :: digits, isDigit x = true := List.forall_mem_cons.mpr ⟨hd, hafter⟩
    exact ⟨_, behind, by simp, .fraction hdigits hafter hends⟩
  · refine ⟨c :: more, behind, rfl, .whole hdigits hends fun d tail hbehind => ?_⟩
    cases hd : isDigit d with
    | false => rfl
    | true => exact absurd ⟨d, tail, hbehind, hd⟩ hfraction

/-- A text that does not begin with a blank begins with a lexeme. -/
theorem exists_isLexeme {c : Char} (solid : isBlank c = false) (rest : List Char) :
    ∃ l behind, c :: rest = l ++ behind ∧ IsLexeme l behind := by
  by_cases hquote : c = '"'
  · exact hquote ▸ exists_isLexeme_quote rest
  cases hname : isNameStart c with
  | true =>
      obtain ⟨more, behind, rfl, hmore, hends⟩ := exists_span isNameChar rest
      exact ⟨c :: more, behind, rfl, .word hname hmore hends⟩
  | false =>
      cases hdigit : isDigit c with
      | true => exact exists_isLexeme_digit hdigit rest
      | false => exact ⟨[c], rest, rfl, .single solid hquote hname hdigit⟩

-- ==================================================================== gaps

theorem gapLength_blank {c : Char} (h : isBlank c = true) (rest : List Char) :
    gapLength false (c :: rest) = gapLength false rest + 1 := by
  have hslash : (c == '/') = false := beq_false_of_ne fun he => by
    rw [he] at h
    exact absurd h (by decide)
  cases rest with
  | nil => simp [gapLength, h]
  | cons d rest => simp [gapLength, h, hslash]

theorem gapLength_solid {cs : List Char} (solid : cs.head?.any isBlank = false)
    (noComment : ¬ ['/', '/'] <+: cs) : gapLength false cs = 0 := by
  match cs with
  | [] => rfl
  | [c] => simpa [gapLength] using solid
  | c :: d :: rest =>
    have hcomment : (c == '/' && d == '/') = false := by
      refine Bool.eq_false_iff.mpr fun hslash => noComment ?_
      obtain ⟨hc, hd⟩ := Bool.and_eq_true _ _ ▸ hslash
      rw [beq_iff_eq] at hc hd
      exact ⟨rest, by rw [hc, hd]; rfl⟩
    simpa [gapLength, hcomment] using solid

theorem gapLength_toEnd {body : List Char} (inLine : '\n' ∉ body) :
    gapLength true body = body.length := by
  match body with
  | [] => rfl
  | [_] => rfl
  | x :: y :: rest =>
    rw [List.mem_cons, not_or] at inLine
    have hstay : decide (x ≠ '\n') = true := decide_eq_true (Ne.symm inLine.1)
    rw [gapLength, if_pos rfl, hstay, gapLength_toEnd inLine.2, List.length_cons,
      List.length_cons, List.length_cons]

/-- A comment goes to the end of its line, or of the text. -/
theorem gapLength_inLine {body more : List Char} (inLine : '\n' ∉ body)
    (ends : more.head? = none ∨ more.head? = some '\n') :
    gapLength true (body ++ more) = body.length + gapLength false more := by
  cases more with
  | nil =>
      rw [List.append_nil, gapLength_toEnd inLine]
      rfl
  | cons c more =>
      have hc : c = '\n' := by simpa using ends
      rw [hc, gapLength_line inLine, gapLength_blank (by decide)]
      omega

theorem gapLength_slashes (rest : List Char) :
    gapLength false ('/' :: '/' :: rest) = gapLength true rest + 2 := rfl

/-- Gaps are measured as recovery measures them. -/
theorem IsGap.length_eq {gap behind : List Char} (h : IsGap gap behind) :
    gapLength false (gap ++ behind) = gap.length := by
  induction h with
  | nil solid noComment => exact gapLength_solid solid noComment
  | blank blank _ ih => rw [List.cons_append, gapLength_blank blank, ih, List.length_cons]
  | @comment body gap behind inLine ends _ ih =>
      rw [List.cons_append, List.cons_append, List.append_assoc, gapLength_slashes,
        gapLength_inLine inLine ends, ih]
      simp only [List.length_cons, List.length_append]

/-- Every text begins with a gap. -/
theorem exists_isGap (cs : List Char) : ∃ gap behind, cs = gap ++ behind ∧ IsGap gap behind := by
  induction hlength : cs.length using Nat.strong_induction_on generalizing cs with
  | _ n ih =>
    by_cases hblank : cs.head?.any isBlank = true
    · obtain ⟨c, hhead, hc⟩ := (Option.any_eq_true _ _).mp hblank
      obtain ⟨rest, rfl⟩ := List.head?_eq_some_iff.mp hhead
      obtain ⟨gap, behind, rfl, hgap⟩ := ih rest.length (by rw [← hlength]; simp) rest rfl
      exact ⟨c :: gap, behind, rfl, .blank hc hgap⟩
    by_cases hcomment : ['/', '/'] <+: cs
    · obtain ⟨rest, rfl⟩ := hcomment
      obtain ⟨body, more, rfl, hbody, hends⟩ := exists_before '\n' rest
      have hshorter : more.length < n := by
        rw [← hlength]
        simp only [List.length_append, List.length_cons]
        omega
      obtain ⟨gap, behind, rfl, hgap⟩ := ih _ hshorter _ rfl
      refine ⟨'/' :: '/' :: (body ++ gap), behind, by simp, .comment hbody ?_ hgap⟩
      rcases hends with hends | ⟨rest, hends⟩
      · exact .inl (by rw [hends]; rfl)
      · exact .inr (by rw [hends]; rfl)
    · exact ⟨[], cs, rfl, .nil (by simpa using hblank) hcomment⟩

/-- Just one gap is at the start of a text. -/
theorem IsGap.unique {gap gap' behind behind' : List Char} (h : IsGap gap behind)
    (h' : IsGap gap' behind') (same : gap ++ behind = gap' ++ behind') :
    gap = gap' ∧ behind = behind' := by
  refine List.append_inj same ?_
  rw [← h.length_eq, ← h'.length_eq, same]

/-- What stands behind a gap begins with a lexeme, if anything does. -/
theorem IsGap.solid {gap behind : List Char} (h : IsGap gap behind) :
    behind.head?.any isBlank = false := by
  induction h with
  | nil solid => exact solid
  | blank _ _ ih | comment _ _ _ ih => exact ih

end Lox.Recovery
