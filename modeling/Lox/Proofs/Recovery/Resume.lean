/-
Where recovery resumes. It throws lexemes away one by one, each with the gap behind it
(`Recovery.Throws`), until it comes to a place where reading can go on (`Recovery.Stops`).
On the way there always is a next lexeme, and the place it comes to is the first of its
kind, though at least one lexeme is gone (`Recovery.FirstStop`).

A semicolon in a string or a comment is no lexeme, and a word in one begins none, so
neither of them can stop recovery.
-/
import Lox.Proofs.Recovery.Lexeme

namespace Lox

namespace Recovery

open Text

/-- A lexeme at the start of a text is thrown away, and the gap behind it. -/
def Throws (l before after : List Char) : Prop :=
  ∃ gap, before = l ++ (gap ++ after) ∧ IsLexeme l (gap ++ after) ∧ IsGap gap after

/-- Lexemes are thrown away one after the other. -/
inductive Thrown : List (List Char) → List Char → List Char → Prop
  | nil {cs : List Char} : Thrown [] cs cs
  | cons {l before mid after : List Char} {ls : List (List Char)} (first : Throws l before mid)
      (more : Thrown ls mid after) : Thrown (l :: ls) before after

/-- Reading can go on behind the lexeme `l`: the text ends, or `l` was a semicolon, or the next
lexeme begins a statement. -/
def Stops (l after : List Char) : Prop :=
  after = [] ∨ l = [';']
    ∨ ∃ word ∈ statementWords, ∃ behind, after = word.toList ++ behind
      ∧ IsLexeme word.toList behind

/-- The first place behind at least one lexeme where reading can go on. -/
def FirstStop (start after : List Char) : Prop :=
  ∃ ls l, Thrown (ls ++ [l]) start after ∧ Stops l after
    ∧ ∀ front l' after', Thrown (front ++ [l']) start after' → Stops l' after' →
      ls.length ≤ front.length

/-- Wherever lexemes were thrown away and text is left, there is another one. -/
def NeverStuck (start : List Char) : Prop :=
  ∀ ls after, Thrown ls start after → after ≠ [] → ∃ l rest, Throws l after rest

variable {l l' start before mid mid' after after' : List Char} {ls : List (List Char)}

-- ================================================================== lexemes

/-- A text that does not begin with a blank begins with a lexeme that can be thrown away. -/
theorem exists_throws (solid : before.head?.any isBlank = false) (hne : before ≠ []) :
    ∃ l after, Throws l before after := by
  cases before with
  | nil => exact absurd rfl hne
  | cons c rest =>
      obtain ⟨l, behind, hshape, hl⟩ := exists_isLexeme (by simpa using solid) rest
      obtain ⟨gap, after, rfl, hgap⟩ := exists_isGap behind
      exact ⟨l, after, gap, hshape, hl, hgap⟩

/-- It is thrown away in one way only. -/
theorem Throws.unique (h : Throws l before mid) (h' : Throws l' before mid') :
    l = l' ∧ mid = mid' := by
  obtain ⟨gap, rfl, hl, hgap⟩ := h
  obtain ⟨gap', hshape, hl', hgap'⟩ := h'
  obtain ⟨rfl, hbehind⟩ := hl.unique hl' hshape
  exact ⟨rfl, (hgap.unique hgap' hbehind).2⟩

theorem Throws.solid (h : Throws l before after) : after.head?.any isBlank = false := by
  obtain ⟨_, -, -, hgap⟩ := h
  exact hgap.solid

theorem Thrown.solid (h : Thrown ls before after) (solid : before.head?.any isBlank = false) :
    after.head?.any isBlank = false := by
  induction h with
  | nil => exact solid
  | cons first _ ih => exact ih first.solid

/-- Behind a gap recovery is never stuck. -/
theorem neverStuck (solid : start.head?.any isBlank = false) : NeverStuck start :=
  fun _ _ h hne => exists_throws (h.solid solid) hne

theorem IsLexeme.ne_nil {behind : List Char} (h : IsLexeme l behind) : l ≠ [] := by
  cases h <;> simp

/-- What is thrown away makes the text shorter. -/
theorem Throws.length_lt (h : Throws l before after) : after.length < before.length := by
  obtain ⟨gap, rfl, hl, -⟩ := h
  have hpos := List.length_pos_iff.mpr hl.ne_nil
  simp only [List.length_append]
  omega

-- ==================================================================== stops

namespace FirstStop

/-- Recovery may stop behind the first lexeme. -/
theorem here (first : Throws l start after) (stops : Stops l after) : FirstStop start after :=
  ⟨[], l, .cons first .nil, stops, fun _ _ _ _ _ => Nat.zero_le _⟩

/-- Where it does not, it stops where it does from there on. -/
theorem further (first : Throws l start mid) (goesOn : ¬ Stops l mid) (h : FirstStop mid after) :
    FirstStop start after := by
  obtain ⟨ls, last, thrown, stops, least⟩ := h
  refine ⟨l :: ls, last, .cons first thrown, stops, fun front l' after' thrown' stops' => ?_⟩
  cases front with
  | nil =>
      -- A stop behind the first lexeme would be this one.
      cases thrown' with
      | cons first' more' =>
          obtain ⟨rfl, rfl⟩ := first.unique first'
          cases more'
          exact absurd stops' goesOn
  | cons x front =>
      cases thrown' with
      | cons first' more' =>
          obtain ⟨rfl, rfl⟩ := first.unique first'
          exact Nat.succ_le_succ (least front l' after' more' stops')

end FirstStop

end Recovery

namespace Cursor

open Recovery

variable {c : Cursor} {l behind : List Char}

-- ================================================================= the moves

/-- The cursor sees the lexeme in front of it. -/
theorem lexeme_eq (h : IsLexeme l behind) (hrest : c.rest = l ++ behind) : c.lexeme = l := by
  unfold lexeme
  rw [hrest, h.length_eq, List.take_left]

/-- It passes a whole lexeme and the gap behind it. -/
theorem passLexeme_eq {after : List Char} (h : Throws l c.rest after) :
    c.lexeme = l ∧ c.passLexeme.rest = after := by
  obtain ⟨gap, hrest, hl, hgap⟩ := h
  have hlexeme := lexeme_eq hl hrest
  refine ⟨hlexeme, ?_⟩
  unfold passLexeme skipGap
  rw [hlexeme, rest_advance, rest_advance, hrest, List.drop_left, hgap.length_eq, List.drop_left]

/-- It passes a whole gap. -/
theorem skipGap_eq {gap : List Char} (h : IsGap gap behind) (hrest : c.rest = gap ++ behind) :
    c.skipGap.rest = behind := by
  unfold skipGap
  rw [rest_advance, hrest, h.length_eq, List.drop_left]

/-- The test for a word that begins a statement finds whole lexemes only. -/
theorem atStatementWord_iff (solid : c.rest.head?.any Text.isBlank = false) :
    c.atStatementWord = true
      ↔ ∃ word ∈ statementWords, ∃ behind, c.rest = word.toList ++ behind
        ∧ IsLexeme word.toList behind := by
  have hword : ∀ word ∈ statementWords, word.toList ≠ [] := by decide
  unfold atStatementWord
  rw [List.any_eq_true]
  refine exists_congr fun word => and_congr_right fun hmem => ?_
  rw [beq_iff_eq]
  constructor
  · intro hsame
    have hne : c.rest ≠ [] := fun hnil => by
      unfold lexeme at hsame
      rw [hnil, List.take_nil] at hsame
      exact hword word hmem hsame
    obtain ⟨l, _, gap, hrest, hl, -⟩ := exists_throws solid hne
    rw [lexeme_eq hl hrest] at hsame
    exact ⟨_, hsame ▸ hrest, hsame ▸ hl⟩
  · rintro ⟨behind, hrest, hl⟩
    exact (lexeme_eq hl hrest).symm

/-- The cursor stops where reading can go on. -/
theorem stops_iff (solid : c.rest.head?.any Text.isBlank = false) :
    (l == [';'] || c.atEnd || c.atStatementWord) = true ↔ Stops l c.rest := by
  unfold Stops
  rw [Bool.or_eq_true, Bool.or_eq_true, atStatementWord_iff solid, beq_iff_eq, atEnd,
    List.isEmpty_iff]
  tauto

/-- Lexeme by lexeme recovery comes to the first place where reading can go on. -/
theorem firstStop_resumeWithin {fuel : Nat} (solid : c.rest.head?.any Text.isBlank = false)
    (hne : c.rest ≠ []) (enough : c.rest.length ≤ fuel) :
    FirstStop c.rest (c.resumeWithin fuel).rest := by
  induction fuel generalizing c with
  | zero => exact absurd (List.length_eq_zero_iff.mp (Nat.le_zero.mp enough)) hne
  | succ fuel ih =>
      obtain ⟨l, after, first⟩ := exists_throws solid hne
      obtain ⟨hlexeme, hafter⟩ := passLexeme_eq first
      have hsolid := first.solid
      have hshorter := first.length_lt
      rw [← hafter] at hsolid hshorter first
      have hend : c.atEnd = false := by
        unfold atEnd
        simpa using hne
      unfold resumeWithin
      rw [hend, hlexeme]
      dsimp only
      rw [if_neg Bool.false_ne_true]
      split
      · rename_i hstops
        exact .here first ((stops_iff hsolid).mp hstops)
      · rename_i hgoes
        have hgoes : ¬ Stops l c.passLexeme.rest := fun h => hgoes ((stops_iff hsolid).mpr h)
        have hrest : c.passLexeme.rest ≠ [] := fun h => hgoes (.inl h)
        exact .further first hgoes (ih hsolid hrest (by omega))

theorem firstStop_resume {gap start : List Char} (hrest : c.rest = gap ++ start)
    (hgap : IsGap gap start) (hne : start ≠ []) : FirstStop start c.resume.rest := by
  have hstart := skipGap_eq hgap hrest
  have hsolid := hgap.solid
  have henough : start.length ≤ c.rest.length := by
    rw [hrest, List.length_append]
    exact Nat.le_add_left _ _
  unfold resume
  rw [← hstart] at hsolid hne henough ⊢
  exact firstStop_resumeWithin hsolid hne henough

/-- A cursor on a text stands at its offset. -/
theorem On.eq_advance {text : List Char} (h : c.On text) :
    c = (Cursor.start text).advance c.offset ∧ c.rest = text.drop c.offset := by
  obtain ⟨k, hk, rfl⟩ := h
  have hoffset : ((Cursor.start text).advance k).offset = k := by rw [advance_start hk]
  rw [hoffset, rest_advance]
  exact ⟨rfl, rfl⟩

end Cursor

end Lox
