/-
What lies ahead of a cursor. A text can be laid out in many ways; all that counts
to the readers of the grammar is which words come next, as long as each of them
can be told from what stands around it. Nothing behind a word may make it longer,
and a reserved word must not touch another word in front of it.
-/
import Lox.Proofs.Reading.Program

namespace Lox

open Text Text.Lexeme

variable {cs : List Char} {w : Word} {ws : List Word}

theorem Word.Stands.isPrefix (h : w.Stands cs) : w.spelling <+: cs := by
  cases w with
  | symbol s => exact h.2.1
  | keyword s => exact h.2.1
  | name s =>
      rw [spelling, h.1]
      exact List.take_prefix _ _
  | number s =>
      rw [spelling, h.1]
      exact List.take_prefix _ _
  | string s => exact h.2

namespace Cursor

/-- Trivia aside, just these words are left of the text, whatever stands between them. -/
inductive Ahead : Cursor → List Word → Prop
  | nil {c : Cursor} (finished : trimmed c.rest = []) : Ahead c []
  | cons {c : Cursor} {w : Word} {ws : List Word} (stands : w.Stands (trimmed c.rest))
      (bounded : w.Bounded ((trimmed c.rest).drop w.spelling.length))
      (clear : w.Clear c.skipTrivia.previous)
      (further : Ahead (c.skipTrivia.advance w.spelling.length) ws) : Ahead c (w :: ws)

namespace Ahead

variable {c d : Cursor}

theorem skipTrivia (h : c.Ahead ws) : c.skipTrivia.Ahead ws := by
  cases h with
  | nil finished => exact .nil (by rwa [rest_skipTrivia, trimmed_trimmed])
  | cons stands bounded clear further =>
      refine .cons ?_ ?_ ?_ ?_
      · rwa [rest_skipTrivia, trimmed_trimmed]
      · rwa [rest_skipTrivia, trimmed_trimmed]
      · rwa [skipTrivia_skipTrivia]
      · rwa [skipTrivia_skipTrivia]

/-- Words that were passed up to the end, and that stand apart, lie ahead. -/
theorem of_passes (h : c.Passes ws d) (hend : trimmed d.rest = [])
    (happart : ws.IsChain Word.Apart) : c.Ahead ws := by
  induction h with
  | nil => exact .nil hend
  | cons stands clear further ih =>
      have hspans := further.spans
      rw [rest_advance, rest_skipTrivia] at hspans
      exact .cons stands (hspans.followed hend happart).bounded clear (ih hend happart.tail)

/-- Words that lie ahead can be written so that they are read back. -/
theorem valid (h : c.Ahead ws) : ∀ w ∈ ws, w.Valid := by
  induction h with
  | nil => nofun
  | cons stands bounded _ _ ih =>
      intro w hw
      rcases List.mem_cons.mp hw with rfl | hw
      · exact stands.valid bounded
      · exact ih w hw

/-- The words that lie ahead are the words of the text. -/
theorem words_eq (h : c.Ahead ws) : words c.rest = ws := by
  induction h with
  | nil finished => exact words_of_trimmed_nil finished
  | cons stands bounded _ _ ih =>
      rw [rest_advance, rest_skipTrivia] at ih
      rw [words_of_trimmed_ne (List.length_pos_iff.mp stands.length_pos.2),
        Word.first_eq stands bounded, ih]

theorem length_le (h : c.Ahead ws) : ws.length ≤ c.rest.length := by
  induction h with
  | nil => exact Nat.zero_le _
  | @cons c w ws stands _ _ _ ih =>
      have hlength := length_trimmed c.rest
      have hpos := stands.length_pos
      rw [rest_advance, rest_skipTrivia, List.length_drop] at ih
      rw [List.length_cons]
      omega

end Ahead

/-- The cursor stands right in front of the words that are left of the text. -/
structure InFront (c : Cursor) (ws : List Word) : Prop where
  ahead : c.Ahead ws
  settled : c.skipTrivia = c

namespace InFront

variable {c : Cursor} {more : List Word}

theorem trimmed_rest (h : c.InFront ws) : trimmed c.rest = c.rest := by
  rw [← rest_skipTrivia, h.settled]

theorem rest_nil (h : c.InFront []) : c.rest = [] := by
  have hsame := h.trimmed_rest
  cases h.ahead with
  | nil finished => rw [← hsame, finished]

theorem stands (h : c.InFront (w :: more)) : w.Stands c.rest := by
  have hsame := h.trimmed_rest
  cases h.ahead with
  | cons stands _ _ _ => rwa [hsame] at stands

/-- Nothing behind the word in front makes it longer. -/
theorem bounded (h : c.InFront (w :: more)) : w.Bounded (c.rest.drop w.spelling.length) := by
  have hsame := h.trimmed_rest
  cases h.ahead with
  | cons _ bounded _ _ => rwa [hsame] at bounded

/-- The word in front is the first of the text. -/
theorem first (h : c.InFront (w :: more)) : Word.first c.rest = w := Word.first_eq h.stands h.bounded

/-- A reserved word in front touches nothing. -/
theorem clear (h : c.InFront (w :: more)) : w.Clear c.previous := by
  have hsame := h.settled
  cases h.ahead with
  | cons _ _ clear _ => rwa [hsame] at clear

/-- Behind the word in front lie the others. -/
theorem next (h : c.InFront (w :: more)) : (c.advance w.spelling.length).Ahead more := by
  have hsame := h.settled
  cases h.ahead with
  | cons _ _ _ further => rwa [hsame] at further

theorem valid (h : c.InFront ws) : ∀ w ∈ ws, w.Valid := h.ahead.valid

/-- What is left of the text begins with the word in front. -/
theorem exists_rest (h : c.InFront (w :: more)) : ∃ rest, c.rest = w.spelling ++ rest := by
  obtain ⟨rest, hrest⟩ := h.stands.isPrefix
  exact ⟨rest, hrest.symm⟩

end InFront

theorem Ahead.inFront {c : Cursor} (h : c.Ahead ws) : c.skipTrivia.InFront ws :=
  ⟨h.skipTrivia, skipTrivia_skipTrivia c⟩

end Cursor

end Lox
