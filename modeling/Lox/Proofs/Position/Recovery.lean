/-
How far recovery goes. Reading resumes on the text, never to the left of the fault
that it recovers from, and strictly to the right of it as long as any text is left.
-/
import Lox.Proofs.Position.Text
import Lox.Source.Recovery

namespace Lox.Cursor

variable {text : List Char} {c : Cursor}

-- ================================================================== offsets

theorem offset_advance (c : Cursor) (n : Nat) :
    (c.advance n).offset = c.offset + min n c.rest.length := by
  induction n generalizing c with
  | zero => simp
  | succ n ih =>
      rw [advance_succ, ih, rest_next, List.length_drop]
      cases hrest : c.rest with
      | nil =>
          have hnext : c.next = c := by
            unfold next
            rw [hrest]
          rw [hnext]
          simp
      | cons x rest =>
          have hnext : c.next.offset = c.offset + 1 := by
            unfold next
            rw [hrest]
            split
            · rename_i h
              cases h
            · rfl
            · rfl
          rw [hnext, List.length_cons]
          omega

theorem offset_le_advance (c : Cursor) (n : Nat) : c.offset ≤ (c.advance n).offset := by
  rw [offset_advance]
  omega

theorem offset_le_resumeWithin (c : Cursor) (fuel : Nat) :
    c.offset ≤ (c.resumeWithin fuel).offset := by
  induction fuel generalizing c with
  | zero => exact Nat.le_refl _
  | succ fuel ih =>
      have hafter : c.offset ≤ c.passLexeme.offset :=
        Nat.le_trans (c.offset_le_advance _) (offset_le_advance _ _)
      unfold resumeWithin
      dsimp only
      split
      · exact Nat.le_refl _
      split
      · exact hafter
      · exact Nat.le_trans hafter (ih _)

theorem offset_le_resume (c : Cursor) : c.offset ≤ c.resume.offset :=
  Nat.le_trans (c.offset_le_advance _) (offset_le_resumeWithin _ _)

/-- Where any text is left, recovery goes on further to the right. -/
theorem offset_lt_resume (h : c.rest ≠ []) : c.offset < c.resume.offset := by
  have hpos : 0 < c.rest.length := List.length_pos_iff.mpr h
  cases hgap : c.skipGap.rest with
  | nil =>
      -- The gap takes all that is left.
      have hlength : c.rest.length ≤ gapLength false c.rest := by
        have hnil : c.rest.drop (gapLength false c.rest) = [] := by
          rw [← rest_advance]
          exact hgap
        exact List.drop_eq_nil_iff.mp hnil
      have hskip : c.offset < c.skipGap.offset := by
        unfold skipGap
        rw [offset_advance]
        omega
      exact Nat.lt_of_lt_of_le hskip (offset_le_resumeWithin _ _)
  | cons x rest =>
      have hlexeme : 0 < c.skipGap.lexeme.length := by
        unfold lexeme Text.Lexeme.length
        rw [hgap, List.length_take, List.length_cons]
        simp only [List.isEmpty_cons, Bool.false_eq_true, if_false]
        omega
      have hpass : c.offset < c.skipGap.passLexeme.offset := by
        have hgapped : c.offset ≤ c.skipGap.offset := c.offset_le_advance _
        have hlexed : c.skipGap.offset < (c.skipGap.advance c.skipGap.lexeme.length).offset := by
          rw [offset_advance, hgap, List.length_cons]
          omega
        have hbehind : (c.skipGap.advance c.skipGap.lexeme.length).offset
            ≤ c.skipGap.passLexeme.offset := offset_le_advance _ _
        omega
      obtain ⟨fuel, hfuel⟩ : ∃ fuel, c.rest.length = fuel + 1 :=
        ⟨c.rest.length - 1, by omega⟩
      have hend : c.skipGap.atEnd = false := by
        unfold atEnd
        rw [hgap]
        rfl
      unfold resume
      rw [hfuel]
      unfold resumeWithin
      dsimp only
      rw [hend]
      simp only [Bool.false_eq_true, if_false]
      split
      · exact hpass
      · exact Nat.lt_of_lt_of_le hpass (offset_le_resumeWithin _ _)

/-- On a text, offset and rest make up its length. -/
theorem On.offset_add_length (h : c.On text) : c.offset + c.rest.length = text.length := by
  obtain ⟨k, hk, rfl⟩ := h
  rw [advance_start hk]
  show k + (text.drop k).length = _
  rw [List.length_drop]
  omega

-- ============================================================== on the text

theorem On.skipGap (h : c.On text) : c.skipGap.On text := h.advance _

theorem On.resumeWithin (h : c.On text) (fuel : Nat) : (c.resumeWithin fuel).On text := by
  induction fuel generalizing c with
  | zero => exact h
  | succ fuel ih =>
      have hafter : c.passLexeme.On text := (h.advance _).skipGap
      unfold Cursor.resumeWithin
      dsimp only
      split
      · exact h
      split
      · exact hafter
      · exact ih hafter

/-- Recovery stays on the text. -/
theorem On.resume (h : c.On text) : c.resume.On text := h.skipGap.resumeWithin _

end Lox.Cursor
