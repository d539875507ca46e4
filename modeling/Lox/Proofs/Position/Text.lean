/-
Where an offset of a text lies. The line counts the newlines before the offset and
the column what stands behind the last of them; both are read off the text itself.
A cursor that was moved from the start of a text is at the place of its offset
(`Cursor.advance_start`), and a window on the text shows the line of every place
in it with a caret below (`Diagnostic.windowRows_shows`).
-/
import Lox.Diagnostic.Context
import Lox.Source.Cursor
import Lox.Grammar.Words
import Mathlib.Data.List.DropRight

namespace Lox

namespace Text

/-- The number of the line of an offset: one more than there are newlines before it. -/
def lineAt (text : List Char) (k : Nat) : Nat := (text.take k).count '\n' + 1

/-- The distance of an offset from the last newline before it; where there is none, it is counted
as if one stood before the text. -/
def columnAt (text : List Char) (k : Nat) : Nat :=
  ((text.take k).rtakeWhile (· ≠ '\n')).length + 1

variable {text rest : List Char} {c : Char} {k : Nat}

theorem take_succ_of_drop (h : text.drop k = c :: rest) :
    text.take (k + 1) = text.take k ++ [c] := by
  have hc : text[k]? = some c := by rw [← List.head?_drop, h]; rfl
  rw [List.take_add_one, hc]
  rfl

theorem lineAt_succ (h : text.drop k = c :: rest) :
    lineAt text (k + 1) = if c = '\n' then lineAt text k + 1 else lineAt text k := by
  unfold lineAt
  rw [take_succ_of_drop h, List.count_append]
  by_cases hc : c = '\n'
  · simp [hc]
  · simp [hc]

theorem columnAt_succ (h : text.drop k = c :: rest) :
    columnAt text (k + 1) = if c = '\n' then 1 else columnAt text k + 1 := by
  unfold columnAt
  rw [take_succ_of_drop h, List.rtakeWhile_concat]
  by_cases hc : c = '\n'
  · simp [hc]
  · simp [hc]

/-- There is one line more than there are newlines. -/
theorem length_lines (text : List Char) : (lines text).length = text.count '\n' + 1 := by
  fun_induction lines text with
  | case1 => rfl
  | case2 rest ih => simp [ih]
  | case3 c rest hc hempty ih => exact absurd hempty (lines_ne_nil rest)
  | case4 c rest hc first others hlines ih =>
      have hc : c ≠ '\n' := fun h => hc h
      rw [hlines] at ih
      simpa [List.count_cons, hc] using ih

/-- A newline parts the lines before it from those behind it. -/
theorem lines_append_newline (before behind : List Char) :
    lines (before ++ '\n' :: behind) = lines before ++ lines behind := by
  induction before with
  | nil => rfl
  | cons c before ih =>
      by_cases hc : c = '\n'
      · subst hc
        exact congrArg ([] :: ·) ih
      · rw [List.cons_append, lines.eq_3 _ _ hc, lines.eq_3 _ _ hc, ih]
        cases hlines : lines before with
        | nil => exact absurd hlines (lines_ne_nil before)
        | cons first others => rfl

/-- Up to the first newline a text adds to its first line. -/
theorem lines_append {before : List Char} (h : '\n' ∉ before) {behind first : List Char}
    {others : List (List Char)} (hbehind : lines behind = first :: others) :
    lines (before ++ behind) = (before ++ first) :: others := by
  induction before with
  | nil => exact hbehind
  | cons c before ih =>
      obtain ⟨hc, hbefore⟩ : c ≠ '\n' ∧ '\n' ∉ before := by simpa [eq_comm] using h
      rw [List.cons_append, lines.eq_3 _ _ hc, ih hbefore]
      rfl

/-- The text before an offset: whole lines, and the part of its own line that stands before it. -/
theorem take_eq_lines (text : List Char) (k : Nat) :
    ∃ before part, text.take k = before ++ part ∧ '\n' ∉ part
      ∧ columnAt text k = part.length + 1 ∧ lineAt text k = before.count '\n' + 1
      ∧ (before = [] ∨ ∃ whole, before = whole ++ ['\n']) := by
  have hsplit := List.rdropWhile_append_rtakeWhile (p := (· ≠ '\n')) (l := text.take k)
  have hpart : '\n' ∉ (text.take k).rtakeWhile (· ≠ '\n') := fun hmem => by
    simpa using List.mem_rtakeWhile_imp hmem
  refine ⟨_, _, hsplit.symm, hpart, rfl, ?_, ?_⟩
  · have hcount := congrArg (List.count '\n') hsplit
    rw [List.count_append, List.count_eq_zero_of_not_mem hpart, Nat.add_zero] at hcount
    rw [lineAt, hcount]
  · by_cases hnil : (text.take k).rdropWhile (· ≠ '\n') = []
    · exact .inl hnil
    · have hlast := List.rdropWhile_last_not (· ≠ '\n') (text.take k) hnil
      have hlast : ((text.take k).rdropWhile (· ≠ '\n')).getLast hnil = '\n' := by
        simpa using hlast
      have hends := List.dropLast_append_getLast hnil
      rw [hlast] at hends
      exact .inr ⟨_, hends.symm⟩

/-- The line of an offset is one of the lines of the text, and reaches up to its column. -/
theorem exists_line (text : List Char) (k : Nat) :
    ∃ content, (lines text)[lineAt text k - 1]? = some content
      ∧ columnAt text k ≤ content.length + 1 := by
  obtain ⟨before, part, htake, hpart, hcolumn, hline, hbefore⟩ := take_eq_lines text k
  have htext : text = before ++ (part ++ text.drop k) := by
    rw [← List.append_assoc, ← htake, List.take_append_drop]
  cases hlines : lines (text.drop k) with
  | nil => exact absurd hlines (lines_ne_nil _)
  | cons first others =>
      have hown := lines_append hpart hlines
      refine ⟨part ++ first, ?_, ?_⟩
      · rw [hline, Nat.add_sub_cancel]
        rcases hbefore with rfl | ⟨whole, rfl⟩
        · rw [htext, List.nil_append, hown]
          rfl
        · rw [htext, List.append_assoc, List.singleton_append, lines_append_newline, hown,
            List.getElem?_append_right (by simp [length_lines])]
          simp [length_lines]
      · rw [hcolumn, List.length_append]
        omega

end Text

-- ================================================================ the window

namespace Diagnostic

/-- Every window on a line of the text shows the line, and the caret below it. -/
theorem windowRows_shows {source content : List Char} {n : Nat} {column margin : Int}
    (h : (Text.lines source)[n]? = some content) (hmargin : 0 ≤ margin) :
    [numberedLine (n + 1) content, caretLine column]
      <:+: windowRows source (n + 1 : Nat) column margin := by
  have hmem : (content, n + 1) ∈ (Text.lines source).zipIdx 1 :=
    List.mem_of_getElem? (i := n) (by rw [List.getElem?_zipIdx, h, Nat.add_comm 1 n]; rfl)
  obtain ⟨earlier, later, hsplit⟩ := List.append_of_mem hmem
  unfold windowRows
  dsimp only
  rw [hsplit, List.flatMap_append, List.flatMap_cons]
  have hshown : ((n + 1 : Nat) : Int) - margin ≤ (n + 1 : Nat)
      ∧ ((n + 1 : Nat) : Int) ≤ (n + 1 : Nat) + margin := by omega
  simp only [hshown.1, hshown.2, decide_true, Bool.and_self, if_true]
  exact ⟨_, _, List.append_assoc _ _ _⟩

end Diagnostic

-- ============================================================ places of a text

/-- A place of a text: line, column and offset belong together. -/
structure Place.At (text : List Char) (k : Nat) (p : Place) : Prop where
  within : k ≤ text.length
  offset : p.offset = k
  line : p.line = Text.lineAt text k
  column : p.column = Text.columnAt text k

def Place.On (text : List Char) (p : Place) : Prop := ∃ k, p.At text k

namespace Cursor

variable {text : List Char} {c : Cursor} {k : Nat}

/-- Moving from the start of a text keeps count of lines and columns. -/
theorem advance_start (h : k ≤ text.length) :
    (start text).advance k
      = ⟨(text.take k).getLast?, text.drop k, k, Text.lineAt text k, Text.columnAt text k⟩ := by
  induction k with
  | zero => rfl
  | succ k ih =>
      cases hrest : text.drop k with
      | nil =>
          have := List.drop_eq_nil_iff.mp hrest
          omega
      | cons x rest =>
          have hdrop : text.drop (k + 1) = rest := by
            rw [← List.drop_drop, hrest]
            rfl
          rw [advance_add, ih (Nat.le_of_succ_le h), hrest, hdrop, Text.take_succ_of_drop hrest,
            Text.lineAt_succ hrest, Text.columnAt_succ hrest, List.getLast?_concat]
          show next _ = _
          unfold next
          by_cases hx : x = '\n'
          · subst hx
            rfl
          · rw [if_neg hx, if_neg hx]
            split
            · rename_i heq
              cases heq
            · rename_i heq
              cases heq
              exact absurd rfl hx
            · rename_i heq
              cases heq
              rfl

/-- A cursor that was moved over a text. -/
def On (text : List Char) (c : Cursor) : Prop :=
  ∃ k, k ≤ text.length ∧ c = (start text).advance k

/-- At the end of the text the cursor stays. -/
theorem advance_of_rest_nil (h : c.rest = []) (n : Nat) : c.advance n = c := by
  induction n with
  | zero => rfl
  | succ n ih =>
      have hnext : c.next = c := by
        unfold next
        rw [h]
      rw [advance_succ, hnext, ih]

theorem on_start (text : List Char) : (start text).On text := ⟨0, Nat.zero_le _, rfl⟩

theorem On.advance (h : c.On text) (n : Nat) : (c.advance n).On text := by
  obtain ⟨k, hk, rfl⟩ := h
  by_cases hn : k + n ≤ text.length
  · exact ⟨k + n, hn, (advance_add _ k n).symm⟩
  · refine ⟨text.length, Nat.le_refl _, ?_⟩
    have hsplit : n = (text.length - k) + (n - (text.length - k)) := by omega
    have hend : ((start text).advance (k + (text.length - k))).rest = [] := by
      rw [rest_advance]
      exact List.drop_eq_nil_of_le (show text.length ≤ _ by omega)
    rw [hsplit, advance_add, ← advance_add _ k, advance_of_rest_nil hend]
    congr 1
    omega

/-- A cursor on a text is at the place of its offset, in front of what is left. -/
theorem On.place_at (h : c.On text) :
    ∃ k, c.place.At text k ∧ c.rest = text.drop k ∧ c.previous = (text.take k).getLast? := by
  obtain ⟨k, hk, rfl⟩ := h
  rw [advance_start hk]
  exact ⟨k, ⟨hk, rfl, rfl, rfl⟩, rfl, rfl⟩

theorem On.place_on (h : c.On text) : c.place.On text :=
  let ⟨k, hk, _⟩ := h.place_at
  ⟨k, hk⟩

/-- Behind a character that ends no line, its place is one column to the left. -/
theorem On.before_on (h : c.On text) {x : Char} (hprevious : c.previous = some x)
    (hx : x ≠ '\n') : (Parser.before c.place).On text := by
  obtain ⟨k, hk, -, hlast⟩ := h.place_at
  rw [hprevious] at hlast
  cases k with
  | zero => cases hlast
  | succ k =>
      have hwithin := hk.within
      obtain ⟨y, rest, hdrop⟩ : ∃ y rest, text.drop k = y :: rest :=
        List.exists_cons_of_length_pos (by rw [List.length_drop]; omega)
      rw [Text.take_succ_of_drop hdrop, List.getLast?_concat] at hlast
      cases hlast
      refine ⟨k, by omega, ?_, ?_, ?_⟩
      · show c.place.offset - 1 = _
        rw [hk.offset]
        omega
      · show c.place.line = _
        rw [hk.line, Text.lineAt_succ hdrop, if_neg hx]
      · show c.place.column - 1 = _
        rw [hk.column, Text.columnAt_succ hdrop, if_neg hx]
        omega

end Cursor

end Lox
