/-
The caret below the line at fault. A window is the lines around a fault with
their numbers, cut at the ends of the text, and a caret line right behind the line
itself. The rows are read off the window as it is printed, so a row is what
stands between two newlines.

A number of four digits or fewer is as wide as the blanks that the caret line has
in its place, and the caret stands below its column. Every digit more moves the
line by one and leaves the caret behind.
-/
import Lox.Proofs.Position.Text
import Mathlib.Data.List.Forall2

namespace Lox

namespace Text

/-- No line has a newline in it. -/
theorem newline_not_mem_lines (text : List Char) : ∀ line ∈ lines text, '\n' ∉ line := by
  fun_induction lines text with
  | case1 => simp
  | case2 rest ih => simpa using ih
  | case3 c rest hc hempty ih => exact absurd hempty (lines_ne_nil rest)
  | case4 c rest hc first others hlines ih =>
      have hc : '\n' ≠ c := fun h => hc h.symm
      rw [hlines] at ih
      simpa [hc] using ih

theorem lines_eq_singleton {row : List Char} (h : '\n' ∉ row) : lines row = [row] := by
  simpa using lines_append h (show lines [] = [[]] from rfl)

/-- Rows without newlines are the lines of the text that they make up. -/
theorem lines_intercalate {rows : List (List Char)} (hne : rows ≠ [])
    (h : ∀ row ∈ rows, '\n' ∉ row) : lines (['\n'].intercalate rows) = rows := by
  induction rows with
  | nil => exact absurd rfl hne
  | cons row rows ih =>
      have hrow : '\n' ∉ row := h row List.mem_cons_self
      cases rows with
      | nil => simpa using lines_eq_singleton hrow
      | cons next rows =>
          rw [List.intercalate_cons_cons, List.append_assoc, List.singleton_append,
            lines_append_newline, lines_eq_singleton hrow,
            ih (List.cons_ne_nil _ _) fun other hother => h other (List.mem_cons_of_mem _ hother)]
          rfl

/-- Newlines alone make empty lines. -/
theorem lines_replicate_newline (n : Nat) (behind : List Char) :
    lines (List.replicate n '\n' ++ behind) = List.replicate n [] ++ lines behind := by
  induction n with
  | zero => rfl
  | succ n ih => exact congrArg ([] :: ·) ih

end Text

namespace Diagnostic

/-- A row shows a line of a text: the number of the line, set right in at least four places, a bar
and the line itself. -/
def Shows (n : Nat) (content row : List Char) : Prop :=
  row = List.replicate (4 - (Nat.toDigits 10 n).length) ' '
    ++ (Nat.toDigits 10 n ++ (" | ".toList ++ content))

/-- In a row that ends in a line of a text, a column of the line stands at a position of the row.
Columns are counted from one, positions from nought. -/
def StandsAt (column : Nat) (content row : List Char) (position : Nat) : Prop :=
  ∃ front, row = front ++ content ∧ position + 1 = front.length + column

/-- The rows of one numbered line in a window. -/
def rowsOf (line column margin : Int) : List Char × Nat → List String :=
  fun (content, n) =>
    if line - margin ≤ n && n ≤ line + margin then
      numberedLine n content :: (if (n : Int) = line then [caretLine column] else [])
    else []

/-- Some lines with their numbers, the first of which is given. -/
def numberedLines (first : Nat) (contents : List (List Char)) : List String :=
  (contents.zipIdx first).map fun (content, n) => numberedLine n content

variable {source content : List Char} {line margin n first : Nat} {column : Int}
  {contents : List (List Char)}

-- ================================================================ the rows

theorem toList_numberedLine (n : Nat) (content : List Char) :
    Shows n content (numberedLine n content).toList := by
  unfold Shows numberedLine lineNumber
  have hlength : n.repr.length = (Nat.toDigits 10 n).length := by
    rw [← Nat.toList_repr, String.length_toList]
  simp [hlength]

theorem toList_caretLine (column : Nat) :
    (caretLine column).toList
      = "     | ".toList ++ (List.replicate (column - 1) ' ' ++ ['^']) := by
  unfold caretLine
  have hwidth : ((column : Int) - 1).toNat = column - 1 := by omega
  simp [hwidth]

/-- Lines beyond the margin are not shown. -/
theorem flatMap_rowsOf_far
    (h : ∀ n : Nat, first ≤ n → n < first + contents.length →
      (n : Int) < line - margin ∨ (line + margin : Int) < n) :
    (contents.zipIdx first).flatMap (rowsOf line column margin) = [] := by
  rw [List.flatMap_eq_nil_iff]
  rintro ⟨content, n⟩ hmem
  obtain ⟨hlow, hhigh, -⟩ := List.mem_zipIdx hmem
  have hfar : ¬ ((line : Int) - margin ≤ n ∧ (n : Int) ≤ line + margin) := by
    have hfar := h n hlow hhigh
    omega
  simpa [rowsOf] using hfar

/-- Lines within the margin are shown, with no caret unless they are the line at fault. -/
theorem flatMap_rowsOf_near
    (h : ∀ n : Nat, first ≤ n → n < first + contents.length →
      (line : Int) - margin ≤ n ∧ (n : Int) ≤ line + margin ∧ n ≠ line) :
    (contents.zipIdx first).flatMap (rowsOf line column margin) = numberedLines first contents := by
  unfold numberedLines
  rw [List.map_eq_flatMap]
  apply List.flatMap_congr
  rintro ⟨content, n⟩ hmem
  obtain ⟨hlow, hhigh, -⟩ := List.mem_zipIdx hmem
  obtain ⟨hfrom, hto, hne⟩ := h n hlow hhigh
  have hline : ¬ (n : Int) = line := by omega
  simp [rowsOf, hfrom, hto, hline]

/-- A window: the lines before the one at fault, as many as the margin allows, that line and the
caret line, and as many lines behind it. -/
theorem windowRows_eq (hpos : 1 ≤ line) (hline : (Text.lines source)[line - 1]? = some content)
    (margin : Nat) (column : Int) :
    windowRows source line column margin
      = numberedLines (line - margin - 1 + 1)
          (((Text.lines source).take (line - 1)).drop (line - margin - 1))
        ++ numberedLine line content :: caretLine column
        :: numberedLines (line + 1) (((Text.lines source).drop line).take margin) := by
  have hlt : line - 1 < (Text.lines source).length := (List.getElem?_eq_some_iff.1 hline).1
  have hown : (Text.lines source).drop (line - 1) = content :: (Text.lines source).drop line := by
    rw [List.drop_eq_getElem_cons hlt, Nat.sub_add_cancel hpos,
      (List.getElem?_eq_some_iff.1 hline).2]
  have hsplit : Text.lines source
      = ((Text.lines source).take (line - 1)).take (line - margin - 1)
        ++ (((Text.lines source).take (line - 1)).drop (line - margin - 1)
        ++ content :: (((Text.lines source).drop line).take margin
        ++ ((Text.lines source).drop line).drop margin)) := by
    rw [List.take_append_drop, ← hown, ← List.append_assoc, List.take_append_drop,
      List.take_append_drop]
  have hrows : windowRows source line column margin
      = ((Text.lines source).zipIdx 1).flatMap (rowsOf line column margin) := rfl
  have hcaret : rowsOf line column margin (content, line)
      = [numberedLine line content, caretLine column] := by
    have hbefore : (line : Int) - margin ≤ line := by omega
    have hafter : (line : Int) ≤ line + margin := by omega
    simp only [rowsOf, hbefore, hafter, decide_true, Bool.and_self, if_true]
  have hfirst : 1 + (((Text.lines source).take (line - 1)).take (line - margin - 1)).length
      = line - margin - 1 + 1 := by
    simp only [List.length_take]
    omega
  have hbefore : line - margin - 1 + 1
      + (((Text.lines source).take (line - 1)).drop (line - margin - 1)).length = line := by
    simp only [List.length_drop, List.length_take]
    omega
  rw [hrows]
  conv_lhs => rw [hsplit]
  rw [List.zipIdx_append, List.flatMap_append, hfirst, List.zipIdx_append, List.flatMap_append,
    hbefore, List.zipIdx_cons, List.flatMap_cons, hcaret, List.zipIdx_append, List.flatMap_append,
    flatMap_rowsOf_far, flatMap_rowsOf_near, flatMap_rowsOf_near, flatMap_rowsOf_far]
  · simp
  · intro n hlow hhigh
    simp only [List.length_take, List.length_drop] at hlow hhigh
    omega
  · intro n hlow hhigh
    simp only [List.length_take] at hhigh
    omega
  · intro n hlow hhigh
    rw [hbefore] at hhigh
    omega
  · intro n hlow hhigh
    simp only [List.length_take] at hhigh
    omega

/-- What stands before the line in its row: seven characters and the digits beyond the fourth. -/
theorem Shows.exists_front {row : List Char} (h : Shows n content row) :
    ∃ front, row = front ++ content ∧ '\n' ∉ front
      ∧ front.length = 7 + ((Nat.toDigits 10 n).length - 4) := by
  refine ⟨List.replicate (4 - (Nat.toDigits 10 n).length) ' '
    ++ (Nat.toDigits 10 n ++ " | ".toList), ?_, ?_, ?_⟩
  · rw [h, List.append_assoc, List.append_assoc]
  · have hdigits : '\n' ∉ Nat.toDigits 10 n := by
      intro hmem
      have hdigit : '\n'.isDigit = true :=
        Nat.isDigit_of_mem_toDigits (by decide) (by decide) hmem
      revert hdigit
      decide
    simp [hdigits]
  · have hbar : " | ".toList.length = 3 := by decide
    simp only [List.length_append, List.length_replicate, hbar]
    omega

/-- Lines that follow each other in a text are shown under the numbers that follow each other. -/
theorem numberedLines_shows (hpos : 1 ≤ first)
    (h : ∀ i content, contents[i]? = some content →
      (Text.lines source)[first - 1 + i]? = some content) :
    List.Forall₂ (fun row n => ∃ content, (Text.lines source)[n - 1]? = some content
        ∧ Shows n content row)
      ((numberedLines first contents).map String.toList) (List.range' first contents.length) := by
  induction contents generalizing first with
  | nil => exact .nil
  | cons content contents ih =>
      refine .cons ⟨content, h 0 content rfl, toList_numberedLine _ _⟩ (ih (Nat.succ_pos first) ?_)
      intro i other hother
      have hnext := h (i + 1) other hother
      rwa [show first - 1 + (i + 1) = first + 1 - 1 + i by omega] at hnext

/-- The caret stands behind seven characters and as many blanks as there are columns before its
own. -/
theorem idxOf_caretLine (column : Nat) : (caretLine column).toList.idxOf '^' = 7 + (column - 1) := by
  have hbar : '^' ∉ "     | ".toList := by decide
  have hblank : '^' ∉ List.replicate (column - 1) ' ' := by simp
  rw [toList_caretLine, List.idxOf_append_of_notMem hbar, List.idxOf_append_of_notMem hblank,
    List.length_replicate, List.idxOf_cons_self]
  rfl

theorem count_caretLine (column : Nat) : (caretLine column).toList.count '^' = 1 := by
  have hbar : "     | ".toList.count '^' = 0 := by decide
  have hblank : (List.replicate (column - 1) ' ').count '^' = 0 := by
    rw [List.count_replicate]
    rfl
  rw [toList_caretLine, List.count_append, List.count_append, hbar, hblank]
  rfl

theorem newline_not_mem_caretLine (column : Nat) : '\n' ∉ (caretLine column).toList := by
  rw [toList_caretLine]
  simp

/-- A window as it is printed, row by row. -/
theorem lines_window (hpos : 1 ≤ line) (hline : (Text.lines source)[line - 1]? = some content)
    (column margin : Nat) :
    Text.lines (window source line column margin).toList
      = (windowRows source line column margin).map String.toList := by
  unfold window
  rw [String.toList_intercalate]
  apply Text.lines_intercalate
  · rw [windowRows_eq hpos hline]
    simp
  · intro row hrow
    obtain ⟨text, htext, rfl⟩ := List.mem_map.1 hrow
    obtain ⟨⟨own, n⟩, hmem, htext⟩ := List.mem_flatMap.1 htext
    have hown : own ∈ Text.lines source := (List.mem_zipIdx hmem).2.2 ▸ List.getElem_mem _
    dsimp only at htext
    split at htext
    · rcases List.mem_cons.1 htext with rfl | hcaret
      · obtain ⟨front, hrow, hfront, -⟩ := (toList_numberedLine n own).exists_front
        rw [hrow, List.mem_append, not_or]
        exact ⟨hfront, Text.newline_not_mem_lines source own hown⟩
      · split at hcaret
        · rw [List.mem_singleton.1 hcaret]
          exact newline_not_mem_caretLine column
        · simp at hcaret
    · simp at htext

/-- The rows of a window without the caret line: the lines within the margin that there are. -/
theorem shown_rows (hpos : 1 ≤ line) (hline : (Text.lines source)[line - 1]? = some content)
    (margin : Nat) :
    List.Forall₂
      (fun row n => ∃ content, (Text.lines source)[n - 1]? = some content ∧ Shows n content row)
      ((numberedLines (line - margin - 1 + 1)
            (((Text.lines source).take (line - 1)).drop (line - margin - 1))).map String.toList
        ++ (numberedLine line content).toList
        :: (numberedLines (line + 1) (((Text.lines source).drop line).take margin)).map
            String.toList)
      (List.range' (max 1 (line - margin))
        (min (Text.lines source).length (line + margin) + 1 - max 1 (line - margin))) := by
  have hlt : line - 1 < (Text.lines source).length := (List.getElem?_eq_some_iff.1 hline).1
  have hbefore : (((Text.lines source).take (line - 1)).drop (line - margin - 1)).length
      = line - 1 - (line - margin - 1) := by
    rw [List.length_drop, List.length_take]
    omega
  have hbehind : (((Text.lines source).drop line).take margin).length
      = min margin ((Text.lines source).length - line) := by
    rw [List.length_take, List.length_drop]
  have hnumbers : List.range' (max 1 (line - margin))
        (min (Text.lines source).length (line + margin) + 1 - max 1 (line - margin))
      = List.range' (line - margin - 1 + 1)
          (((Text.lines source).take (line - 1)).drop (line - margin - 1)).length
        ++ List.range' line (1 + (((Text.lines source).drop line).take margin).length) := by
    rw [hbefore, hbehind]
    have hjoin := @List.range'_append_1 (line - margin - 1 + 1) (line - 1 - (line - margin - 1))
      (1 + min margin ((Text.lines source).length - line))
    rw [show line - margin - 1 + 1 + (line - 1 - (line - margin - 1)) = line by omega] at hjoin
    rw [hjoin]
    congr 1
    · omega
    · omega
  rw [hnumbers, Nat.add_comm 1]
  apply List.rel_append
  · apply numberedLines_shows (Nat.succ_pos _)
    intro i other hother
    rw [List.getElem?_drop, List.getElem?_take] at hother
    split at hother
    · exact hother
    · cases hother
  · refine .cons ⟨content, hline, toList_numberedLine _ _⟩ ?_
    apply numberedLines_shows (Nat.succ_pos line)
    intro i other hother
    rw [List.getElem?_take] at hother
    split at hother
    · rwa [List.getElem?_drop] at hother
    · cases hother

/-- The window on a line of a text, row by row. The rows show, in order and with their numbers, the
lines within the margin that there are, and one more row stands right behind the line itself. That
one has the caret, which is below its column as long as the number has four digits at most; each
digit more leaves the caret one place behind. -/
theorem caret_placed (hpos : 1 ≤ line) (hline : (Text.lines source)[line - 1]? = some content)
    {column : Nat} (hleft : 1 ≤ column) (hright : column ≤ content.length + 1) (margin : Nat) :
    ∃ (above below : List (List Char)) (shown caret : List Char) (position : Nat),
      Text.lines (window source line column margin).toList = above ++ shown :: caret :: below
        ∧ above.length = line - max 1 (line - margin)
        ∧ List.Forall₂
            (fun row n => ∃ content, (Text.lines source)[n - 1]? = some content
              ∧ Shows n content row)
            (above ++ shown :: below)
            (List.range' (max 1 (line - margin))
              (min (Text.lines source).length (line + margin) + 1 - max 1 (line - margin)))
        ∧ Shows line content shown
        ∧ StandsAt column content shown position ∧ position ≤ shown.length
        ∧ caret.count '^' = 1
        ∧ position = caret.idxOf '^' + ((Nat.toDigits 10 line).length - 4)
        ∧ (caret.idxOf '^' = position ↔ line < 10000) := by
  have hlt : line - 1 < (Text.lines source).length := (List.getElem?_eq_some_iff.1 hline).1
  have hfirst : line - margin - 1 + 1 = max 1 (line - margin) := by omega
  have hrows : Text.lines (window source line column margin).toList = _ :=
    (lines_window hpos hline column margin).trans
      (congrArg (List.map String.toList) (windowRows_eq hpos hline margin column))
  rw [List.map_append, List.map_cons, List.map_cons] at hrows
  obtain ⟨front, hfront, -, hwidth⟩ :=
    (toList_numberedLine line content).exists_front
  have hcaret := idxOf_caretLine column
  have hdigits : (Nat.toDigits 10 line).length ≤ 4 ↔ line < 10000 :=
    Nat.length_toDigits_le_iff (by decide) (by decide)
  refine ⟨_, _, _, _, 7 + ((Nat.toDigits 10 line).length - 4) + (column - 1), hrows, ?_, ?_,
    toList_numberedLine _ _, ⟨front, hfront, ?_⟩, ?_, count_caretLine column, ?_, ?_⟩
  · simp only [numberedLines, List.length_map, List.length_zipIdx, List.length_drop,
      List.length_take]
    omega
  · exact shown_rows hpos hline margin
  · omega
  · rw [hfront, List.length_append]
    omega
  · omega
  · rw [hcaret, ← hdigits]
    omega

theorem caret_placed_second_line :
    1 ≤ 2 ∧ (Text.lines "var a;\nprint b;".toList)[2 - 1]? = some "print b;".toList ∧ 1 ≤ 7
      ∧ 7 ≤ "print b;".toList.length + 1
      ∧ ∃ shown caret position,
          [shown, caret] <:+: Text.lines (window "var a;\nprint b;".toList 2 7 1).toList
            ∧ StandsAt 7 "print b;".toList shown position ∧ caret.idxOf '^' = position := by
  have hline : (Text.lines "var a;\nprint b;".toList)[2 - 1]? = some "print b;".toList := by decide
  refine ⟨by decide, hline, by decide, by decide, ?_⟩
  obtain ⟨above, below, shown, caret, position, hwindow, -, -, -, hstands, -, -, -, hcaret⟩ :=
    caret_placed (by decide) hline (show 1 ≤ 7 by decide) (by decide) 1
  have hrows : Text.lines (window "var a;\nprint b;".toList 2 7 1).toList
      = above ++ shown :: caret :: below := hwindow
  refine ⟨shown, caret, position, ?_, hstands, hcaret.2 (by decide)⟩
  rw [hrows]
  exact ⟨above, below, by simp⟩

/-- Behind empty lines only the last line is in a window without a margin. -/
theorem window_replicate_newline (n : Nat) (hcontent : '\n' ∉ content) (column : Int) :
    window (List.replicate n '\n' ++ content) (n + 1 : Nat) column 0
      = "\n".intercalate [numberedLine (n + 1) content, caretLine column] := by
  have hlines : Text.lines (List.replicate n '\n' ++ content) = List.replicate n [] ++ [content] := by
    rw [Text.lines_replicate_newline, Text.lines_eq_singleton hcontent]
  have hline : (Text.lines (List.replicate n '\n' ++ content))[n + 1 - 1]? = some content := by
    rw [hlines, List.getElem?_append_right (by simp)]
    simp
  have hbefore : ((Text.lines (List.replicate n '\n' ++ content)).take (n + 1 - 1)).drop
      (n + 1 - 0 - 1) = [] := by
    apply List.drop_eq_nil_of_le
    rw [List.length_take]
    omega
  have hrows := windowRows_eq (Nat.succ_pos n) hline 0 column
  rw [hbefore, List.take_zero] at hrows
  exact congrArg ("\n".intercalate ·) hrows

/-- The number of line 10000 is wider than its place in the caret line: the first column of the line
stands at position 8 of its row, and the caret at position 7. -/
theorem caret_behind_wide_number :
    window (List.replicate 9999 '\n' ++ ['x']) 10000 1 0 = "10000 | x\n     | ^"
      ∧ StandsAt 1 ['x'] "10000 | x".toList 8 ∧ "     | ^".toList.idxOf '^' = 7 := by
  refine ⟨window_replicate_newline 9999 (by decide) 1, ?_, by decide⟩
  exact ⟨"10000 | ".toList, by decide, by decide⟩

end Diagnostic

end Lox
