/-
Positions are faithful. A token of the tree stands where it says: the text at its
offset spells it, and line and column are those of the offset. A diagnostic lies at
one offset of the text, so there is a line to show and a column below which a caret
fits.

All of it is one invariant of reading (`Parser.Invariant.onText`): cursors, faults
and places stay on the text.
-/
import Lox.Proofs.Upheld.Grammar
import Lox.Proofs.Position.Recovery

namespace Lox

variable {text : List Char}

/-- A token that stands in the text as it says. -/
def Token.Faithful (text : List Char) (t : Token) : Prop :=
  ∃ k, t.place.At text k ∧ t.word.spelling <+: text.drop k

/-- A report on a place of the text, with a window that shows its line and points at its column. -/
structure Diagnostic.PointsInto (text : List Char) (d : Diagnostic) : Prop where
  offset : ∃ k ≤ text.length, d.line = Text.lineAt text k ∧ d.column = Text.columnAt text k
  line : 1 ≤ d.line ∧ d.line ≤ (Text.lines text).length
  column : ∃ content, (Text.lines text)[(d.line - 1).toNat]? = some content
    ∧ 1 ≤ d.column ∧ d.column ≤ content.length + 1
    ∧ ∀ margin, 0 ≤ margin →
      [Diagnostic.numberedLine d.line.toNat content, Diagnostic.caretLine d.column]
        <:+: Diagnostic.windowRows text d.line d.column margin
  context : d.context = some (Diagnostic.window text d.line d.column 2)

-- ============================================================ the invariant

theorem Text.ne_newline_of_isKeywordChar {x : Char} (h : Text.isKeywordChar x = true) : x ≠ '\n' := by
  rintro rfl
  exact absurd h (by decide)

/-- Whatever reading meets lies on the text. -/
def Parser.Invariant.onText (text : List Char) : Parser.Invariant where
  state c r := c.On text ∧ ∀ f ∈ r, f.place.On text
  failure e r := e.fault.place.On text ∧ ∀ f ∈ r, f.place.On text
  lenient _ := False
  token := Token.Faithful text
  place := Place.On text
  advance h n := ⟨h.1.advance n, h.2⟩
  placed h := h.1.place_on
  marked h := let ⟨k, hk, _⟩ := h; ⟨k, hk⟩
  missing h _ := ⟨h.1.place_on, h.2⟩
  followed h _ := ⟨h.1.place_on, h.2⟩
  preceded h _ touches := by
    obtain ⟨x, hx, hkeyword⟩ := Option.any_eq_true _ _ |>.mp touches
    exact .inl ⟨h.1.before_on hx (Text.ne_newline_of_isKeywordChar hkeyword), h.2⟩
  taken := by
    intro c r h kind n plain
    obtain ⟨k, hk, hrest, -⟩ := h.1.place_at
    refine ⟨k, hk, ?_⟩
    have hword : (Token.mk kind (String.ofList (c.rest.take n)) c.place).word.spelling
        = c.rest.take n := by
      cases kind with
      | identifier => exact absurd rfl plain.1
      | string => exact absurd rfl plain.2
      | _ => exact String.toList_ofList
    rw [hword, ← hrest]
    exact List.take_prefix _ _
  named := by
    intro c r h _ _
    obtain ⟨k, hk, hrest, -⟩ := h.1.place_at
    refine ⟨k, hk, ?_⟩
    rw [← hrest]
    show (String.ofList _).toList <+: _
    rw [String.toList_ofList]
    exact List.take_prefix _ _
  quoted := by
    intro c r h content stands
    obtain ⟨k, hk, hrest, -⟩ := h.1.place_at
    refine ⟨k, hk, ?_⟩
    rw [← hrest]
    show '"' :: (String.ofList content).toList ++ ['"'] <+: _
    rw [String.toList_ofList]
    exact stands
  committed h := h
  renamed h _ _ := h
  further := by
    intro a b r ha hb _
    have hb := hb.resolve_right id
    let onText (e : Failure) := e.fault.place.On text ∧ ∀ f ∈ r, f.place.On text
    exact ⟨Parser.Failure.further_induct onText hb fun _ h => Option.some.inj h ▸ ha,
      Parser.Failure.further_induct onText ha fun _ h => Option.some.inj h ▸ hb⟩
  recovered := by
    intro c r r' e h he
    refine ⟨(h.1.skipGap.advance _).resume, fun f hf => ?_⟩
    rcases List.mem_append.mp hf with hf | hf
    · exact he.2 f hf
    · rw [List.mem_singleton.mp hf]
      exact he.1

theorem Parser.Invariant.refuses_onText (cause : FaultCause) :
    (Parser.Invariant.onText text).Refuses cause := fun hplace hstate => ⟨hplace, hstate.2⟩

-- ============================================================== diagnostics

/-- The report on a fault of the text. -/
theorem Fault.pointsInto {f : Fault} (h : f.place.On text) :
    (f.diagnostic text).PointsInto text := by
  obtain ⟨k, hk⟩ := h
  obtain ⟨content, hcontent, hcolumn⟩ := Text.exists_line text k
  have hline : (f.diagnostic text).line = Text.lineAt text k := hk.line
  have hcol : (f.diagnostic text).column = Text.columnAt text k := hk.column
  have hbound := (List.getElem?_eq_some_iff.mp hcontent).1
  have hpos : Text.lineAt text k = Text.lineAt text k - 1 + 1 := by
    unfold Text.lineAt
    omega
  refine ⟨⟨k, hk.within, hline, hcol⟩, ?_, ⟨content, ?_, ?_, ?_, fun margin hmargin => ?_⟩, rfl⟩
  · omega
  · rw [hline]
    rw [hpos]
    simpa using hcontent
  · rw [hcol]
    unfold Text.columnAt
    omega
  · rw [hcol]
    exact_mod_cast hcolumn
  · rw [hline, hcol, hpos]
    exact Diagnostic.windowRows_shows hcontent hmargin

/-- Where the diagnostics of a text lie, and what they say. -/
def reported (text : List Char) : List (Int × Int × String) :=
  match (readProgram text 0).program with
  | .ok _ => []
  | .error faults => (faultReports text faults).map fun d => (d.line, d.column, d.message)

theorem exists_reported {items : List (Int × Int × String)} (h : reported text = items)
    (hne : items ≠ []) :
    ∃ faults, (readProgram text 0).program = .error faults
      ∧ (faultReports text faults).map (fun d => (d.line, d.column, d.message)) = items := by
  unfold reported at h
  split at h
  · exact absurd h.symm hne
  · rename_i faults hfaults
    exact ⟨faults, hfaults, h⟩

/-- Reading a program leaves the text nowhere. -/
theorem upholds_onText (text : List Char) :
    Parser.Upholds (.onText text) false (Parser.Invariant.onText text).body
      (Parser.program (text.length + 1)) :=
  .program (Parser.Invariant.refuses_onText _)
    (.assignment (Parser.Invariant.refuses_onText _) (Parser.Invariant.refuses_onText _) _)

/-- The faults of a text lie on it. -/
theorem onText_of_rejected {nextId : NodeId} {faults : List Fault}
    (h : (readProgram text nextId).program = .error faults) : ∀ f ∈ faults, f.place.On text := by
  rcases (upholds_onText text).rejected ⟨Cursor.on_start text, nofun⟩ h with
    ⟨e, r, ⟨he, hr⟩, rfl⟩ | ⟨c, -, hfaults⟩
  · intro f hf
    rcases List.mem_append.mp hf with hf | hf
    · exact hr f hf
    · rw [List.mem_singleton.mp hf]
      exact he
  · exact hfaults

/-- Every token of an accepted program stands where it says, and every diagnostic of a refused one
points into the text. -/
theorem positions_faithful (text : List Char) (nextId : NodeId) :
    (∀ body, (readProgram text nextId).program = .ok body →
        ∀ t ∈ Stmt.tokensAll body, t.Faithful text)
      ∧ ∀ faults, (readProgram text nextId).program = .error faults →
        ∀ d ∈ faultReports text faults, d.PointsInto text := by
  refine ⟨fun body h => ?_, fun faults h d hd => ?_⟩
  · exact (upholds_onText text).accepted ⟨Cursor.on_start text, nofun⟩ h
  · obtain ⟨f, hf, rfl⟩ := List.mem_map.mp hd
    exact Fault.pointsInto (onText_of_rejected h f hf)

/-- A tabulator, a comment, a letter that is not ASCII and a string of two lines come before the
last token. -/
def mixedText : List Char := "\t// é\nprint \"ü\n\t\" + x;".toList

/-- Two diagnostics, one of them at the end of a text that ends in a newline. -/
def brokenText : List Char := "\tprint \"é\n\" + ;\n\x7b\n".toList

theorem positions_faithful_mixed :
    (∃ body, (readProgram mixedText 0).program = .ok body ∧ (Stmt.tokensAll body).length = 3
        ∧ ∀ t ∈ Stmt.tokensAll body, t.Faithful mixedText)
      ∧ ∃ faults, (readProgram brokenText 0).program = .error faults
        ∧ (faultReports brokenText faults).map (fun d => (d.line, d.column, d.message))
          = [(2, 3, "Expected ';'"), (4, 1, "Expected '\x7d'")]
        ∧ ∀ d ∈ faultReports brokenText faults, d.PointsInto brokenText := by
  have haccepted : (readProgram mixedText 0).program.toOption.any
      (fun body => (Stmt.tokensAll body).length == 3) = true := by decide +kernel
  constructor
  · cases h : (readProgram mixedText 0).program with
    | error faults =>
        rw [h] at haccepted
        cases haccepted
    | ok body =>
        rw [h] at haccepted
        exact ⟨body, rfl, beq_iff_eq.mp haccepted, (positions_faithful mixedText 0).1 body h⟩
  · have hreported : reported brokenText
        = [(2, 3, "Expected ';'"), (4, 1, "Expected '\x7d'")] := by decide +kernel
    obtain ⟨faults, hfaults, hitems⟩ := exists_reported hreported nofun
    exact ⟨faults, hfaults, hitems, (positions_faithful brokenText 0).2 faults hfaults⟩

end Lox
