/-
Reading ends, whatever the text. Recovery resumes at the first place where reading can go
on, behind the declaration that failed; so every declaration takes a character, and with
it every round and every nesting. The bounds that readers are given to stop them are
never what stops them: a reader that might go on for longer reads the same.

A block that was read may be read once more, for the declaration around it may fail in
front of it. That takes no character back from those that the declaration has.
-/
import Lox.Proofs.Recovery.Grammar

namespace Lox

open Recovery

namespace Parser

/-- Reads a text from its start by one rule, which may nest to a depth, and whose repetitions may
go on for more than so many rounds by one. -/
def readWithin {α : Type} (p : Nat → Parser α) (depth rounds : Nat) (text : List Char)
    (nextId : NodeId) : Reading α :=
  match p depth ⟨Cursor.start text, nextId, [], rounds⟩ with
  | .ok a s => ⟨.ok a, s.recovered, s.nextId⟩
  | .error e s => ⟨.error e, s.recovered, s.nextId⟩

/-- Readers that agree bring the same. -/
theorem Agrees.readWithin_eq {α : Type} {p : Nat → Parser α} {text : List Char}
    {depth depth' rounds rounds' : Nat}
    (hp : Agrees (text.length + 1) 0 (p depth) (p depth')) (hrounds : text.length ≤ rounds)
    (hrounds' : text.length ≤ rounds') (nextId : NodeId) :
    readWithin p depth' rounds' text nextId = readWithin p depth rounds text nextId := by
  have hends := hp ⟨Cursor.start text, nextId, [], rounds⟩ rounds' (Nat.lt_succ_self _) hrounds
    hrounds'
  unfold readWithin
  change EndsBounded 0 _ rounds' _ (p depth' ⟨Cursor.start text, nextId, [], rounds'⟩) at hends
  generalize p depth _ = r at hends ⊢
  generalize p depth' _ = r' at hends ⊢
  cases hends with
  | ok _ _ => rfl
  | error _ => rfl

/-- A program is read the same way however far its reader might nest and repeat. -/
theorem readWithin_program {text : List Char} {depth rounds : Nat} (hdepth : text.length < depth)
    (hrounds : text.length ≤ rounds) (nextId : NodeId) :
    readWithin program depth rounds text nextId = readProgram text nextId :=
  (Agrees.program (Nat.le_refl _) hdepth).readWithin_eq (Nat.le_refl _) hrounds nextId

/-- A declaration that fails is recovered from on the text, and behind its start. -/
theorem offset_lt_of_recovering {text : List Char} {closer : Option Char}
    {declaration : Parser Stmt} {s t : Progress} (hs : s.cursor.On text)
    (h : recovering closer declaration s = .ok none t) :
    t.cursor.On text ∧ s.cursor.skipTrivia.skipGap.offset < t.cursor.offset := by
  have hstart : s.cursor.skipTrivia.skipGap.On text := hs.advance _ |>.skipGap
  change (if _ then _ else _) = EStateM.Result.ok none t at h
  split at h
  · cases h
  rename_i hopen
  have hne : s.cursor.skipTrivia.skipGap.rest ≠ [] := by
    intro hnil
    simp [Cursor.atEnd, hnil] at hopen
  split at h
  · cases h
  · cases h
    exact ⟨(hstart.advance _).resume, Cursor.offset_lt_recovered hne _⟩

end Parser

/-- A text is read as a program, or there are reports on it. -/
theorem readProgram_cases (text : List Char) (nextId : NodeId) :
    (∃ body, (readProgram text nextId).program = .ok body)
      ∨ ∃ faults, (readProgram text nextId).program = .error faults
        ∧ faultReports text faults ≠ [] := by
  generalize readProgram text nextId = reading
  obtain ⟨result, recovered, next⟩ := reading
  cases result with
  | error e =>
      refine .inr ⟨recovered ++ [e.fault], rfl, ?_⟩
      simp [faultReports]
  | ok body =>
      cases recovered with
      | nil => exact .inl ⟨body, rfl⟩
      | cons fault more =>
          refine .inr ⟨fault :: more, rfl, ?_⟩
          simp [faultReports]

/-- **Recovery makes progress, and reading ends.** From any offset with a lexeme at it or behind it,
recovery passes lexeme after lexeme, never stuck, to the first place where reading can go on; that
lies farther on, and no farther than the end of the text. So a declaration that fails is followed
by something that starts behind its own start; a text is read the same way however deep its reader
might nest and however often it might repeat; and what comes of it is a program or reports. -/
theorem recovery_progresses (text : List Char) :
    (∀ (loc : Nat) (gap start : List Char), text.drop loc = gap ++ start → IsGap gap start →
      start ≠ [] → NeverStuck start ∧ ∃ r, loc < r ∧ r ≤ text.length
        ∧ ((Cursor.start text).advance loc).resume = (Cursor.start text).advance r
        ∧ FirstStop start (text.drop r))
    ∧ (∀ (closer : Option Char) (declaration : Parser Stmt) (s t : Progress), s.cursor.On text →
      Parser.recovering closer declaration s = .ok none t →
        t.cursor.On text ∧ s.cursor.skipTrivia.skipGap.offset < t.cursor.offset)
    ∧ (∀ (depth rounds : Nat) (nextId : NodeId), text.length < depth → text.length ≤ rounds →
      Parser.readWithin Parser.program depth rounds text nextId = readProgram text nextId)
    ∧ ∀ nextId, (∃ body, (readProgram text nextId).program = .ok body)
      ∨ ∃ faults, (readProgram text nextId).program = .error faults
        ∧ faultReports text faults ≠ [] := by
  refine ⟨fun loc gap start ahead hgap hne => ⟨neverStuck hgap.solid, ?_⟩,
    fun _ _ _ _ hs h => Parser.offset_lt_of_recovering hs h,
    fun _ _ nextId hdepth hrounds => Parser.readWithin_program hdepth hrounds nextId,
    readProgram_cases text⟩
  have hdrop : text.drop loc ≠ [] := by
    rw [ahead]
    exact List.append_ne_nil_of_right_ne_nil _ hne
  have hloc : loc < text.length := by
    by_contra hlong
    exact hdrop (List.drop_eq_nil_iff.mpr (Nat.le_of_not_lt hlong))
  have hon : ((Cursor.start text).advance loc).On text := ⟨loc, Nat.le_of_lt hloc, rfl⟩
  have hrest : ((Cursor.start text).advance loc).rest = text.drop loc := Cursor.rest_advance _ _
  have hoffset : ((Cursor.start text).advance loc).offset = loc := by
    rw [Cursor.advance_start (Nat.le_of_lt hloc)]
  obtain ⟨hresume, hbehind⟩ := hon.resume.eq_advance
  have hstop := Cursor.firstStop_resume (hrest.trans ahead) hgap hne
  rw [hbehind] at hstop
  refine ⟨_, ?_, ?_, hresume, hstop⟩
  · have hlt := Cursor.offset_lt_resume (hrest ▸ hdrop)
    rwa [hoffset] at hlt
  · have hlength := hon.resume.offset_add_length
    omega

theorem Parser.exists_run_of_isNone {α : Type} {p : Parser (Option α)} {s : Progress}
    (h : (p.run' s).map Option.isNone = some true) : ∃ t, p s = .ok none t := by
  unfold EStateM.run' EStateM.run at h
  cases hrun : p s with
  | error e t =>
      rw [hrun] at h
      cases h
  | ok found t =>
      rw [hrun] at h
      cases found with
      | none => exact ⟨t, rfl⟩
      | some a => cases h

/-- The name is missing, and the semicolons that come first stand in a comment and in a string. -/
def stumblingText : List Char := "var 1 // ;\n \";\" print 2;".toList

/-- The declaration fails at the `1`, and reading resumes in front of `print`. -/
theorem recovery_progresses_stumbling :
    (∃ r, 4 < r ∧ r ≤ stumblingText.length
      ∧ ((Cursor.start stumblingText).advance 4).resume = (Cursor.start stumblingText).advance r
      ∧ FirstStop (stumblingText.drop 4) (stumblingText.drop r))
    ∧ ((Cursor.start stumblingText).advance 4).resume.offset = 16
    ∧ (∃ t, Parser.recovering none (Parser.declarationAt 30)
        ⟨Cursor.start stumblingText, 0, [], stumblingText.length⟩ = .ok none t
      ∧ t.cursor.On stumblingText ∧ 0 < t.cursor.offset)
    ∧ Parser.readWithin Parser.program 1000 2000 stumblingText 0 = readProgram stumblingText 0
    ∧ ∃ faults, (readProgram stumblingText 0).program = .error faults
      ∧ faultReports stumblingText faults ≠ [] := by
  have hgap : IsGap [] (stumblingText.drop 4) := .nil (by decide) (by decide)
  obtain ⟨hresumes, hrecovers, hends, hcases⟩ := recovery_progresses stumblingText
  obtain ⟨-, hresumes⟩ := hresumes 4 [] (stumblingText.drop 4) rfl hgap (by decide)
  refine ⟨hresumes, by decide +kernel, ?_, hends 1000 2000 0 (by decide) (by decide), ?_⟩
  · have hfails : ((Parser.recovering none (Parser.declarationAt 30)).run'
        ⟨Cursor.start stumblingText, 0, [], stumblingText.length⟩).map Option.isNone
          = some true := by decide +kernel
    obtain ⟨t, hrun⟩ := Parser.exists_run_of_isNone hfails
    have hon : (Cursor.start stumblingText).On stumblingText := ⟨0, Nat.zero_le _, rfl⟩
    obtain ⟨ht, hoffset⟩ := hrecovers none _ _ t hon hrun
    exact ⟨t, hrun, ht, Nat.lt_of_le_of_lt (Nat.zero_le _) hoffset⟩
  · refine (hcases 0).resolve_left fun ⟨body, hbody⟩ => ?_
    have hrefused : (readProgram stumblingText 0).program.toOption.isNone = true := by
      decide +kernel
    rw [hbody] at hrefused
    cases hrefused

end Lox
