/-
Programs that are refused. Reading and resolving trace what they do and use up
numbers of nodes; whatever else a program does it does while it runs, and a
program that is refused does not run. So a session is where it was
(`Session.Unmoved`), whichever way the program came to it: as a whole, as a line at
the prompt, or as the text behind a command.

Lines that show something without running it are no different, refused or not
(`Prompt.Idle`).
-/
import Lox.Proofs.Run.Restored
import Lox.Proofs.Reading.Steady

namespace Lox

/-- The outcome of a program that was refused. -/
inductive Outcome.Refusal : Outcome → Prop
  | unreadable (reports : List Diagnostic) : Refusal (.unreadable reports)
  | illScoped (faults : List ScopeFault) : Refusal (.illScoped faults)

/-- A session is where it was: its machine is the same but for what was traced, and at most numbers
of nodes were used up. -/
structure Session.Unmoved (s s' : Session) : Prop where
  machine : ∃ trace, s'.machine = { s.machine with trace }
  nextId : s.nextId ≤ s'.nextId

-- ================================================================== readings

/-- Reading takes back no number. -/
theorem Parser.Does.le_read {α : Type} {p : Nat → Parser α}
    {post : α → Progress → Progress → Prop} (hp : ∀ depth, Parser.Does (p depth) post)
    (text : List Char) (low : NodeId) : low ≤ (Parser.read p text low).nextId := by
  have hdoes := hp (text.length + 1)
  unfold Parser.read
  dsimp only
  cases hrun : p (text.length + 1) ⟨Cursor.start text, low, [], text.length⟩ with
  | ok a t => exact (hdoes.grown hrun).ids
  | error e t => exact (hdoes.grown_error hrun).ids

theorem le_readProgram (text : List Char) (low : NodeId) :
    low ≤ (readProgram text low).nextId :=
  Parser.Does.le_read Parser.does_program text low

theorem le_readExpression (text : List Char) (low : NodeId) :
    low ≤ (readExpression text low).nextId :=
  Parser.Does.le_read Parser.does_singleExpression text low

namespace Session

variable {s s' t : Session} {body : List Stmt}

-- ==================================================================== stages

namespace Unmoved

theorem refl (s : Session) : s.Unmoved s := ⟨⟨s.machine.trace, rfl⟩, Nat.le_refl _⟩

theorem trans (h : s.Unmoved s') (h' : s'.Unmoved t) : s.Unmoved t := by
  obtain ⟨⟨trace, hmachine⟩, hnext⟩ := h
  obtain ⟨⟨trace', hmachine'⟩, hnext'⟩ := h'
  exact ⟨⟨trace', by rw [hmachine', hmachine]⟩, Nat.le_trans hnext hnext'⟩

end Unmoved

theorem unmoved_read (s : Session) (text : List Char) (label : String) :
    s.Unmoved (s.read text label).2 := by
  obtain ⟨trace, htrace⟩ := Lockstep.noteAll_eq s.machine
    ((readProgram text s.nextId).trace text label)
  have hle := le_readProgram text s.nextId
  unfold Session.read
  dsimp only
  cases (readProgram text s.nextId).program with
  | ok found => exact ⟨⟨trace, htrace⟩, hle⟩
  | error faults => exact ⟨⟨trace, htrace⟩, hle⟩

theorem unmoved_resolve (s : Session) (body : List Stmt) : s.Unmoved (s.resolve body).2 := by
  have hnext : (s.resolve body).2.nextId = s.nextId := by
    unfold Session.resolve
    dsimp only
    split <;> rfl
  exact ⟨s.resolve_machine body, hnext ▸ Nat.le_refl _⟩

theorem unmoved_survey (s : Session) (text : List Char) : s.Unmoved (Prompt.survey s text).2 := by
  have hread := s.unmoved_read text Prompt.label
  unfold Prompt.survey
  split
  · rename_i outcome read heq
    rw [heq] at hread
    exact hread
  · rename_i found read heq
    rw [heq] at hread
    exact hread.trans (read.unmoved_resolve found)

theorem unmoved_printed? (s : Session) (line : List Char) :
    s.Unmoved (Prompt.printed? s line).2 := by
  have hle := le_readExpression line s.nextId
  refine ⟨⟨s.machine.trace, s.printed?_machine line⟩, ?_⟩
  unfold Prompt.printed?
  split
  · exact Nat.le_refl _
  · dsimp only
    cases (readExpression line s.nextId).result with
    | ok e => exact Nat.le_succ_of_le hle
    | error failure => exact hle

-- ================================================================== refusals

/-- A program that runs is not refused. -/
theorem not_refusal_perform (s : Session) (body : List Stmt) :
    ¬ (s.perform body).1.settled.Refusal := by
  intro h
  unfold Session.perform at h
  cases hrun : Eval.interpret stepLimit callLimit body s.machine with
  | ok u m =>
      rw [hrun] at h
      cases h
  | error stop m =>
      rw [hrun] at h
      cases stop <;> cases h

theorem unmoved_runTree (h : (s.runTree body).1.Refusal) : s.Unmoved (s.runTree body).2 := by
  have hresolve := s.unmoved_resolve body
  unfold Session.runTree at h ⊢
  split
  · rename_i outcome resolved heq
    rw [heq] at hresolve
    exact hresolve
  · rename_i survey resolved heq
    rw [heq] at h
    exact absurd h ((resolved.link survey).not_refusal_perform body)

theorem unmoved_run {text : List Char} {label : String} (h : (s.run text label).1.Refusal) :
    s.Unmoved (s.run text label).2 := by
  have hread := s.unmoved_read text label
  unfold Session.run at h ⊢
  split
  · rename_i outcome read heq
    rw [heq] at hread
    exact hread
  · rename_i found read heq
    rw [heq] at h hread
    exact hread.trans (unmoved_runTree h)

theorem unmoved_runLine {line : List Char} (h : (Prompt.runLine s line).1.Refusal) :
    s.Unmoved (Prompt.runLine s line).2 := by
  have hprinted := s.unmoved_printed? line
  unfold Prompt.runLine at h ⊢
  split
  · rename_i found read heq
    rw [heq] at h hprinted
    exact hprinted.trans (unmoved_runTree h)
  · rename_i read heq
    rw [heq] at h hprinted
    exact hprinted.trans (unmoved_run h)

theorem refusal_of_read {text : List Char} {label : String} {outcome : Outcome}
    (h : s.read text label = (.error outcome, t)) : outcome.Refusal := by
  unfold Session.read at h
  dsimp only at h
  split at h <;> cases h
  exact .unreadable _

theorem refusal_of_resolve {outcome : Outcome} (h : s.resolve body = (.error outcome, t)) :
    outcome.Refusal := by
  unfold Session.resolve at h
  dsimp only at h
  split at h <;> cases h
  exact .illScoped _

end Session

-- ===================================================================== lines

namespace Prompt

/-- A line reports that its text was refused: as a program to run, on whichever path, or as the text
behind a command. -/
inductive Refuses (s : Session) (line : List Char) : Prop
  | showTree {text : List Char} {outcome : Outcome} {t : Session}
      (asks : Request.ofLine line = .showTree text)
      (fails : s.hush.read text label = (.error outcome, t))
  | showDistances {text : List Char} {outcome : Outcome} {t : Session}
      (asks : Request.ofLine line = .showDistances text)
      (fails : survey s.hush text = (.error outcome, t))
  | run {text : List Char} (asks : Request.ofLine line = .run text)
      (refused : (runLine s.hush text).1.Refusal)

/-- A line that can have no effect on what comes after it: its text is refused, or it only asks to be
shown something. -/
inductive Idle (s : Session) (line : List Char) : Prop
  | refused (h : Refuses s line)
  | command (asks : ∀ text, Request.ofLine line ≠ .run text)

variable {s : Session} {line : List Char}

theorem refusal_of_survey {t : Session} {text : List Char} {outcome : Outcome}
    (h : survey s text = (.error outcome, t)) : outcome.Refusal := by
  unfold survey at h
  split at h
  · rename_i found read heq
    cases h
    exact Session.refusal_of_read heq
  · exact Session.refusal_of_resolve h

/-- An idle line leaves the session where it was. -/
theorem unmoved_answer (h : Idle s line) : s.hush.Unmoved (answer s line).2 := by
  unfold answer
  dsimp only
  cases hasks : Request.ofLine line with
  | showTree text =>
      dsimp only
      rw [Session.listing_snd]
      exact s.hush.unmoved_read text label
  | showDistances text =>
      dsimp only
      rw [Session.listing_snd]
      exact s.hush.unmoved_survey text
  | showGlobals => exact .refl _
  | run text =>
      cases h with
      | command asks => exact absurd hasks (asks text)
      | refused h =>
          cases h with
          | showTree asks _ | showDistances asks _ =>
              rw [hasks] at asks
              cases asks
          | run asks refused =>
              obtain rfl := Request.run.inj (hasks.symm.trans asks)
              exact Session.unmoved_runLine refused

/-- What is refused shows nothing on the output channel, and the conversation goes on. -/
theorem silent_transcript {t : Session} {outcome : Outcome} (h : s.hush.Unmoved t)
    (refused : outcome.Refusal) :
    (t.transcript none outcome).out = "" ∧ (t.transcript none outcome).exit = none := by
  obtain ⟨⟨trace, hmachine⟩, -⟩ := h
  refine ⟨congrArg Machine.output hmachine, ?_⟩
  cases refused <;> rfl

theorem silent_answer (h : Refuses s line) :
    (answer s line).1.out = "" ∧ (answer s line).1.exit = none := by
  unfold answer
  dsimp only
  cases h with
  | @showTree text outcome t asks fails =>
      have hread := s.hush.unmoved_read text label
      rw [fails] at hread
      rw [asks]
      dsimp only
      rw [fails]
      exact silent_transcript hread (Session.refusal_of_read fails)
  | @showDistances text outcome t asks fails =>
      have hsurvey := s.hush.unmoved_survey text
      rw [fails] at hsurvey
      rw [asks]
      dsimp only
      rw [fails]
      exact silent_transcript hsurvey (refusal_of_survey fails)
  | @run text asks refused =>
      rw [asks]
      exact silent_transcript (Session.unmoved_runLine refused) refused

end Prompt

end Lox
