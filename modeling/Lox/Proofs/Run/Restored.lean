/-
The current frame of a session. Every part of a run puts it back however it ends,
on whatever host, so between two programs or lines of a session the frame of
global variables is current. Global variables outlive the run that made them, no
matter how it ended, and the next program reads them.
-/
import Lox.Proofs.Run.Host
import Lox.Proofs.Lockstep.Accepted
import Lox.Prompt.Conversation
import Mathlib.Logic.Relation

namespace Lox

namespace Session

/-- What can happen to a session: a program is run, a line of a conversation is answered, or a tree
that was accepted is run on some host. -/
inductive Step : Session → Session → Prop
  | ran (s : Session) (text : List Char) (label : String) : Step s (s.run text label).2
  | answered (s : Session) (line : List Char) : Step s (Prompt.answer s line).2
  | hosted {s resolved : Session} {body : List Stmt} {survey : Survey}
      (resolves : s.resolve body = (.ok survey, resolved)) (host : Host) (fuel room : Nat) :
      Step s { resolved with
        machine := (Eval.interpretOn host fuel room body).left (resolved.link survey).machine }

/-- A session after any number of programs and lines, however they ended. -/
def Continues : Session → Session → Prop := Relation.ReflTransGen Step

/-- A program is accepted, or the line of an expression is, and is about to run. -/
inductive Ready (s : Session) (body : List Stmt) : Session → Prop
  | program {s' : Session} {text : List Char} {label : String}
      (accepted : s.Prepares text label body s') : Ready s body s'
  | line {read resolved : Session} {line : List Char} {survey : Survey}
      (reads : Prompt.printed? s line = (some body, read))
      (resolves : read.resolve body = (.ok survey, resolved)) : Ready s body (resolved.link survey)

/-- A program that starts here reads a global variable as a value, wherever it is mentioned as
one. -/
def Reads (s : Session) (name : String) (value : Value) : Prop :=
  ∀ (fuel room : Nat) (id : NodeId) (token : Token), token.lexeme = name →
    s.machine.distances[id]? = none →
      Eval.evaluate (fuel + 1) room (.var id token) s.machine = .ok value s.machine

-- ============================================================ what is kept

/-- The current frame is the same, and no global variable was lost. -/
structure Unhurt (s s' : Session) : Prop where
  scope : s'.machine.scope = s.machine.scope
  kept : s.machine.Keeps s'.machine

variable {s s' : Session} {body : List Stmt}

theorem Unhurt.refl (s : Session) : s.Unhurt s := ⟨rfl, .refl _⟩

theorem Unhurt.trans {a b c : Session} (h : a.Unhurt b) (h' : b.Unhurt c) : a.Unhurt c :=
  ⟨h'.scope.trans h.scope, h.kept.trans h'.kept⟩

/-- Whoever leaves frames alone hurts nobody. -/
theorem Unhurt.of_heap (hscope : s'.machine.scope = s.machine.scope)
    (hheap : s'.machine.heap = s.machine.heap) : s.Unhurt s' :=
  ⟨hscope, fun _ h => by rw [hheap]; exact h⟩

/-- A run on any host. -/
theorem Unhurt.hosted (s : Session) (host : Host) (fuel room : Nat) (body : List Stmt) :
    s.Unhurt { s with machine := (Eval.interpretOn host fuel room body).left s.machine } :=
  have hintact := Intact.interpretOn host fuel room body s.machine
  ⟨hintact.restored s.machine, hintact.kept s.machine⟩

theorem unhurt_read (s : Session) (text : List Char) (label : String) :
    s.Unhurt (s.read text label).2 := by
  obtain ⟨trace, htrace⟩ := Lockstep.noteAll_eq s.machine
    ((readProgram text s.nextId).trace text label)
  have hmachine : (s.read text label).2.machine = { s.machine with trace } := by
    rw [← htrace]
    unfold Session.read
    dsimp only
    cases (readProgram text s.nextId).program <;> rfl
  exact .of_heap (by rw [hmachine]) (by rw [hmachine])

theorem resolve_machine (s : Session) (body : List Stmt) :
    ∃ trace, (s.resolve body).2.machine = { s.machine with trace } := by
  obtain ⟨trace, htrace⟩ := Lockstep.noteAll_eq s.machine (resolveProgram body).trace
  refine ⟨trace, ?_⟩
  rw [← htrace]
  unfold Session.resolve
  dsimp only
  split <;> rfl

theorem unhurt_resolve (s : Session) (body : List Stmt) : s.Unhurt (s.resolve body).2 := by
  obtain ⟨trace, hmachine⟩ := s.resolve_machine body
  exact .of_heap (by rw [hmachine]) (by rw [hmachine])

/-- What performing a program leaves behind is what the run leaves behind. -/
theorem perform_eq (s : Session) (body : List Stmt) :
    (s.perform body).2 = { s with
      machine := (Eval.interpretOn .patient stepLimit callLimit body).left s.machine } := by
  rw [Eval.interpretOn_patient]
  unfold Session.perform Eval.left
  cases Eval.interpret stepLimit callLimit body s.machine <;> rfl

theorem unhurt_runTree (s : Session) (body : List Stmt) : s.Unhurt (s.runTree body).2 := by
  have hresolve := s.unhurt_resolve body
  unfold Session.runTree
  split
  · rename_i outcome resolved heq
    rw [heq] at hresolve
    exact hresolve
  · rename_i survey resolved heq
    rw [heq] at hresolve
    have hlink : resolved.Unhurt (resolved.link survey) := .of_heap rfl rfl
    have hperform : (resolved.link survey).Unhurt ((resolved.link survey).perform body).2 := by
      rw [perform_eq]
      exact .hosted _ _ _ _ _
    exact (hresolve.trans hlink).trans hperform

theorem unhurt_run (s : Session) (text : List Char) (label : String) :
    s.Unhurt (s.run text label).2 := by
  have hread := s.unhurt_read text label
  unfold Session.run
  split
  · rename_i outcome read heq
    rw [heq] at hread
    exact hread
  · rename_i found read heq
    rw [heq] at hread
    exact hread.trans (read.unhurt_runTree found)

theorem printed?_machine (s : Session) (line : List Char) :
    (Prompt.printed? s line).2.machine = s.machine := by
  unfold Prompt.printed?
  split
  · rfl
  · dsimp only
    cases (readExpression line s.nextId).result <;> rfl

theorem unhurt_runLine (s : Session) (line : List Char) :
    s.Unhurt (Prompt.runLine s line).2 := by
  have hmachine := s.printed?_machine line
  unfold Prompt.runLine
  split
  · rename_i found read heq
    rw [heq] at hmachine
    have hread : s.Unhurt read := .of_heap (congrArg Machine.scope hmachine)
      (congrArg Machine.heap hmachine)
    exact hread.trans (read.unhurt_runTree found)
  · rename_i read heq
    rw [heq] at hmachine
    have hread : s.Unhurt read := .of_heap (congrArg Machine.scope hmachine)
      (congrArg Machine.heap hmachine)
    exact hread.trans (read.unhurt_run line Prompt.label)

/-- A listing leaves behind what the stage before it did. -/
theorem listing_snd {α : Type} (result : Except Outcome α × Session)
    (lines : α → List String) : (Prompt.listing result lines).2 = result.2 := by
  obtain ⟨found, s⟩ := result
  cases found <;> rfl

theorem unhurt_survey (s : Session) (text : List Char) : s.Unhurt (Prompt.survey s text).2 := by
  have hread := s.unhurt_read text Prompt.label
  unfold Prompt.survey
  split
  · rename_i outcome read heq
    rw [heq] at hread
    exact hread
  · rename_i found read heq
    rw [heq] at hread
    exact hread.trans (read.unhurt_resolve found)

theorem unhurt_answer (s : Session) (line : List Char) :
    s.Unhurt (Prompt.answer s line).2 := by
  have hhush : s.Unhurt s.hush := .of_heap rfl rfl
  unfold Prompt.answer
  dsimp only
  split
  · rw [listing_snd]
    exact hhush.trans (s.hush.unhurt_read _ _)
  · rw [listing_snd]
    exact hhush.trans (s.hush.unhurt_survey _)
  · exact hhush
  · exact hhush.trans (s.hush.unhurt_runLine _)

theorem Step.unhurt (h : Step s s') : s.Unhurt s' := by
  cases h with
  | ran text label => exact s.unhurt_run text label
  | answered line => exact s.unhurt_answer line
  | @hosted resolved body survey resolves host fuel room =>
      have hresolve := s.unhurt_resolve body
      rw [resolves] at hresolve
      have hlink : resolved.Unhurt (resolved.link survey) := .of_heap rfl rfl
      have hrun := Unhurt.hosted (resolved.link survey) host fuel room body
      exact (hresolve.trans hlink).trans ⟨hrun.scope, hrun.kept⟩

theorem Continues.unhurt (h : Continues s s') : s.Unhurt s' := by
  induction h with
  | refl => exact .refl s
  | tail _ hstep ih => exact ih.trans hstep.unhurt

/-- Whatever makes a program ready to run leaves the heap as it is. -/
theorem Ready.heap_eq (h : s.Ready body s') : s'.machine.heap = s.machine.heap := by
  cases h with
  | program accepted =>
      obtain ⟨-, -, trace, hmachine⟩ := Lockstep.prepares_cases accepted
      rw [hmachine]
  | @line read resolved line survey reads resolves =>
      have hread := s.printed?_machine line
      rw [reads] at hread
      obtain ⟨trace, hresolve⟩ := read.resolve_machine body
      rw [resolves] at hresolve
      show resolved.machine.heap = _
      rw [hresolve, ← hread]

/-- A program reads the global variables that were there before it. -/
theorem Ready.reads (h : s.Ready body s') {name : String} {value : Value}
    (hvalue : s.globals.find? name = some value) : s'.Reads name value := by
  rintro fuel room id token rfl hid
  have hlocal : s'.machine.heap.scopes.local? globalFrame token.lexeme = some value := by
    rw [h.heap_eq]
    exact hvalue
  have hget := Forest.get?_of_local? hlocal
  have hdistance : Eval.distance? id s'.machine = .ok none s'.machine := by
    unfold Eval.distance?
    rw [hid]
  show Eval.lookUp id token s'.machine = _
  unfold Eval.lookUp
  rw [Lockstep.run_bind_ok hdistance]
  dsimp only
  have hheap : Eval.heap s'.machine = .ok s'.machine.heap s'.machine := rfl
  unfold Eval.getNamed
  rw [Lockstep.run_bind_ok hheap, hget]
  rfl

end Session

/-- **The current frame is always restored.** Evaluating an expression, executing a statement and
calling a function or a class leave current the frame that was current, on whatever host and however
they end. So between two programs or lines of a session the global frame is current. What was a
global variable at some moment of a run is one ever after, and every later program reads the global
variables with the values that the run before left in them. -/
theorem scope_restored :
    (∀ (host : Host) (fuel room : Nat) (m : Machine),
      (∀ e, (((Eval.hostedRunner host fuel).evaluate room e).left m).scope = m.scope)
        ∧ (∀ s, (((Eval.hostedRunner host fuel).execute room s).left m).scope = m.scope)
        ∧ (∀ f arguments,
          ((Eval.callFunction (Eval.hostedRunner host fuel) room f arguments).left m).scope
            = m.scope)
        ∧ (∀ c arguments,
          ((Eval.construct (Eval.hostedRunner host fuel) room c arguments).left m).scope = m.scope)
        ∧ ∀ callee arguments,
          ((Eval.invoke (Eval.hostedRunner host fuel) room callee arguments).left m).scope
            = m.scope)
      ∧ (∀ tracing clock (s : Session), (Session.start tracing clock).Continues s →
        s.machine.scope = globalFrame)
      ∧ (∀ host fuel room body m node moment, Passes host fuel room body m node moment →
        ∀ s s' : Session, s.machine = (Eval.interpretOn host fuel room body).left m → s.Continues s' →
          moment.Keeps s'.machine)
      ∧ ∀ (s : Session) name value, s.globals.find? name = some value →
        ∀ (body : List Stmt) (s' : Session), s.Ready body s' → s'.Reads name value := by
  refine ⟨fun host fuel room m => ?_, fun tracing clock s h => ?_, ?_, ?_⟩
  · have hc := Intact.congruence m
    have hsame : host.DifferAt (.statement (.block 0 [])) m host := fun _ _ _ hne =>
      absurd rfl hne
    have hr := Intact.hostedRunner hsame fuel
    exact ⟨fun e => (hr.evaluate room fun _ _ => trivial).restored m,
      fun s => (hr.execute room fun _ _ => trivial).restored m,
      fun f arguments => (hc.callFunction hr f arguments).restored m,
      fun c arguments => (hc.construct hr c arguments).restored m,
      fun callee arguments => (hc.invoke hr callee arguments).restored m⟩
  · exact h.unhurt.scope
  · intro host fuel room body m node moment h s s' hs hlater
    have hkeeps := h.keeps
    rw [← hs] at hkeeps
    exact hkeeps.trans hlater.unhurt.kept
  · intro s name value hvalue body s' h
    exact h.reads hvalue

/-- A program that fails after it has bound a global variable. -/
def failingBody : List Stmt :=
  [.varDecl 2 ⟨.identifier, "a", ⟨1, 5, 4⟩⟩ (some (.literal 1 (.boolean true) none)),
    .expression 4 (.var 3 ⟨.identifier, "b", ⟨1, 15, 14⟩⟩)]

/-- A session in which that program has failed. -/
def failedSession : Session :=
  { Session.start false 0 with
    machine := (Eval.interpretOn .patient 2 0 failingBody).left (Machine.start false 0) }

/-- Whether a line was read as one that asks for a variable. -/
def asksForVariable : Option (List Stmt) → Bool
  | some [.print _ (.var ..)] => true
  | _ => false

theorem exists_of_asksForVariable {line : Option (List Stmt)} (h : asksForVariable line = true) :
    ∃ id id' token, line = some [.print id (.var id' token)] := by
  unfold asksForVariable at h
  split at h
  · exact ⟨_, _, _, rfl⟩
  · cases h

theorem scope_restored_failing :
    (Session.start false 0).Continues failedSession
      ∧ failedSession.machine.scope = globalFrame
      ∧ (∃ node moment, Passes .patient 2 0 failingBody (Machine.start false 0) node moment
        ∧ moment.Keeps failedSession.machine)
      ∧ ∃ body s', failedSession.Ready body s' ∧ s'.Reads "a" (.boolean true) := by
  obtain ⟨-, htop, hkeeps, hreads⟩ := scope_restored
  have hresolve : (Session.start false 0).resolve failingBody
      = (.ok (resolveProgram failingBody), Session.start false 0) := rfl
  have hcontinues : (Session.start false 0).Continues failedSession :=
    .single (.hosted hresolve .patient 2 0)
  have henters : Enters 2 0 failingBody (Machine.start false 0) _ (Machine.start false 0) :=
    enters_first 1 0 _ _ _
  have hpasses := henters.passes
  refine ⟨hcontinues, htop false 0 _ hcontinues, ⟨_, _, hpasses, ?_⟩, ?_⟩
  · exact hkeeps _ _ _ _ _ _ _ hpasses failedSession failedSession rfl .refl
  · -- The line that asks for the variable reads as an expression.
    have hasks : asksForVariable (Prompt.printed? failedSession "a".toList).1 = true := by
      decide +kernel
    obtain ⟨id, id', token, hline⟩ := exists_of_asksForVariable hasks
    have hprinted : Prompt.printed? failedSession "a".toList
        = (some [.print id (.var id' token)], (Prompt.printed? failedSession "a".toList).2) := by
      rw [← hline]
    have hresolve : (Prompt.printed? failedSession "a".toList).2.resolve
        [.print id (.var id' token)] = (.ok (resolveProgram [.print id (.var id' token)]), _) := rfl
    have hready := Session.Ready.line hprinted hresolve
    exact ⟨_, _, hready, hreads failedSession "a" (.boolean true) rfl _ _ hready⟩

end Lox
