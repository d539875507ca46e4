/-
Debugging. A session that traces writes a line for every fault that the reader
passes over, for every text that was read, for every reference that is resolved,
and for every statement that is executed (`TraceLine`). Nothing looks at what was
traced, and whether there is tracing is asked by the lines of the trace alone. So
two machines that differ in both stay equal in everything else (`Machine.Debugs`),
one step like another, and what the tracing one has written more is whole lines of
the trace.

`said` is what the two machines had traced when they were last compared.
-/
import Lox.Proofs.Run.Congruence
import Lox.Proofs.Lockstep.Simulation
import Lox.Prompt.Conversation
import Lox.Script

namespace Lox

open Eval
open Lockstep (run_bind_ok run_bind_error)

/-- The lines that only a session with tracing writes. -/
inductive TraceLine : String → Prop
  | parsed (count : Nat) (label : String) :
      TraceLine s!"Parsed {count} top-level statements from {label}"
  | recovered (d : Diagnostic) : TraceLine ("Recovered from: " ++ d.format)
  | resolved (link : Link) :
      TraceLine s!"Resolved {link.name} (node {link.id}) at distance {link.distance}"
  | executing (s : Stmt) : TraceLine ("Executing: " ++ s.kindName)

/-- The second machine traces what it does, the first does not, and they are one otherwise. The
first has traced nothing more, the second nothing but lines of the trace. -/
structure Machine.Debugs (said : String × String) (m m' : Machine) : Prop where
  plain : m.tracing = false
  silent : m.trace = said.1
  debugged : ∃ lines, (∀ line ∈ lines, TraceLine line)
    ∧ m' = { m with tracing := true, trace := said.2 ++ ended lines }

/-- Two runs end alike but for what is traced. -/
inductive Machine.DebugsTo (said : String × String) {α : Type} :
    EStateM.Result Stop Machine α → EStateM.Result Stop Machine α → Prop
  | ok {a : α} {m m' : Machine} (debugs : m.Debugs said m') : DebugsTo said (.ok a m) (.ok a m')
  | error {stop : Stop} {m m' : Machine} (debugs : m.Debugs said m') :
      DebugsTo said (.error stop m) (.error stop m')

/-- Two computations end alike on machines that differ in what they trace. -/
def Machine.Untraced (said : String × String) {α : Type} (x y : Eval α) : Prop :=
  ∀ m m', Machine.Debugs said m m' → Machine.DebugsTo said (x m) (y m')

theorem ended_append (lines more : List String) :
    ended (lines ++ more) = ended lines ++ ended more := by
  unfold ended
  rw [List.map_append, String.join_append]

namespace Machine

variable {said : String × String} {α β : Type} {m m' : Machine}

theorem foldl_note (lines : List String) (m : Machine) :
    lines.foldl Machine.note m = { m with trace := m.trace ++ ended lines } := by
  induction lines generalizing m with
  | nil =>
      have hnil : m.trace ++ ended [] = m.trace := String.append_empty
      rw [hnil]
      rfl
  | cons line rest ih =>
      have hcons : ended (line :: rest) = line ++ "\n" ++ ended rest := by
        unfold ended
        rw [List.map_cons, String.join_cons]
      rw [List.foldl_cons, ih, hcons]
      unfold Machine.note
      simp only [String.append_assoc]

theorem noteStatement_eq (s : Stmt) (m : Machine) :
    Eval.noteStatement s m = .ok () (m.noteAll ["Executing: " ++ s.kindName]) := by
  unfold Eval.noteStatement Machine.noteAll
  split <;> rfl

-- ==================================================================== steps

namespace Debugs

/-- What the tracing machine has traced beside the lines so far. -/
theorem more (h : m.Debugs said m') {lines : List String}
    (traces : ∀ line ∈ lines, TraceLine line) :
    m.Debugs said { m' with trace := m'.trace ++ ended lines } := by
  obtain ⟨plain, silent, before, hbefore, rfl⟩ := h
  refine ⟨plain, silent, before ++ lines, fun line hline => ?_, ?_⟩
  · exact (List.mem_append.mp hline).elim (hbefore line) (traces line)
  · rw [ended_append, ← String.append_assoc]

/-- One machine lists what the other passes over. -/
theorem noteAll (h : m.Debugs said m') (lines : List String)
    (traces : ∀ line ∈ lines, TraceLine line) :
    (m.noteAll lines).Debugs said (m'.noteAll lines) := by
  have hplain : m.noteAll lines = m := by
    unfold Machine.noteAll
    rw [h.plain]
    rfl
  have htracing : m'.tracing = true := by
    obtain ⟨-, -, before, -, rfl⟩ := h
    rfl
  have hnoted : m'.noteAll lines = { m' with trace := m'.trace ++ ended lines } :=
    (if_pos htracing).trans (foldl_note lines m')
  rw [hplain, hnoted]
  exact h.more traces

/-- Another frame becomes current on both machines. -/
theorem withScope (h : m.Debugs said m') {frame frame' : FrameId} (same : frame' = frame) :
    Machine.Debugs said { m with scope := frame } { m' with scope := frame' } := by
  obtain ⟨plain, silent, before, hbefore, rfl⟩ := h
  exact ⟨plain, silent, before, hbefore, by rw [same]⟩

theorem scope_eq (h : m.Debugs said m') : m'.scope = m.scope := by
  obtain ⟨-, -, before, -, rfl⟩ := h
  rfl

end Debugs

namespace Untraced

theorem bind {x y : Eval α} {f g : α → Eval β} (first : Untraced said x y)
    (rest : ∀ a, Untraced said (f a) (g a)) : Untraced said (x >>= f) (y >>= g) := by
  intro m m' h
  have hends := first m m' h
  generalize hx : x m = r at hends
  generalize hy : y m' = r' at hends
  cases hends with
  | @ok a k k' debugs =>
      rw [run_bind_ok hx, run_bind_ok hy]
      exact rest a k k' debugs
  | error debugs =>
      rw [run_bind_error hx, run_bind_error hy]
      exact .error debugs

theorem anchored {x y : Eval α} (token : Token) (inner : Untraced said x y) :
    Untraced said (Eval.anchored token x) (Eval.anchored token y) := by
  intro m m' h
  have hends := inner m m' h
  unfold Eval.anchored
  generalize x m = r at hends
  generalize y m' = r' at hends
  cases hends with
  | ok debugs => exact .ok debugs
  | @error s k k' debugs =>
      cases s with
      | fault f =>
          obtain ⟨place, cause⟩ := f
          cases place <;> exact .error debugs
      | _ => exact .error debugs

theorem inScope {x y : Eval α} (frame : FrameId) (inner : Untraced said x y) :
    Untraced said (Eval.inScope frame x) (Eval.inScope frame y) := by
  intro m m' h
  have hends := inner _ _ (h.withScope (rfl : frame = frame))
  unfold Eval.inScope
  dsimp only
  generalize x { m with scope := frame } = r at hends
  generalize y { m' with scope := frame } = r' at hends
  cases hends with
  | ok debugs => exact .ok (debugs.withScope h.scope_eq)
  | error debugs => exact .error (debugs.withScope h.scope_eq)

/-- A step that has nothing to do with traces. -/
theorem step {x : Eval α} (h : ∀ m trace, ∃ a k, x m = .ok a k ∧ k.tracing = m.tracing
    ∧ k.trace = m.trace
    ∧ x { m with tracing := true, trace } = .ok a { k with tracing := true, trace }) :
    Untraced said x x := by
  intro m m' hm
  obtain ⟨plain, silent, before, hbefore, rfl⟩ := hm
  obtain ⟨a, k, hx, htracing, htrace, hx'⟩ := h m (said.2 ++ ended before)
  rw [hx, hx']
  exact .ok ⟨htracing.trans plain, htrace.trans silent, before, hbefore, rfl⟩

theorem stop (s : Stop) : Untraced (α := α) said (Eval.stop s) (Eval.stop s) :=
  fun _ _ h => .error h

/-- Executing a statement is noted on one side. -/
theorem noteStatement (s : Stmt) :
    Untraced said (Eval.noteStatement s) (Eval.noteStatement s) := by
  intro m m' h
  have hnoted := h.noteAll ["Executing: " ++ s.kindName] (by
    intro line hline
    rw [List.mem_singleton.mp hline]
    exact .executing s)
  rw [noteStatement_eq, noteStatement_eq]
  exact .ok hnoted

/-- Evaluation goes alike with and without traces because all its steps do. -/
theorem congruence (said : String × String) :
    Congruence (fun _ => True) (fun {_} x y => Untraced said x y) where
  pure a := step fun m _ => ⟨a, m, rfl, rfl, rfl, rfl⟩
  bind := Untraced.bind
  stop := stop
  anchored := Untraced.anchored
  inScope := Untraced.inScope
  heap := step fun _ _ => ⟨_, _, rfl, rfl, rfl, rfl⟩
  scope := step fun _ _ => ⟨_, _, rfl, rfl, rfl, rfl⟩
  distance _ := step fun _ _ => ⟨_, _, rfl, rfl, rfl, rfl⟩
  closure {_ f _ _} rest := by
    refine bind (bind (step fun _ _ => ⟨_, _, rfl, rfl, rfl, rfl⟩) fun h => ?_) fun c =>
      rest c fun _ _ => trivial
    cases h.functions[f]? with
    | none => exact stop _
    | some c => exact step fun _ _ => ⟨_, _, rfl, rfl, rfl, rfl⟩
  noteStatement := noteStatement
  print _ := step fun _ _ => ⟨_, _, rfl, rfl, rfl, rfl⟩
  readClock := step fun _ _ => ⟨_, _, rfl, rfl, rfl, rfl⟩
  define _ _ := step fun _ _ => ⟨_, _, rfl, rfl, rfl, rfl⟩
  bindAt _ _ _ := step fun _ _ => ⟨_, _, rfl, rfl, rfl, rfl⟩
  setField _ _ _ := step fun _ _ => ⟨_, _, rfl, rfl, rfl, rfl⟩
  newFrame _ _ := step fun _ _ => ⟨_, _, rfl, rfl, rfl, rfl⟩
  newFunction _ := step fun _ _ => ⟨_, _, rfl, rfl, rfl, rfl⟩
  newClass _ := step fun _ _ => ⟨_, _, rfl, rfl, rfl, rfl⟩
  newObject _ := step fun _ _ => ⟨_, _, rfl, rfl, rfl, rfl⟩

theorem runner (said : String × String) (fuel : Nat) :
    Runner.Alike (fun _ => True) (fun {_} x y => Untraced said x y) (Eval.runner fuel)
      (Eval.runner fuel) := by
  induction fuel with
  | zero => exact (congruence said).exhausted
  | succ fuel ih =>
      rw [Eval.runner_succ]
      exact (congruence said).deepen ih

theorem interpret (said : String × String) (fuel room : Nat) (body : List Stmt) :
    Untraced said (Eval.interpret fuel room body) (Eval.interpret fuel room body) :=
  (congruence said).interpretWith (runner said fuel) fun _ _ => trivial

end Untraced

end Machine

-- ================================================================== sessions

/-- The second session traces what it does, the first does not, and they are one otherwise. -/
structure Session.Debugs (said : String × String) (s s' : Session) : Prop where
  machine : s.machine.Debugs said s'.machine
  nextId : s'.nextId = s.nextId

/-- Two stages have one result, and the sessions behind them differ in their traces only. -/
structure Session.Likewise (said : String × String) {ε : Type} (r r' : ε × Session) : Prop where
  result : r'.1 = r.1
  left : r.2.Debugs said r'.2

theorem traceLine_of_reading {text : List Char} {label : String} {r : Reading (List Stmt)}
    {line : String} (h : line ∈ r.trace text label) : TraceLine line := by
  unfold Reading.trace at h
  rcases List.mem_append.mp h with hrecovered | hparsed
  · obtain ⟨d, -, rfl⟩ := List.mem_map.mp hrecovered
    exact .recovered d
  · cases hprogram : r.program with
    | ok body =>
        rw [hprogram] at hparsed
        rw [List.mem_singleton.mp hparsed]
        exact .parsed body.length label
    | error faults =>
        rw [hprogram] at hparsed
        cases hparsed

theorem traceLine_of_survey {survey : Survey} {line : String} (h : line ∈ survey.trace) :
    TraceLine line := by
  obtain ⟨link, -, rfl⟩ := List.mem_map.mp h
  exact .resolved link

namespace Session

variable {said : String × String} {s s' : Session}

namespace Debugs

/-- Sessions that forget what was printed and traced differ still. -/
theorem hush (h : s.Debugs said s') : s.hush.Debugs ("", "") s'.hush := by
  obtain ⟨⟨plain, -, before, -, hmachine⟩, hnext⟩ := h
  refine ⟨⟨plain, rfl, [], ⟨fun _ hline => absurd hline List.not_mem_nil, ?_⟩⟩, hnext⟩
  unfold Session.hush
  rw [hmachine]
  rfl

theorem read (h : s.Debugs said s') (text : List Char) (label : String) :
    Likewise said (s.read text label) (s'.read text label) := by
  have hnoted := h.machine.noteAll ((readProgram text s.nextId).trace text label)
    fun _ => traceLine_of_reading
  unfold Session.read
  rw [h.nextId]
  dsimp only
  cases (readProgram text s.nextId).program with
  | ok body => exact ⟨rfl, hnoted, rfl⟩
  | error faults => exact ⟨rfl, hnoted, rfl⟩

theorem resolve (h : s.Debugs said s') (body : List Stmt) :
    Likewise said (s.resolve body) (s'.resolve body) := by
  have hnoted := h.machine.noteAll (resolveProgram body).trace
    fun _ => traceLine_of_survey
  unfold Session.resolve
  dsimp only
  split
  · exact ⟨rfl, hnoted, h.nextId⟩
  · exact ⟨rfl, hnoted, h.nextId⟩

theorem link (h : s.Debugs said s') (survey : Survey) :
    (s.link survey).Debugs said (s'.link survey) := by
  obtain ⟨⟨plain, silent, before, hbefore, hmachine⟩, hnext⟩ := h
  refine ⟨⟨plain, silent, before, hbefore, ?_⟩, hnext⟩
  unfold Session.link
  rw [hmachine]

theorem perform (h : s.Debugs said s') (body : List Stmt) :
    Likewise said (s.perform body) (s'.perform body) := by
  have hends := Machine.Untraced.interpret said stepLimit callLimit body _ _ h.machine
  unfold Session.perform
  generalize Eval.interpret stepLimit callLimit body s.machine = r at hends ⊢
  generalize Eval.interpret stepLimit callLimit body s'.machine = r' at hends ⊢
  cases hends with
  | ok debugs => exact ⟨rfl, debugs, h.nextId⟩
  | error debugs => exact ⟨rfl, debugs, h.nextId⟩

end Debugs

/-- Stages that go likewise both fail or both succeed. -/
theorem Likewise.cases {α : Type} {r r' : Except Outcome α × Session} (h : Likewise said r r') :
    (∃ outcome s s', r = (.error outcome, s) ∧ r' = (.error outcome, s') ∧ s.Debugs said s')
      ∨ ∃ a s s', r = (.ok a, s) ∧ r' = (.ok a, s') ∧ s.Debugs said s' := by
  obtain ⟨result, s⟩ := r
  obtain ⟨result', s'⟩ := r'
  obtain ⟨hresult, hleft⟩ := h
  cases hresult
  cases result with
  | error outcome => exact .inl ⟨outcome, s, s', rfl, rfl, hleft⟩
  | ok a => exact .inr ⟨a, s, s', rfl, rfl, hleft⟩

namespace Debugs

theorem runTree (h : s.Debugs said s') (body : List Stmt) :
    Likewise said (s.runTree body) (s'.runTree body) := by
  unfold Session.runTree
  rcases (h.resolve body).cases with ⟨_, _, _, hr, hr', hleft⟩ | ⟨survey, _, _, hr, hr', hleft⟩
  · rw [hr, hr']
    exact ⟨rfl, hleft⟩
  · have hperform := (hleft.link survey).perform body
    rw [hr, hr']
    exact ⟨congrArg Outcome.settled hperform.result, hperform.left⟩

theorem run (h : s.Debugs said s') (text : List Char) (label : String) :
    Likewise said (s.run text label) (s'.run text label) := by
  unfold Session.run
  rcases (h.read text label).cases with ⟨_, _, _, hr, hr', hleft⟩ | ⟨body, _, _, hr, hr', hleft⟩
  · rw [hr, hr']
    exact ⟨rfl, hleft⟩
  · rw [hr, hr']
    exact hleft.runTree body

theorem survey (h : s.Debugs said s') (text : List Char) :
    Likewise said (Prompt.survey s text) (Prompt.survey s' text) := by
  unfold Prompt.survey
  rcases (h.read text Prompt.label).cases with
    ⟨_, _, _, hr, hr', hleft⟩ | ⟨body, _, _, hr, hr', hleft⟩
  · rw [hr, hr']
    exact ⟨rfl, hleft⟩
  · rw [hr, hr']
    exact hleft.resolve body

theorem printed? (h : s.Debugs said s') (line : List Char) :
    Likewise said (Prompt.printed? s line) (Prompt.printed? s' line) := by
  unfold Prompt.printed?
  rw [h.nextId]
  split
  · exact ⟨rfl, h⟩
  · dsimp only
    cases (readExpression line s.nextId).result with
    | ok e => exact ⟨rfl, h.machine, rfl⟩
    | error _ => exact ⟨rfl, h.machine, rfl⟩

theorem runLine (h : s.Debugs said s') (line : List Char) :
    Likewise said (Prompt.runLine s line) (Prompt.runLine s' line) := by
  obtain ⟨hprinted, hleft⟩ := h.printed? line
  unfold Prompt.runLine
  generalize Prompt.printed? s line = r at hprinted hleft
  generalize Prompt.printed? s' line = r' at hprinted hleft
  obtain ⟨found, read⟩ := r
  obtain ⟨found', read'⟩ := r'
  cases hprinted
  cases found with
  | some body => exact hleft.runTree body
  | none => exact hleft.run line Prompt.label

end Debugs

end Session

-- =============================================================== transcripts

/-- Lines among which lines of the trace were put. -/
inductive WithTraces : List String → List String → Prop
  | nil : WithTraces [] []
  | kept {lines lines' : List String} (line : String) (rest : WithTraces lines lines') :
      WithTraces (line :: lines) (line :: lines')
  | traced {lines lines' : List String} {line : String} (trace : TraceLine line)
      (rest : WithTraces lines lines') : WithTraces lines (line :: lines')

/-- Two transcripts differ in the error channel alone: the second has lines of the trace there that
the first has not. -/
structure Transcript.Debugs (t t' : Transcript) : Prop where
  out : t'.out = t.out
  exit : t'.exit = t.exit
  err : ∃ lines lines', t.err = ended lines ∧ t'.err = ended lines' ∧ WithTraces lines lines'

namespace WithTraces

variable {a b a' b' : List String}

theorem refl (lines : List String) : WithTraces lines lines := by
  induction lines with
  | nil => exact .nil
  | cons line rest ih => exact .kept line ih

/-- Lines of the trace in front. -/
theorem before (traces : ∀ line ∈ a, TraceLine line) (h : WithTraces b b') :
    WithTraces b (a ++ b') := by
  induction a with
  | nil => exact h
  | cons line rest ih =>
      exact .traced (traces line List.mem_cons_self)
        (ih fun l hl => traces l (List.mem_cons_of_mem line hl))

theorem append (first : WithTraces a a') (rest : WithTraces b b') :
    WithTraces (a ++ b) (a' ++ b') := by
  induction first with
  | nil => exact rest
  | kept line _ ih => exact .kept line ih
  | traced trace _ ih => exact .traced trace ih

end WithTraces

namespace Transcript.Debugs

variable {t t' : Transcript}

/-- Whoever writes whole lines on the error channel may do so on both sides. -/
theorem same (out : String) (lines : List String) (exit : Option Int) :
    Transcript.Debugs ⟨out, ended lines, exit⟩ ⟨out, ended lines, exit⟩ :=
  ⟨rfl, rfl, lines, lines, rfl, rfl, .refl lines⟩

theorem andThen (h : t.Debugs t') {k k' : Unit → Transcript}
    (rest : ∀ u, (k u).Debugs (k' u)) :
    (t.andThen k).Debugs (t'.andThen k') := by
  unfold Transcript.andThen
  rw [h.exit]
  cases t.exit with
  | some code => exact h
  | none =>
      obtain ⟨lines, lines', herr, herr', hlines⟩ := h.err
      obtain ⟨more, more', hmore, hmore', htraces⟩ := (rest ()).err
      refine ⟨?_, (rest ()).exit, lines ++ more, lines' ++ more', ?_, ?_, hlines.append htraces⟩
      · dsimp only
        rw [h.out, (rest ()).out]
      · dsimp only
        rw [herr, hmore, ended_append]
      · dsimp only
        rw [herr', hmore', ended_append]

end Transcript.Debugs

theorem Outcome.exists_report (source : Option (List Char)) (outcome : Outcome) :
    ∃ lines, outcome.report source = ended lines := by
  unfold Outcome.report
  split
  · exact ⟨_, rfl⟩
  · exact ⟨_, rfl⟩

namespace Session.Debugs

variable {said : String × String} {s s' : Session}

/-- What the sessions show differs by what they traced since they were compared. -/
theorem transcript (h : s.Debugs said s') (source : Option (List Char)) (outcome : Outcome) :
    ∃ lines, (∀ line ∈ lines, TraceLine line)
      ∧ s.transcript source outcome
        = ⟨s.machine.output, said.1 ++ outcome.report source, outcome.exitCode⟩
      ∧ s'.transcript source outcome
        = ⟨s.machine.output, said.2 ++ ended lines ++ outcome.report source, outcome.exitCode⟩ := by
  obtain ⟨-, silent, lines, traces, hmachine⟩ := h.machine
  refine ⟨lines, traces, ?_, ?_⟩
  · unfold Session.transcript
    rw [silent]
  · unfold Session.transcript
    rw [hmachine]

theorem shows (h : s.Debugs ("", "") s') (source : Option (List Char)) (outcome : Outcome) :
    (s.transcript source outcome).Debugs (s'.transcript source outcome) := by
  obtain ⟨lines, traces, hplain, hdebug⟩ := h.transcript source outcome
  obtain ⟨report, hreport⟩ := outcome.exists_report source
  rw [hplain, hdebug, hreport]
  refine ⟨rfl, rfl, report, lines ++ report, ?_, ?_, .before traces (.refl report)⟩
  · exact String.empty_append
  · dsimp only
    rw [String.empty_append, ended_append]

theorem listing {α : Type} {r r' : Except Outcome α × Session} (h : Likewise ("", "") r r')
    (lines : α → List String) :
    (Prompt.listing r lines).1.Debugs (Prompt.listing r' lines).1
      ∧ (Prompt.listing r lines).2.Debugs ("", "") (Prompt.listing r' lines).2 := by
  rcases h.cases with ⟨outcome, _, _, hr, hr', hleft⟩ | ⟨a, _, _, hr, hr', hleft⟩
  · rw [hr, hr']
    exact ⟨hleft.shows none outcome, hleft⟩
  · rw [hr, hr']
    exact ⟨(hleft.shows none .completed).andThen fun _ => .same _ [] none, hleft⟩

/-- A line is answered alike. -/
theorem answer (h : s.Debugs said s') (line : List Char) :
    (Prompt.answer s line).1.Debugs (Prompt.answer s' line).1
      ∧ (Prompt.answer s line).2.Debugs ("", "") (Prompt.answer s' line).2 := by
  have hhush := h.hush
  unfold Prompt.answer
  dsimp only
  cases Prompt.Request.ofLine line with
  | showTree text => exact listing (hhush.read text Prompt.label) _
  | showDistances text => exact listing (hhush.survey text) _
  | showGlobals =>
      have hlines : Prompt.globalLines s'.hush = Prompt.globalLines s.hush := by
        obtain ⟨-, -, before, -, hmachine⟩ := hhush.machine
        unfold Prompt.globalLines Session.globals
        rw [hmachine]
      dsimp only
      rw [hlines]
      exact ⟨.same _ [] none, hhush⟩
  | run text =>
      have hline := hhush.runLine text
      dsimp only
      rw [hline.result]
      exact ⟨hline.left.shows none _, hline.left⟩

theorem turn (h : s.Debugs said s') (line : List Char) :
    (Prompt.turn s line = .quit ∧ Prompt.turn s' line = .quit)
      ∨ ∃ shown shown' next next' said, Prompt.turn s line = .goOn shown next
        ∧ Prompt.turn s' line = .goOn shown' next' ∧ shown.Debugs shown'
        ∧ next.Debugs said next' := by
  unfold Prompt.turn
  dsimp only
  cases Text.trim line == ":quit".toList with
  | true => exact .inl ⟨rfl, rfl⟩
  | false =>
      refine .inr ?_
      cases (Text.trim line).isEmpty with
      | true => exact ⟨_, _, _, _, _, rfl, rfl, .same _ [] none, h⟩
      | false =>
          cases Text.trim line == ":help".toList with
          | true => exact ⟨_, _, _, _, _, rfl, rfl, .same _ [] none, h⟩
          | false => exact ⟨_, _, _, _, _, rfl, rfl, (h.answer line).1, (h.answer line).2⟩

/-- A conversation goes alike. -/
theorem converse (h : s.Debugs said s') (lines : List (List Char)) :
    (Prompt.converse s lines).Debugs (Prompt.converse s' lines) := by
  induction lines generalizing said s s' with
  | nil => exact .same _ [] none
  | cons line rest ih =>
      unfold Prompt.converse
      refine Transcript.Debugs.andThen (.same _ [] none) fun _ => ?_
      rcases h.turn line with ⟨hquit, hquit'⟩ | ⟨_, _, _, _, _, hturn, hturn', hshown, hnext⟩
      · rw [hquit, hquit']
        exact .same _ [] none
      · rw [hturn, hturn']
        exact hshown.andThen fun _ => ih hnext

-- ==================================================================== scripts

theorem conclude (h : s.Debugs ("", "") s') (text : List Char) (outcome : Outcome) :
    (Script.conclude s text outcome).Debugs (Script.conclude s' text outcome) := by
  have hshows := h.shows (some text) outcome
  unfold Script.conclude
  dsimp only
  split
  · exact hshows
  · exact ⟨hshows.out, rfl, hshows.err⟩
  · exact ⟨hshows.out, rfl, hshows.err⟩
  · exact ⟨hshows.out, rfl, hshows.err⟩
  · exact ⟨hshows.out, rfl, hshows.err⟩

/-- A script runs alike. -/
theorem script (h : s.Debugs ("", "") s') (text : List Char) (path : String) :
    (Script.run s text path).Debugs (Script.run s' text path)
      ∧ (Script.showTree s text path).Debugs (Script.showTree s' text path)
      ∧ (Script.showReferences s text path).Debugs (Script.showReferences s' text path) := by
  have hread := h.read text path
  refine ⟨?_, ?_, ?_⟩
  · have hrun := h.run text path
    unfold Script.run
    dsimp only
    rw [hrun.result]
    exact hrun.left.conclude text _
  · unfold Script.showTree
    rcases hread.cases with ⟨outcome, _, _, hr, hr', hleft⟩ | ⟨body, _, _, hr, hr', hleft⟩
    · rw [hr, hr']
      exact hleft.conclude text outcome
    · rw [hr, hr']
      exact (hleft.conclude text .completed).andThen fun _ => .same _ [] none
  · unfold Script.showReferences
    rcases hread.cases with ⟨outcome, _, _, hr, hr', hleft⟩ | ⟨body, _, _, hr, hr', hleft⟩
    · rw [hr, hr']
      exact hleft.conclude text outcome
    · rw [hr, hr']
      dsimp only
      rcases (hleft.resolve body).cases with
        ⟨outcome, _, _, ht, ht', hrest⟩ | ⟨survey, _, _, ht, ht', hrest⟩
      · rw [ht, ht']
        exact hrest.conclude text outcome
      · rw [ht, ht']
        exact (hrest.conclude text .completed).andThen fun _ => .same _ [] none

end Session.Debugs

theorem debugs_start (clock : Float) :
    (Session.start false clock).Debugs ("", "") (Session.start true clock) :=
  ⟨⟨rfl, rfl, [], ⟨fun _ hline => absurd hline List.not_mem_nil, rfl⟩⟩, rfl⟩

/-- **Tracing changes nothing but the trace.** A session that traces and one that does not, and that
are one otherwise, read, resolve and run everything with one result, and are one otherwise
afterwards. Sessions that are so show the same but for lines of the trace, which the tracing one has
on its error channel in front of the reports. The same goes for scripts, for lines at the prompt, and
for whole conversations. -/
theorem tracing_only_traces {said : String × String} {s s' : Session} (h : s.Debugs said s') :
    (∀ text label, Session.Likewise said (s.read text label) (s'.read text label))
      ∧ (∀ body, Session.Likewise said (s.resolve body) (s'.resolve body))
      ∧ (∀ body, Session.Likewise said (s.runTree body) (s'.runTree body))
      ∧ (∀ text label, Session.Likewise said (s.run text label) (s'.run text label))
      ∧ (∀ t t' : Session, t.Debugs said t' → ∀ source outcome,
        ∃ lines, (∀ line ∈ lines, TraceLine line)
          ∧ t.transcript source outcome
            = ⟨t.machine.output, said.1 ++ outcome.report source, outcome.exitCode⟩
          ∧ t'.transcript source outcome
            = ⟨t.machine.output, said.2 ++ ended lines ++ outcome.report source,
              outcome.exitCode⟩)
      ∧ (∀ line, (Prompt.answer s line).1.Debugs (Prompt.answer s' line).1
        ∧ (Prompt.answer s line).2.Debugs ("", "") (Prompt.answer s' line).2)
      ∧ (∀ lines, (Prompt.converse s lines).Debugs (Prompt.converse s' lines))
      ∧ ∀ clock text path,
        (Script.run (Session.start false clock) text path).Debugs
            (Script.run (Session.start true clock) text path)
          ∧ (Script.showTree (Session.start false clock) text path).Debugs
            (Script.showTree (Session.start true clock) text path)
          ∧ (Script.showReferences (Session.start false clock) text path).Debugs
            (Script.showReferences (Session.start true clock) text path) :=
  ⟨h.read, h.resolve, h.runTree, h.run, fun _ _ ht => ht.transcript, h.answer, h.converse,
    fun clock => (debugs_start clock).script⟩

theorem tracing_only_traces_start :
    Session.Likewise ("", "") ((Session.start false 0).runTree [.print 2 (.literal 1 .nil none)])
      ((Session.start true 0).runTree [.print 2 (.literal 1 .nil none)]) := by
  obtain ⟨-, -, hruns, -⟩ := tracing_only_traces (debugs_start 0)
  exact hruns _

end Lox
