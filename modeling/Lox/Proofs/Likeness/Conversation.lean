/-
Conversations without their idle lines. An idle line uses up numbers of nodes and
does nothing else. So if some idle lines are left out of a conversation
(`Prompt.Thinned`), the lines that are kept meet sessions that differ in the numbers
of nodes, and they are answered alike (`Session.Corresponds.answer`): what they
show is the same but for the numbers that are named in it, and so is the session
in the end.
-/
import Lox.Proofs.Likeness.Echo

namespace Lox

/-- Two transcripts are the same but for the numbers of nodes in them. -/
structure Transcript.Alike (numbers : NodeId → NodeId → Prop) (t t' : Transcript) : Prop where
  out : TextAlike (.renumbered numbers) t.out t'.out
  err : TextAlike (.renumbered numbers) t.err t'.err
  exit : t'.exit = t.exit

variable {numbers more : NodeId → NodeId → Prop} {s s' : Session}

namespace Transcript.Alike

variable {t t' : Transcript}

theorem refl (t : Transcript) : t.Alike numbers t := ⟨.same _, .same _, rfl⟩

theorem mono (h : t.Alike numbers t') (le : ∀ id id', numbers id id' → more id id') :
    t.Alike more t' :=
  ⟨TextAlike.mono le h.out, TextAlike.mono le h.err, h.exit⟩

theorem andThen (h : t.Alike numbers t') {k k' : Unit → Transcript}
    (rest : ∀ u, (k u).Alike numbers (k' u)) : (t.andThen k).Alike numbers (t'.andThen k') := by
  unfold Transcript.andThen
  rw [h.exit]
  cases t.exit with
  | some code => exact h
  | none => exact ⟨.append h.out (rest ()).out, .append h.err (rest ()).err, (rest ()).exit⟩

end Transcript.Alike

/-- Outcomes that match where tokens are the same are reported in the same words. -/
theorem Outcome.Matches.report_eq {outcome outcome' : Outcome}
    (h : outcome.Matches (.renumbered numbers) outcome') (source : Option (List Char)) :
    outcome'.report source = outcome.report source ∧ outcome'.exitCode = outcome.exitCode := by
  cases h with
  | completed => exact ⟨rfl, rfl⟩
  | unreadable reports => exact ⟨rfl, rfl⟩
  | illScoped alike =>
      rw [Session.faults_eq alike]
      exact ⟨rfl, rfl⟩
  | stopped alike =>
      cases alike with
      | fault place =>
          cases place with
          | none => exact ⟨rfl, rfl⟩
          | some same =>
              cases same
              exact ⟨rfl, rfl⟩
      | exit code => exact ⟨rfl, rfl⟩
      | overflow => exact ⟨rfl, rfl⟩
      | broken link => exact ⟨rfl, rfl⟩
      | missing node => exact ⟨rfl, rfl⟩
      | exhausted => exact ⟨rfl, rfl⟩

namespace Session

/-- A stage may be followed by another. -/
theorem Stage.trans {ε ε' : Type} {R : (NodeId → NodeId → Prop) → ε → ε → Prop}
    {S : (NodeId → NodeId → Prop) → ε' → ε' → Prop} {r r' : ε × Session} {t t' : ε' × Session}
    (first : Stage numbers R r r')
    (rest : ∀ more, R more r.1 r'.1 → r.2.Echoes more r'.2 → Stage more S t t') :
    Stage numbers S t t' := by
  obtain ⟨more, hmore, hresult, hleft⟩ := first
  obtain ⟨most, hmost, hresults, hlefts⟩ := rest more hresult hleft
  exact ⟨most, fun id id' hn => hmost id id' (hmore id id' hn), hresults, hlefts⟩

/-- A stage that does nothing. -/
theorem Stage.stay {ε : Type} {R : (NodeId → NodeId → Prop) → ε → ε → Prop} {e e' : ε}
    (h : s.Echoes numbers s') (alike : R numbers e e') : Stage numbers R (e, s) (e', s') :=
  ⟨numbers, fun _ _ hn => hn, alike, h⟩

namespace Echoes

-- ==================================================================== stages

theorem refused {outcome : Outcome} (h : s.Echoes numbers s') (refusal : outcome.Refusal) :
    Stage numbers (fun more => Outcome.Matches (.renumbered more)) (outcome, s) (outcome, s') := by
  refine .stay h ?_
  cases refusal with
  | unreadable reports => exact .unreadable reports
  | illScoped faults => exact .illScoped (List.forall₂_same.mpr fun fault _ => ⟨rfl, rfl⟩)

theorem run (h : s.Echoes numbers s') (text : List Char) (label : String) :
    Stage numbers (fun more => Outcome.Matches (.renumbered more)) (s.run text label)
      (s'.run text label) := by
  refine (h.read text label).trans fun more hread hleft => ?_
  unfold Session.run
  generalize s.read text label = r at hread hleft ⊢
  generalize s'.read text label = r' at hread hleft ⊢
  obtain ⟨result, t⟩ := r
  obtain ⟨result', t'⟩ := r'
  cases hread with
  | refused refusal => exact hleft.refused refusal
  | found alike => exact hleft.runTree alike

theorem survey (h : s.Echoes numbers s') (text : List Char) :
    Stage numbers (fun more => Except.Alike (Survey.Alike (.renumbered more)))
      (Prompt.survey s text) (Prompt.survey s' text) := by
  refine (h.read text Prompt.label).trans fun more hread hleft => ?_
  unfold Prompt.survey
  generalize s.read text Prompt.label = r at hread hleft ⊢
  generalize s'.read text Prompt.label = r' at hread hleft ⊢
  obtain ⟨result, t⟩ := r
  obtain ⟨result', t'⟩ := r'
  cases hread with
  | refused refusal => exact .stay hleft (.refused refusal)
  | found alike => exact hleft.resolve alike

/-- A line is taken as an expression on both sides, or on none. -/
theorem printed? (h : s.Echoes numbers s') (line : List Char) :
    Stage numbers (fun more => Option.Rel (Stmt.Renumbered more)) (Prompt.printed? s line)
      (Prompt.printed? s' line) := by
  have halike := readExpression_alike
    (Likeness.renumbered_reads (ahead numbers s.nextId s'.nextId)) (fun k => .inr ⟨k, rfl, rfl⟩) line
  have hle := le_readExpression line s.nextId
  unfold Prompt.printed?
  split
  · exact .stay h .none
  · dsimp only
    cases hresult : (readExpression line s.nextId).result with
    | error failure =>
        rw [halike.failed failure hresult]
        exact ⟨_, fun _ _ hn => h.upTo hle hn, .none, h.hand hle (halike.nodes 0)⟩
    | ok e =>
        obtain ⟨e', hresult', he⟩ := halike.found e hresult
        rw [hresult']
        have hbelow : s.nextId ≤ (readExpression line s.nextId).nextId + 1 := Nat.le_succ_of_le hle
        refine ⟨_, fun _ _ hn => h.upTo hbelow hn, .some ?_, h.hand hbelow (halike.nodes 1)⟩
        refine renumbered_upTo (.cons (.print (halike.nodes 0) he) .nil) fun id hid => ?_
        have hids : Stmt.idsAll [.print (readExpression line s.nextId).nextId e]
            = (readExpression line s.nextId).nextId :: e.ids := by
          simp [Stmt.idsAll, Stmt.nodesAll, Stmt.nodes, Expr.ids, Node.id, Stmt.id]
        rw [hids] at hid
        rcases List.mem_cons.mp hid with rfl | hid
        · exact Nat.lt_succ_self _
        · exact Nat.lt_succ_of_lt ((numbers_of_expression hresult).range id hid).2

/-- A line is run alike. -/
theorem runLine (h : s.Echoes numbers s') (line : List Char) :
    Stage numbers (fun more => Outcome.Matches (.renumbered more)) (Prompt.runLine s line)
      (Prompt.runLine s' line) := by
  refine (h.printed? line).trans fun more hprinted hleft => ?_
  unfold Prompt.runLine
  generalize Prompt.printed? s line = r at hprinted hleft ⊢
  generalize Prompt.printed? s' line = r' at hprinted hleft ⊢
  obtain ⟨found, t⟩ := r
  obtain ⟨found', t'⟩ := r'
  cases hprinted with
  | none => exact hleft.run line Prompt.label
  | some alike => exact hleft.runTree alike

-- =================================================================== answers

/-- Sessions that echo each other show the same. -/
theorem shows (h : s.Echoes numbers s') {outcome outcome' : Outcome}
    (alike : outcome.Matches (.renumbered numbers) outcome') :
    (s.transcript none outcome).Alike numbers (s'.transcript none outcome') := by
  obtain ⟨hreport, hexit⟩ := alike.report_eq none
  unfold Session.transcript
  rw [h.output, hreport, hexit]
  exact ⟨.same _, .append h.trace (.same _), rfl⟩

theorem listing {α : Type} {R : (NodeId → NodeId → Prop) → α → α → Prop}
    {r r' : Except Outcome α × Session} {lines : α → List String}
    (h : Stage numbers (fun more => Except.Alike (R more)) r r')
    (hlines : ∀ more a a', (Likeness.renumbered more).InOrder → R more a a' →
      List.Forall₂ (LineAlike (.renumbered more)) (lines a) (lines a')) :
    Stage numbers Transcript.Alike (Prompt.listing r lines) (Prompt.listing r' lines) := by
  refine h.trans fun more hresult hleft => ?_
  obtain ⟨result, t⟩ := r
  obtain ⟨result', t'⟩ := r'
  cases hresult with
  | @refused outcome refusal =>
      obtain ⟨most, hmost, halike, hrest⟩ := hleft.refused refusal
      exact ⟨most, hmost, hrest.shows halike, hrest⟩
  | found alike =>
      refine .stay hleft ((hleft.shows .completed).andThen fun _ => ?_)
      exact ⟨.ended (hlines more _ _ hleft.order alike), .same _, rfl⟩

end Echoes

/-- Heaps that are alike hold the same global variables, and list their values alike. -/
theorem globalLines_eq {ρ : Likeness} (h : s.machine.heap.Alike ρ s'.machine.heap) :
    Prompt.globalLines s' = Prompt.globalLines s := by
  have hglobals : s'.globals = s.globals := by
    unfold Session.globals
    rw [h.scopes]
  have hlisted : Prompt.listed s'.machine.heap = Prompt.listed s.machine.heap := by
    funext value
    cases value with
    | nil | boolean | number => rfl
    | _ =>
        unfold Prompt.listed
        exact h.text_eq _
  unfold Prompt.globalLines
  rw [hglobals, hlisted]

/-- A line is answered alike. -/
theorem Corresponds.answer (h : s.Corresponds numbers s') (line : List Char) :
    Stage numbers Transcript.Alike (Prompt.answer s line) (Prompt.answer s' line) := by
  have hhush := h.hush
  unfold Prompt.answer
  dsimp only
  cases Prompt.Request.ofLine line with
  | showTree text =>
      refine Echoes.listing (hhush.read text Prompt.label) fun more body body' _ alike => ?_
      rw [List.forall₂_map_left_iff, List.forall₂_map_right_iff]
      refine alike.imp fun a a' ha => ?_
      rw [ha.view_eq]
      exact .same _
  | showDistances text =>
      exact Echoes.listing (hhush.survey text) fun more a a' order alike => alike.distanceLines order
  | showGlobals =>
      dsimp only
      rw [globalLines_eq hhush.machine.heap]
      exact .stay hhush (.refl _)
  | run text =>
      refine (hhush.runLine text).trans fun more houtcome hleft => ?_
      exact .stay hleft (hleft.shows houtcome)

end Session

-- ============================================================= conversations

namespace Prompt

/-- What the lines of a conversation show, one after another, and the session in the end. -/
inductive Held : Session → List (List Char) → List Transcript → Session → Prop
  | ended (s : Session) : Held s [] [] s
  | quit {s : Session} {line : List Char} (rest : List (List Char)) (quits : turn s line = .quit) :
      Held s (line :: rest) [] s
  | left {s next : Session} {line : List Char} {shown : Transcript} (rest : List (List Char))
      (goes : turn s line = .goOn shown next) (exits : shown.exit.isSome = true) :
      Held s (line :: rest) [shown] next
  | wentOn {s next last : Session} {line : List Char} {shown : Transcript}
      {rest : List (List Char)} {shows : List Transcript} (goes : turn s line = .goOn shown next)
      (stays : shown.exit = none) (others : Held next rest shows last) :
      Held s (line :: rest) (shown :: shows) last

/-- A conversation some idle lines of which are left out: its lines, those that are kept, what these
show, and the session in the end. -/
inductive Thinned :
    Session → List (List Char) → List (List Char) → List Transcript → Session → Prop
  | ended (s : Session) : Thinned s [] [] [] s
  | quit {s : Session} {line : List Char} (rest : List (List Char)) (quits : turn s line = .quit) :
      Thinned s (line :: rest) (line :: rest) [] s
  | left {s next : Session} {line : List Char} {shown : Transcript} (rest : List (List Char))
      (goes : turn s line = .goOn shown next) (exits : shown.exit.isSome = true) :
      Thinned s (line :: rest) (line :: rest) [shown] next
  | kept {s next last : Session} {line : List Char} {shown : Transcript}
      {rest rest' : List (List Char)} {shows : List Transcript}
      (goes : turn s line = .goOn shown next) (stays : shown.exit = none)
      (others : Thinned next rest rest' shows last) :
      Thinned s (line :: rest) (line :: rest') (shown :: shows) last
  | dropped {s next last : Session} {line : List Char} {shown : Transcript}
      {rest rest' : List (List Char)} {shows : List Transcript}
      (goes : turn s line = .goOn shown next) (idle : Idle s line)
      (others : Thinned next rest rest' shows last) : Thinned s (line :: rest) rest' shows last

/-- A line asks to quit, is answered, or says something that has nothing to do with the session. -/
theorem turn_cases (line : List Char) :
    (∀ s, turn s line = .quit) ∨ (∀ s, turn s line = .goOn (answer s line).1 (answer s line).2)
      ∨ ∃ shown, ∀ s, turn s line = .goOn shown s := by
  unfold turn
  dsimp only
  cases Text.trim line == ":quit".toList with
  | true => exact .inl fun _ => rfl
  | false =>
      cases (Text.trim line).isEmpty with
      | true => exact .inr (.inr ⟨_, fun _ => rfl⟩)
      | false =>
          cases Text.trim line == ":help".toList with
          | true => exact .inr (.inr ⟨_, fun _ => rfl⟩)
          | false => exact .inr (.inl fun _ => rfl)

/-- What a conversation writes is what its lines show, each behind an invitation. -/
theorem Held.converse {s last : Session} {lines : List (List Char)} {shows : List Transcript}
    (h : Held s lines shows last) :
    ∃ finish : Transcript, finish.err = "" ∧ converse s lines
      = shows.foldr (fun shown rest => (Transcript.mk invitation "" none).andThen fun _ =>
          shown.andThen fun _ => rest) finish := by
  induction h with
  | ended s => exact ⟨_, rfl, rfl⟩
  | quit rest quits =>
      refine ⟨(Transcript.mk invitation "" none).andThen fun _ => .silent, rfl, ?_⟩
      unfold Prompt.converse
      rw [quits]
      rfl
  | @left s next line shown rest goes exits =>
      obtain ⟨code, hcode⟩ := Option.isSome_iff_exists.mp exits
      refine ⟨.silent, rfl, ?_⟩
      have hlast : ∀ k, shown.andThen k = shown := by
        intro k
        unfold Transcript.andThen
        rw [hcode]
      unfold Prompt.converse
      rw [goes]
      dsimp only [List.foldr_cons, List.foldr_nil]
      rw [hlast, hlast]
  | wentOn goes _ _ ih =>
      obtain ⟨finish, herr, hothers⟩ := ih
      refine ⟨finish, herr, ?_⟩
      unfold Prompt.converse
      rw [goes, List.foldr_cons, ← hothers]

end Prompt

namespace Session.Corresponds

/-- A line has the same turn in sessions that correspond. -/
theorem turn {line : List Char} {shown : Transcript} {next : Session}
    (h : s.Corresponds numbers s') (goes : Prompt.turn s line = .goOn shown next) :
    ∃ more shown' next', (∀ id id', numbers id id' → more id id')
      ∧ Prompt.turn s' line = .goOn shown' next' ∧ shown.Alike more shown'
      ∧ next.Corresponds more next' := by
  rcases Prompt.turn_cases line with hquit | hanswer | ⟨said, hsaid⟩
  · rw [hquit] at goes
    cases goes
  · rw [hanswer] at goes
    cases goes
    obtain ⟨more, hmore, halike, hleft⟩ := h.answer line
    exact ⟨more, _, _, hmore, hanswer s', halike, hleft.toCorresponds⟩
  · rw [hsaid] at goes
    cases goes
    exact ⟨numbers, _, _, fun _ _ hn => hn, hsaid s', .refl _, h⟩

/-- An idle line on one side makes no difference. -/
theorem idle {line : List Char} {shown : Transcript} {next : Session}
    (h : s.Corresponds numbers s') (goes : Prompt.turn s line = .goOn shown next)
    (idle : Prompt.Idle s line) : next.Corresponds numbers s' := by
  rcases Prompt.turn_cases line with hquit | hanswer | ⟨said, hsaid⟩
  · rw [hquit] at goes
    cases goes
  · rw [hanswer] at goes
    cases goes
    obtain ⟨⟨trace, hmachine⟩, hnext⟩ := Prompt.unmoved_answer idle
    exact h.passed hnext (congrArg Machine.heap hmachine :) (congrArg Machine.scope hmachine :)
      (congrArg Machine.distances hmachine :) (congrArg Machine.clock hmachine :)
      (congrArg Machine.tracing hmachine :)
  · rw [hsaid] at goes
    cases goes
    exact h

/-- What is kept of a conversation goes on as it did. -/
theorem thinned {lines kept : List (List Char)} {shows : List Transcript} {last : Session}
    (thin : Prompt.Thinned s lines kept shows last) (h : s.Corresponds numbers s') :
    ∃ more shows' last', (∀ id id', numbers id id' → more id id')
      ∧ Prompt.Held s' kept shows' last' ∧ List.Forall₂ (Transcript.Alike more) shows shows'
      ∧ last.Corresponds more last' := by
  induction thin generalizing numbers s' with
  | ended s => exact ⟨numbers, [], s', fun _ _ hn => hn, .ended s', .nil, h⟩
  | quit rest quits =>
      refine ⟨numbers, [], s', fun _ _ hn => hn, .quit rest ?_, .nil, h⟩
      rename_i t line
      rcases Prompt.turn_cases line with hquit | hanswer | ⟨said, hsaid⟩
      · exact hquit s'
      · cases (hanswer t).symm.trans quits
      · cases (hsaid t).symm.trans quits
  | left rest goes exits =>
      obtain ⟨more, shown', next', hmore, hturn, halike, hnext⟩ := h.turn goes
      refine ⟨more, [shown'], next', hmore, .left rest hturn ?_, .cons halike .nil, hnext⟩
      rw [halike.exit]
      exact exits
  | kept goes stays _ ih =>
      obtain ⟨more, shown', next', hmore, hturn, halike, hnext⟩ := h.turn goes
      obtain ⟨most, shows', last', hmost, hheld, halikes, hlast⟩ := ih hnext
      exact ⟨most, shown' :: shows', last', fun id id' hn => hmost id id' (hmore id id' hn),
        .wentOn hturn (halike.exit.trans stays) hheld, .cons (halike.mono hmost) halikes, hlast⟩
  | dropped goes idle _ ih => exact ih (h.idle goes idle)

end Session.Corresponds

/-- **A refused program has no effect.** A session in which a program is refused is where it was, its
machine untouched but for the trace and nothing printed; so is a session that was shown a tree, a
table or the global variables, and one that was given any line whose text was refused. Leaving such
lines out of a conversation changes neither what the other lines show nor the session in the end,
but for the numbers of nodes. -/
theorem refused_without_effect :
    (∀ (s : Session) text label, (s.run text label).1.Refusal →
        s.Unmoved (s.run text label).2)
      ∧ (∀ s line, Prompt.Idle s line → s.hush.Unmoved (Prompt.answer s line).2)
      ∧ (∀ s line, Prompt.Refuses s line →
        (Prompt.answer s line).1.out = "" ∧ (Prompt.answer s line).1.exit = none)
      ∧ ∀ tracing clock lines kept shows last,
        Prompt.Thinned (Session.start tracing clock) lines kept shows last →
          ∃ numbers shows' last', Prompt.Held (Session.start tracing clock) kept shows' last'
            ∧ List.Forall₂ (Transcript.Alike numbers) shows shows'
            ∧ last.Corresponds numbers last' := by
  refine ⟨fun s _ _ => Session.unmoved_run, fun s _ => Prompt.unmoved_answer,
    fun s _ => Prompt.silent_answer, fun tracing clock lines kept shows last thin => ?_⟩
  obtain ⟨numbers, shows', last', -, hheld, halike, hlast⟩ :=
    Session.Corresponds.thinned thin (.start tracing clock)
  exact ⟨numbers, shows', last', hheld, halike, hlast⟩

theorem refused_without_effect_env :
    ∃ numbers shows' last', Prompt.Held (Session.start false 0) [] shows' last'
      ∧ List.Forall₂ (Transcript.Alike numbers) [] shows'
      ∧ (Session.start false 0).hush.Corresponds numbers last' := by
  obtain ⟨-, -, -, hthins⟩ := refused_without_effect
  have hasks : Prompt.Request.ofLine ":env".toList = .showGlobals := rfl
  have hgoes : Prompt.turn (Session.start false 0) ":env".toList
      = .goOn (Prompt.answer (Session.start false 0) ":env".toList).1
        (Session.start false 0).hush := rfl
  refine hthins false 0 [":env".toList] [] [] _ (.dropped hgoes (.command fun text h => ?_) (.ended _))
  rw [hasks] at h
  cases h

end Lox
