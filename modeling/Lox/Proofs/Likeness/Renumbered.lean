/-
Numbers and places carry no meaning. Two programs that are spelt alike may number
their nodes as they like, stand anywhere in their texts, and lack the tokens of
their constants (`Likeness.spelling`). As long as neither uses a number twice,
partners are resolved to the same, and sessions that correspond, with partners
among their corresponding nodes, run the programs alike.

Two clocks do not show the same. So either the clocks are set alike, or the run
does not depend on what its clock shows (`Session.Timeless`).
-/
import Lox.Proofs.Likeness.Partner
import Lox.Proofs.Likeness.Session
import Lox.Proofs.Run.Split

namespace Lox

/-- Trees that are spelt alike, with any numbers, kinds of tokens and places. -/
def Likeness.spelling : Likeness where
  nodes _ _ := True
  tokens token token' := token'.lexeme = token.lexeme
  constants _ _ := True
  functions _ _ _ := True
  spelt same := same

/-- A machine that traces nothing. -/
def Machine.bare (m : Machine) : Machine := { m with tracing := false, trace := "" }

namespace Session

/-- Whatever the clock shows, a program runs as it does in a given session; only the clock may be
another in the end. -/
def Timeless (s : Session) (body : List Stmt) : Prop :=
  ∀ clock, ∃ later, { s with machine := { s.machine with clock } }.runTree body
    = ((s.runTree body).1,
      { (s.runTree body).2 with machine := { (s.runTree body).2.machine with clock := later } })

/-- Two sessions run two programs with one outcome, print the same, and correspond afterwards, the
same values being in the global variables. -/
structure RunsAlike (ρ : Likeness) (s s' : Session) (body body' : List Stmt) : Prop where
  outcome : Outcome.Matches ρ (s.runTree body).1 (s'.runTree body').1
  machine : (s.runTree body).2.machine.Corresponds ρ (s'.runTree body').2.machine
  printed : ∃ text, (s.runTree body).2.machine.output = s.machine.output ++ text
    ∧ (s'.runTree body').2.machine.output = s'.machine.output ++ text
  globals : (s'.runTree body').2.globals = (s.runTree body).2.globals

variable {ρ : Likeness} {s s' : Session} {body body' : List Stmt}

theorem bare_eq_of_debugs {said : String × String} {m m' : Machine} (h : m.Debugs said m') :
    m'.bare = m.bare := by
  obtain ⟨-, -, lines, -, rfl⟩ := h
  rfl

/-- What a session traces makes no difference to the rest. -/
theorem runTree_bare (s : Session) (body : List Stmt) :
    ({ s with machine := s.machine.bare }.runTree body).1 = (s.runTree body).1
      ∧ ({ s with machine := s.machine.bare }.runTree body).2.machine.bare
        = (s.runTree body).2.machine.bare := by
  have hdebugs : ∀ said more, Session.Debugs (said, more)
      { s with machine := { s.machine with tracing := false, trace := said } }
      { s with machine := { s.machine with tracing := true, trace := more } } := by
    intro said more
    have hmore : more = more ++ ended [] := String.append_empty.symm
    exact ⟨⟨rfl, rfl, [], ⟨fun _ hline => absurd hline List.not_mem_nil, by rw [← hmore]⟩⟩, rfl⟩
  obtain ⟨⟨heap, scope, distances, output, trace, tracing, clock⟩, nextId⟩ := s
  have hbare := (hdebugs "" trace).runTree body
  cases tracing with
  | true => exact ⟨hbare.result.symm, (bare_eq_of_debugs hbare.left.machine).symm⟩
  | false =>
      -- A session that traces stands between the two.
      have hplain := (hdebugs trace trace).runTree body
      exact ⟨hbare.result.symm.trans hplain.result,
        (bare_eq_of_debugs hbare.left.machine).symm.trans (bare_eq_of_debugs hplain.left.machine)⟩

/-- With clocks that show the same. -/
theorem runsAlike_of_clock (one : ρ.OneToOne) (h : s.machine.Corresponds ρ s'.machine)
    (clock : s'.machine.clock = s.machine.clock) (alike : List.Forall₂ (Stmt.Alike ρ) body body') :
    s.RunsAlike ρ s' body body' := by
  have hstart : Machine.Alike ρ (s.machine.output, s'.machine.output)
      { s with machine := s.machine.bare }.machine { s' with machine := s'.machine.bare }.machine :=
    { h with printed := ⟨"", by simp [Machine.bare], by simp [Machine.bare]⟩, clock := clock
             tracing := rfl, trace := .same "" }
  obtain ⟨houtcome, hleft⟩ := runTree_alike one hstart alike
  obtain ⟨hsame, hbare⟩ := s.runTree_bare body
  obtain ⟨hsame', hbare'⟩ := s'.runTree_bare body'
  rw [hsame, hsame'] at houtcome
  have hmachine : Machine.Corresponds ρ (s.runTree body).2.machine.bare
      (s'.runTree body').2.machine.bare := by
    rw [← hbare, ← hbare']
    exact { hleft.toCorresponds with }
  obtain ⟨text, houtput, houtput'⟩ := hleft.printed
  have hprinted := congrArg Machine.output hbare
  have hprinted' := congrArg Machine.output hbare'
  refine ⟨houtcome, { hmachine with }, ⟨text, hprinted.symm.trans houtput,
    hprinted'.symm.trans houtput'⟩, ?_⟩
  exact congrArg (fun scopes => Forest.bindings scopes globalFrame) hmachine.heap.scopes

/-- With clocks that do not matter. -/
theorem runsAlike_of_timeless (one : ρ.OneToOne) (h : s.machine.Corresponds ρ s'.machine)
    (timeless : s.Timeless body) (alike : List.Forall₂ (Stmt.Alike ρ) body body') :
    s.RunsAlike ρ s' body body' := by
  obtain ⟨later, hset⟩ := timeless s'.machine.clock
  have hcorresponds : Machine.Corresponds ρ { s.machine with clock := s'.machine.clock }
      s'.machine := { h with }
  have hruns := runsAlike_of_clock
    (s := { s with machine := { s.machine with clock := s'.machine.clock } }) one hcorresponds rfl
    alike
  obtain ⟨houtcome, hmachine, hprinted, hglobals⟩ := hruns
  rw [hset] at houtcome hmachine hprinted hglobals
  exact ⟨houtcome, { hmachine with }, hprinted, hglobals⟩

end Session

/-- Two tables say the same of nodes that go together, and nothing of others. -/
structure Distances.Corresponds (numbers : NodeId → NodeId → Prop) (table table' : Distances) :
    Prop where
  agree (id id' : NodeId) (together : numbers id id') : table[id]? = table'[id']?
  left (id : NodeId) (distance : Nat) (known : table[id]? = some distance) : ∃ id', numbers id id'
  right (id' : NodeId) (distance : Nat) (known : table'[id']? = some distance) :
    ∃ id, numbers id id'

variable {body body' : List Stmt}

/-- The tables of programs that are alike correspond. -/
theorem distances_corresponds {ρ : Likeness} (alike : List.Forall₂ (Stmt.Alike ρ) body body')
    (distinct : (Stmt.idsAll body).Nodup) (distinct' : (Stmt.idsAll body').Nodup) :
    Distances.Corresponds (Partners body body') (resolveProgram body).distances
      (resolveProgram body').distances where
  agree := by
    have hone : (ρ.numbered (Partners body body')).OneToOne :=
      fun _ _ _ _ ha hb => ha.eq_iff distinct distinct' hb
    have hsurvey := resolveProgram_alike (Stmt.alike_partners alike fun _ _ h => h)
    exact Distances.Agree.addLinks hone hsurvey.links fun _ _ _ => rfl
  left id distance known := by
    obtain ⟨i, hi, rfl⟩ := List.mem_iff_getElem.mp (mem_ids_of_distances known)
    exact ⟨_, .of_index hi (Stmt.ids_length_eq alike ▸ hi)⟩
  right id' distance known := by
    obtain ⟨i, hi, rfl⟩ := List.mem_iff_getElem.mp (mem_ids_of_distances known)
    exact ⟨_, .of_index (Stmt.ids_length_eq alike ▸ hi) hi⟩

/-- What is found wrong in programs that are alike is told in the same words. -/
theorem Survey.Alike.messages_eq {ρ : Likeness} {a a' : Survey} (h : a.Alike ρ a') :
    a'.faults.map (fun fault => fault.cause.message)
      = a.faults.map fun fault => fault.cause.message := by
  have hfaults := h.faults
  generalize a.faults = faults at hfaults ⊢
  generalize a'.faults = faults' at hfaults ⊢
  induction hfaults with
  | nil => rfl
  | cons first _ ih => rw [List.map_cons, List.map_cons, first.cause, ih]

/-- **Numbers and places carry no meaning.** Of programs that are spelt alike the same is found
wrong, in the same words and order, and their tables correspond. Sessions that correspond, with
partners among the corresponding nodes, run the programs with one outcome, to the same output and
the same global variables. -/
theorem numbers_and_places_idle (alike : List.Forall₂ (Stmt.Alike .spelling) body body')
    (distinct : (Stmt.idsAll body).Nodup) (distinct' : (Stmt.idsAll body').Nodup) :
    (resolveProgram body').faults.map (fun fault => fault.cause.message)
        = (resolveProgram body).faults.map (fun fault => fault.cause.message)
      ∧ (resolveProgram body).Alike (Likeness.spelling.numbered (Partners body body'))
        (resolveProgram body')
      ∧ Distances.Corresponds (Partners body body') (resolveProgram body).distances
        (resolveProgram body').distances
      ∧ ∀ numbers, (Likeness.spelling.numbered numbers).OneToOne →
        (∀ id id', Partners body body' id id' → numbers id id') →
          ∀ s s' : Session,
            s.machine.Corresponds (Likeness.spelling.numbered numbers) s'.machine →
              (s'.machine.clock = s.machine.clock ∨ s.Timeless body) →
                s.RunsAlike (Likeness.spelling.numbered numbers) s' body body' := by
  have hsurvey := resolveProgram_alike (Stmt.alike_partners alike fun _ _ h => h)
  refine ⟨hsurvey.messages_eq, hsurvey, distances_corresponds alike distinct distinct', ?_⟩
  intro numbers one all s s' corresponds clock
  have hnumbers := Stmt.alike_partners alike all
  cases clock with
  | inl same => exact Session.runsAlike_of_clock one corresponds same hnumbers
  | inr timeless => exact Session.runsAlike_of_timeless one corresponds timeless hnumbers

/-- A block like `readingBlock 1` at another place of a text, with other numbers. -/
def movedBlock : Stmt :=
  .block 40 [.varDecl 30 ⟨.keyword, "a", ⟨5, 1, 90⟩⟩
      (some (.literal 50 (.boolean true) (some ⟨.keyword, "true", ⟨5, 9, 98⟩⟩))),
    .print 10 (.var 20 ⟨.identifier, "a", ⟨7, 2, 120⟩⟩)]

theorem readingBlock_alike : List.Forall₂ (Stmt.Alike .spelling) [readingBlock 1] [movedBlock] :=
  .cons (.block trivial (.cons (.varDecl trivial rfl (.some (.literal trivial trivial)))
    (.cons (.print trivial (.var trivial rfl)) .nil))) .nil

theorem numbers_and_places_idle_blocks :
    (Session.start false 0).RunsAlike
      (Likeness.spelling.numbered (Partners [readingBlock 1] [movedBlock])) (Session.start true 0)
      [readingBlock 1] [movedBlock] := by
  have hdistinct : (Stmt.idsAll [readingBlock 1]).Nodup := by decide
  have hdistinct' : (Stmt.idsAll [movedBlock]).Nodup := by decide
  obtain ⟨-, -, -, hruns⟩ := numbers_and_places_idle readingBlock_alike hdistinct hdistinct'
  have hempty : Heap.Alike (Likeness.spelling.numbered (Partners [readingBlock 1] [movedBlock]))
      Heap.initial Heap.initial := ⟨rfl, rfl, rfl, fun _ => .none⟩
  exact hruns _ (fun _ _ _ _ ha hb => ha.eq_iff hdistinct hdistinct' hb) (fun _ _ h => h) _ _
    ⟨hempty, rfl, fun _ _ _ => rfl⟩ (.inl rfl)

end Lox
