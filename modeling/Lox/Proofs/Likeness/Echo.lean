/-
Stages of sessions that differ in the numbers of nodes. Every stage takes such
sessions to such sessions, under a relation of numbers that has grown
(`Session.Stage`), and both sessions show the same meanwhile but for the numbers
that they name (`Session.Echoes`).
-/
import Lox.Proofs.Likeness.Numbering
import Lox.Proofs.Run.Table

namespace Lox

/-- Sessions that differ in the numbers of nodes, have printed the same, and have traced alike. -/
structure Session.Echoes (numbers : NodeId → NodeId → Prop) (s s' : Session) : Prop
    extends Session.Corresponds numbers s s' where
  output : s'.machine.output = s.machine.output
  trace : TextAlike (.renumbered numbers) s.machine.trace s'.machine.trace

/-- Two stages have results that are alike, and leave sessions that differ in the numbers of nodes
only, whatever else goes together after them. -/
def Session.Stage (numbers : NodeId → NodeId → Prop) {ε : Type}
    (Alike : (NodeId → NodeId → Prop) → ε → ε → Prop) (r r' : ε × Session) : Prop :=
  ∃ more, (∀ id id', numbers id id' → more id id') ∧ Alike more r.1 r'.1 ∧ r.2.Echoes more r'.2

/-- What a stage brings on both sides: the same refusal, or things that are alike. -/
inductive Except.Alike {α : Type} (R : α → α → Prop) : Except Outcome α → Except Outcome α → Prop
  | refused {outcome : Outcome} (refusal : outcome.Refusal) :
      Except.Alike R (.error outcome) (.error outcome)
  | found {a a' : α} (alike : R a a') : Except.Alike R (.ok a) (.ok a')

/-- Programs that are alike but for their numbers. -/
def Stmt.Renumbered (numbers : NodeId → NodeId → Prop) (body body' : List Stmt) : Prop :=
  List.Forall₂ (Stmt.Alike (.renumbered numbers)) body body'

variable {numbers more : NodeId → NodeId → Prop} {s s' : Session} {body body' : List Stmt}

-- ==================================================================== tables

namespace Session

theorem distances_perform (s : Session) (body : List Stmt) :
    (s.perform body).2.machine.distances = s.machine.distances := by
  have htwin : Twin s.machine.distances s.machine.distances s.machine s.machine :=
    ⟨⟨rfl, rfl, rfl, rfl, rfl⟩, rfl, rfl, fun _ _ _ _ _ => rfl⟩
  have hends := htwin.interpret (fun n (_ : n ∈ Stmt.nodesAll body) => rfl) stepLimit callLimit
  unfold Session.perform
  generalize Eval.interpret stepLimit callLimit body s.machine = r at hends ⊢
  cases hends with
  | ok twin => exact twin.left
  | error twin => exact twin.left

/-- Of nodes that a program has not the table says what it said before. -/
theorem distances_runTree (s : Session) {body : List Stmt} {id : NodeId}
    (h : id ∉ Stmt.idsAll body) :
    (s.runTree body).2.machine.distances[id]? = s.machine.distances[id]? := by
  obtain ⟨trace, hmachine⟩ := s.resolve_machine body
  have hlinks : ∀ link ∈ (resolveProgram body).links, link.id ≠ id := by
    intro link hl he
    obtain ⟨n, hn, hn'⟩ := id_mem_of_mem_links hl
    exact h (List.mem_map.mpr ⟨n, hn, hn'.trans he⟩)
  unfold Session.runTree
  cases hresolve : s.resolve body with
  | mk result resolved =>
      rw [hresolve] at hmachine
      cases result with
      | error outcome =>
          dsimp only at hmachine ⊢
          rw [hmachine]
      | ok survey =>
          have hsurvey : survey = resolveProgram body := by
            unfold Session.resolve at hresolve
            dsimp only at hresolve
            split at hresolve <;> cases hresolve
            rfl
          dsimp only at hmachine ⊢
          rw [distances_perform]
          unfold Session.link
          dsimp only
          rw [hmachine, hsurvey]
          exact Distances.getElem?_addLinks_of_ne hlinks

theorem nextId_runTree (s : Session) (body : List Stmt) :
    (s.runTree body).2.nextId = s.nextId := by
  have hresolve : (s.resolve body).2.nextId = s.nextId := by
    unfold Session.resolve
    dsimp only
    split <;> rfl
  unfold Session.runTree
  split
  · rename_i outcome resolved heq
    rw [heq] at hresolve
    exact hresolve
  · rename_i survey resolved heq
    rw [heq] at hresolve
    rw [perform_eq]
    exact hresolve

-- ==================================================================== stages

namespace Echoes

theorem alike (h : s.Echoes numbers s') :
    s.machine.Alike (.renumbered numbers) ("", "") s'.machine where
  toCorresponds := h.machine
  printed := ⟨s.machine.output, String.empty_append.symm, by rw [h.output, String.empty_append]⟩
  clock := h.clock
  tracing := h.tracing
  trace := h.trace

/-- Machines that are alike take the place of the old ones, where their tables know no new node. -/
theorem withMachine (h : s.Echoes numbers s') {m m' : Machine}
    (alike : m.Alike (.renumbered numbers) ("", "") m')
    (clear : ∀ id, s.nextId ≤ id → m.distances[id]? = none)
    (clear' : ∀ id, s'.nextId ≤ id → m'.distances[id]? = none) :
    Session.Echoes numbers { s with machine := m } { s' with machine := m' } where
  machine := alike.toCorresponds
  clock := alike.clock
  tracing := alike.tracing
  order := h.order
  below := h.below
  clear := clear
  clear' := clear'
  output := by
    obtain ⟨text, houtput, houtput'⟩ := alike.printed
    rw [houtput, houtput']
  trace := alike.trace

/-- Lines that are alike are traced on both sides. -/
theorem noteAll (h : s.Echoes numbers s') {lines lines' : List String}
    (alike : List.Forall₂ (LineAlike (.renumbered numbers)) lines lines') :
    Session.Echoes numbers { s with machine := s.machine.noteAll lines }
      { s' with machine := s'.machine.noteAll lines' } := by
  have hnoted := h.alike.noteAll alike
  have hsame : ∀ (m : Machine) lines, (m.noteAll lines).distances = m.distances := by
    intro m lines
    obtain ⟨trace, hm⟩ := Lockstep.noteAll_eq m lines
    rw [hm]
  refine h.withMachine hnoted (fun id new => ?_) fun id new => ?_
  · rw [hsame]
    exact h.clear id new
  · rw [hsame]
    exact h.clear' id new

/-- Both sessions hand out numbers, up to counts that go together. -/
theorem hand (h : s.Echoes numbers s') {high high' : NodeId} (le : s.nextId ≤ high)
    (together : ahead numbers s.nextId s'.nextId high high') :
    Session.Echoes (upTo numbers s.nextId s'.nextId high) { s with nextId := high }
      { s' with nextId := high' } where
  toCorresponds := h.toCorresponds.hand le together
  output := h.output
  trace := TextAlike.mono (fun _ _ hn => h.upTo le hn) h.trace

end Echoes

theorem Corresponds.hush (h : s.Corresponds numbers s') : s.hush.Echoes numbers s'.hush where
  machine := ⟨h.machine.heap, h.machine.scope, h.machine.distances⟩
  clock := h.clock
  tracing := h.tracing
  order := h.order
  below := h.below
  clear := h.clear
  clear' := h.clear'
  output := rfl
  trace := .same ""

-- ================================================================== readings

theorem trace_of_reading {text : List Char} {label : String} {r r' : Reading (List Stmt)}
    (h : r.Alike (.renumbered numbers) (Stmt.Renumbered numbers) r') :
    r'.trace text label = r.trace text label := by
  unfold Reading.trace
  rw [h.recovered]
  cases hprogram : r.program with
  | error faults => rw [h.program_error hprogram]
  | ok body =>
      obtain ⟨body', hprogram', halike⟩ := h.program_ok hprogram
      rw [hprogram']
      dsimp only
      rw [halike.length_eq]

/-- Programs whose nodes have numbers below a count are alike without the numbers beyond it. -/
theorem renumbered_upTo {low low' high : NodeId}
    (h : Stmt.Renumbered (ahead numbers low low') body body')
    (below : ∀ id ∈ Stmt.idsAll body, id < high) :
    Stmt.Renumbered (upTo numbers low low' high) body body' := by
  have hsides := Stmt.nodesAll_alike h
  refine Stmt.numberedAll h (List.forall₂_iff_zip.mpr ⟨hsides.length_eq, fun hmem => ?_⟩)
  exact ⟨(List.forall₂_iff_zip.mp hsides).2 hmem,
    below _ (List.mem_map_of_mem (List.of_mem_zip hmem).1)⟩

/-- Faults that are alike are the same when tokens are. -/
theorem faults_eq {faults faults' : List ScopeFault}
    (h : List.Forall₂ (ScopeFault.Alike (.renumbered numbers)) faults faults') :
    faults' = faults := by
  induction h with
  | nil => rfl
  | @cons fault fault' _ _ first _ ih =>
      obtain ⟨cause, token⟩ := fault
      obtain ⟨cause', token'⟩ := fault'
      obtain ⟨hcause, htoken⟩ := first
      cases hcause
      cases htoken
      rw [ih]

namespace Echoes

/-- A text is read alike. -/
theorem read (h : s.Echoes numbers s') (text : List Char) (label : String) :
    Stage numbers (fun more => Except.Alike (Stmt.Renumbered more)) (s.read text label)
      (s'.read text label) := by
  have halike := readProgram_alike (Likeness.renumbered_reads (ahead numbers s.nextId s'.nextId)) rfl
    (fun k => .inr ⟨k, rfl, rfl⟩) text
  have hle := le_readProgram text s.nextId
  have htogether : ahead numbers s.nextId s'.nextId (readProgram text s.nextId).nextId
      (readProgram text s'.nextId).nextId := halike.nodes 0
  have hlines : List.Forall₂ (LineAlike (.renumbered
        (upTo numbers s.nextId s'.nextId (readProgram text s.nextId).nextId)))
      ((readProgram text s.nextId).trace text label)
      ((readProgram text s'.nextId).trace text label) := by
    rw [trace_of_reading halike]
    exact List.forall₂_same.mpr fun line _ => .same line
  have hnoted := (h.hand hle htogether).noteAll hlines
  refine ⟨_, fun _ _ hn => h.upTo hle hn, ?_⟩
  unfold Session.read
  dsimp only
  cases hprogram : (readProgram text s.nextId).program with
  | error faults =>
      rw [halike.program_error hprogram]
      exact ⟨.refused (.unreadable _), hnoted⟩
  | ok body =>
      obtain ⟨body', hprogram', hbody⟩ := halike.program_ok hprogram
      rw [hprogram']
      refine ⟨.found (renumbered_upTo hbody fun id hid => ?_), hnoted⟩
      exact ((readAs_of_program hprogram).numbers.range id hid).2

/-- Programs that are alike are resolved alike. -/
theorem resolve (h : s.Echoes numbers s') (alike : Stmt.Renumbered numbers body body') :
    Stage numbers (fun more => Except.Alike (Survey.Alike (.renumbered more))) (s.resolve body)
      (s'.resolve body') := by
  have hsurvey := resolveProgram_alike alike
  have hnoted := h.noteAll hsurvey.trace
  refine ⟨numbers, fun _ _ hn => hn, ?_⟩
  unfold Session.resolve
  dsimp only
  rw [hsurvey.isEmpty_faults_eq, faults_eq hsurvey.faults]
  split
  · exact ⟨.found hsurvey, hnoted⟩
  · exact ⟨.refused (.illScoped _), hnoted⟩

/-- Programs that are alike run with one outcome. -/
theorem runTree (h : s.Echoes numbers s') (alike : Stmt.Renumbered numbers body body') :
    Stage numbers (fun more => Outcome.Matches (.renumbered more)) (s.runTree body)
      (s'.runTree body') := by
  obtain ⟨houtcome, hmachine⟩ := Session.runTree_alike h.order.oneToOne h.alike alike
  obtain ⟨hids, hids'⟩ := h.ids_below alike
  have hleft := h.withMachine hmachine
    (fun id new => by
      rw [s.distances_runTree fun hid => Nat.not_lt.mpr new (hids id hid)]
      exact h.clear id new)
    fun id new => by
      rw [s'.distances_runTree fun hid => Nat.not_lt.mpr new (hids' id hid)]
      exact h.clear' id new
  refine ⟨numbers, fun _ _ hn => hn, houtcome, ?_⟩
  have hsame : ∀ (s : Session) body,
      (s.runTree body).2 = { s with machine := (s.runTree body).2.machine } := by
    intro s body
    conv_rhs => rw [← s.nextId_runTree body]
  rw [hsame s, hsame s']
  exact hleft

end Echoes

end Session

end Lox
