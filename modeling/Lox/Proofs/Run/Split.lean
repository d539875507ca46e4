/-
Programs in two parts. The resolver has no scope at the top level, so after every
statement it is where it began, and what it finds in a program is what it finds
in the parts. The evaluator goes from statement to statement, and the links of
the second part make no difference to the first, nor to functions that were there
before, because these have other nodes (`Twin`). So a program may as well be given
to a session in two parts.
-/
import Lox.Proofs.Run.Table
import Lox.Proofs.Binding.Sound
import Lox.Proofs.Reading.Tree
import Lox.Proofs.Lockstep.Session

namespace Lox

-- ================================================================ resolution

/-- At the top level nothing is declared. -/
theorem Stmt.scopes_resolve_top (around : Surroundings) : ∀ s : Stmt, (s.resolve around []).1 = []
  | .expression .. | .print .. | .varDecl .. | .block .. | .funDecl .. | .returnStmt ..
  | .classDecl _ _ none _ | .classDecl _ _ (some _) _ => rfl
  | .ifThen _ _ thenBranch => Stmt.scopes_resolve_top around thenBranch
  | .ifElse _ _ thenBranch elseBranch => by
      show (elseBranch.resolve around (thenBranch.resolve around []).1).1 = []
      rw [Stmt.scopes_resolve_top around thenBranch]
      exact Stmt.scopes_resolve_top around elseBranch
  | .whileLoop _ _ body => Stmt.scopes_resolve_top around body

theorem resolveProgram_cons (s : Stmt) (rest : List Stmt) :
    resolveProgram (s :: rest) = (s.resolve .topLevel []).2 ++ resolveProgram rest := by
  show (s.resolve .topLevel []).2
    ++ (Stmt.resolveAll .topLevel (s.resolve .topLevel []).1 rest).2 = _
  rw [Stmt.scopes_resolve_top]
  rfl

/-- What is found in a program is what is found in its parts. -/
theorem resolveProgram_append (first second : List Stmt) :
    resolveProgram (first ++ second) = resolveProgram first ++ resolveProgram second := by
  induction first with
  | nil =>
      show _ = Survey.empty ++ _
      rw [Survey.empty_append, List.nil_append]
  | cons s rest ih =>
      rw [List.cons_append, resolveProgram_cons, resolveProgram_cons, ih, Survey.append_assoc]

theorem Survey.exists_accepted_iff (survey : Survey) :
    (∃ table, survey.accepted = .ok table) ↔ survey.faults = [] := by
  rw [← List.isEmpty_iff]
  unfold Survey.accepted
  cases survey.faults.isEmpty <;> simp

theorem Survey.eq_of_accepted {survey : Survey} {table : Distances}
    (h : survey.accepted = .ok table) : table = survey.distances := by
  unfold Survey.accepted at h
  split at h <;> cases h
  rfl

-- ==================================================================== tables

/-- A table has the entries of two others, which have none in common. -/
structure Distances.Joins (joint left right : Distances) : Prop where
  entries : ∀ (id : NodeId) (distance : Nat), joint[id]? = some distance ↔
    left[id]? = some distance ∨ right[id]? = some distance
  apart : ∀ id : NodeId, left[id]? = none ∨ right[id]? = none

/-- The table of a program has entries for its own nodes alone. -/
theorem mem_ids_of_distances {body : List Stmt} {id : NodeId} {distance : Nat}
    (h : (resolveProgram body).distances[id]? = some distance) : id ∈ Stmt.idsAll body := by
  by_contra hid
  have hnone : (resolveProgram body).distances[id]? = none := by
    unfold Survey.distances
    rw [Distances.getElem?_addLinks_of_ne]
    · rfl
    · intro link hl he
      obtain ⟨n, hn, hn'⟩ := id_mem_of_mem_links hl
      exact hid (List.mem_map.mpr ⟨n, hn, hn'.trans he⟩)
  rw [hnone] at h
  cases h

variable {first second : List Stmt}

theorem Stmt.nodesAll_append (first second : List Stmt) :
    Stmt.nodesAll (first ++ second) = Stmt.nodesAll first ++ Stmt.nodesAll second := by
  induction first with
  | nil => rfl
  | cons s rest ih => rw [List.cons_append, Stmt.nodesAll, Stmt.nodesAll, ih, List.append_assoc]

theorem not_mem_ids_of_nodup (h : (Stmt.idsAll (first ++ second)).Nodup) {id : NodeId}
    (hfirst : id ∈ Stmt.idsAll first) : id ∉ Stmt.idsAll second := by
  unfold Stmt.idsAll at h
  rw [Stmt.nodesAll_append, List.map_append, List.nodup_append] at h
  exact fun hsecond => h.2.2 id hfirst id hsecond rfl

theorem distances_joins (h : (Stmt.idsAll (first ++ second)).Nodup) :
    Distances.Joins (resolveProgram (first ++ second)).distances (resolveProgram first).distances
      (resolveProgram second).distances := by
  have hone : ∀ id : NodeId, (resolveProgram first).distances[id]? = none
      ∨ (resolveProgram second).distances[id]? = none := by
    intro id
    cases hfirst : (resolveProgram first).distances[id]? with
    | none => exact .inl rfl
    | some d =>
        cases hsecond : (resolveProgram second).distances[id]? with
        | none => exact .inr rfl
        | some e =>
            exact absurd (mem_ids_of_distances hsecond)
              (not_mem_ids_of_nodup h (mem_ids_of_distances hfirst))
  refine ⟨fun id distance => ?_, hone⟩
  have hjoint : (resolveProgram (first ++ second)).distances[id]?
      = ((resolveProgram second).distances[id]?).or (resolveProgram first).distances[id]? := by
    unfold Survey.distances
    rw [resolveProgram_append, Survey.links_append, Distances.addLinks_append,
      Distances.getElem?_addLinks]
  rw [hjoint]
  rcases hone id with hnone | hnone
  · simp [hnone]
  · simp [hnone]

-- ====================================================================== runs

open Lockstep (run_bind_ok run_bind_error)

theorem Eval.interpret_append (fuel room : Nat) (first second : List Stmt) :
    Eval.interpret fuel room (first ++ second)
      = Eval.interpret fuel room first >>= fun _ => Eval.interpret fuel room second := by
  unfold Eval.interpret
  induction first with
  | nil => rfl
  | cons s rest ih =>
      rw [List.cons_append, Eval.interpretWith, ih, Eval.interpretWith, bind_assoc]

namespace Session

/-- A session takes over a program in two parts: the second runs if the first was completed. -/
def runParts (s : Session) (first second : List Stmt) : Outcome × Session :=
  match s.runTree first with
  | (.completed, s') => s'.runTree second
  | ended => ended

/-- No function in the heap mentions a node of a program. -/
def NewTo (body : List Stmt) (s : Session) : Prop :=
  ∀ (f : FunctionId) (c : Closure), s.machine.heap.functions[f]? = some c →
    ∀ n ∈ c.declaration.nodes, n.id ∉ Stmt.idsAll body

/-- What a session reports of a run, and goes on with. -/
def ending (s : Session) : EStateM.Result Stop Machine Unit → Outcome × Session
  | .ok () m => (.completed, { s with machine := m })
  | .error stop m => ((Outcome.stopped stop).settled, { s with machine := m })

/-- Running an accepted program is running it with its links in the table. -/
theorem runTree_eq (s : Session) {body : List Stmt} (h : (resolveProgram body).faults = []) :
    ∃ trace, s.runTree body = s.ending (Eval.interpret stepLimit callLimit body { s.machine with
      distances := s.machine.distances.addLinks (resolveProgram body).links, trace }) := by
  obtain ⟨trace, htrace⟩ := Lockstep.noteAll_eq s.machine (resolveProgram body).trace
  refine ⟨trace, ?_⟩
  have hresolve : s.resolve body
      = (.ok (resolveProgram body), { s with machine := { s.machine with trace } }) := by
    unfold Session.resolve
    dsimp only
    rw [h, htrace]
    rfl
  unfold Session.runTree
  rw [hresolve]
  dsimp only
  unfold Session.perform Session.link
  dsimp only
  generalize Eval.interpret stepLimit callLimit body _ = r
  cases r <;> rfl

/-- Of runs that end alike the same is reported. -/
theorem ending_alike (s : Session) {table table' : Distances}
    {r r' : EStateM.Result Stop Machine Unit} (h : Twin.Ends table table' r r') :
    (s.ending r).1 = (s.ending r').1
      ∧ (s.ending r).2.machine.Same (s.ending r').2.machine := by
  cases h with
  | ok twin => exact ⟨rfl, twin.same⟩
  | error twin => exact ⟨rfl, twin.same⟩

/-- A program that stops does so in another way than by being completed, and what comes after it is
not run. -/
theorem runParts_of_stopped (s : Session) {first second : List Stmt} {stop : Stop} {s' : Session}
    (h : s.runTree first = ((Outcome.stopped stop).settled, s')) :
    s.runParts first second = ((Outcome.stopped stop).settled, s') := by
  unfold runParts
  rw [h]
  cases stop <;> rfl

/-- A machine that has the links of a program runs it as a session does that adds them. -/
theorem runTree_of_same (s : Session) {body : List Stmt} {m : Machine}
    (accepted : (resolveProgram body).faults = []) (hsame : m.Same s.machine)
    (hlinked : m.distances = s.machine.distances.addLinks (resolveProgram body).links) :
    (s.ending (Eval.interpret stepLimit callLimit body m)).1 = (s.runTree body).1
      ∧ (s.ending (Eval.interpret stepLimit callLimit body m)).2.machine.Same
        (s.runTree body).2.machine := by
  obtain ⟨trace, hrun⟩ := s.runTree_eq accepted
  rw [hrun, ← hlinked]
  have htwin : Twin m.distances m.distances m
      { s.machine with distances := m.distances, trace } :=
    ⟨⟨hsame.heap, hsame.scope, hsame.output, hsame.tracing, hsame.clock⟩, rfl, rfl,
      fun _ _ _ _ _ => rfl⟩
  exact s.ending_alike (htwin.interpret (fun _ _ => rfl) stepLimit callLimit)

/-- Programs in one part and in two are run alike, and leave the same behind. -/
theorem runTree_append (s : Session) (distinct : (Stmt.idsAll (first ++ second)).Nodup)
    (accepted : (resolveProgram (first ++ second)).faults = []) (new : s.NewTo second) :
    (s.runTree (first ++ second)).1 = (s.runParts first second).1
      ∧ (s.runTree (first ++ second)).2.machine.Same (s.runParts first second).2.machine := by
  have hfaults := accepted
  rw [resolveProgram_append, Survey.faults_append, List.append_eq_nil_iff] at hfaults
  obtain ⟨hfirst, hsecond⟩ := hfaults
  obtain ⟨trace, hjoint⟩ := s.runTree_eq accepted
  obtain ⟨trace', hparts⟩ := s.runTree_eq hfirst
  rw [resolveProgram_append, Survey.links_append, Distances.addLinks_append,
    Eval.interpret_append] at hjoint
  generalize hleft : s.machine.distances.addLinks (resolveProgram first).links = left at *
  generalize hall : left.addLinks (resolveProgram second).links = all at *
  -- The two tables differ at the nodes of the second part and nowhere else.
  have hclear : ∀ id, id ∉ Stmt.idsAll second → all[id]? = left[id]? := by
    intro id hid
    rw [← hall]
    apply Distances.getElem?_addLinks_of_ne
    intro link hl he
    obtain ⟨n, hn, hn'⟩ := id_mem_of_mem_links hl
    exact hid (List.mem_map.mpr ⟨n, hn, hn'.trans he⟩)
  have htwin : Twin all left { s.machine with distances := all, trace }
      { s.machine with distances := left, trace := trace' } :=
    ⟨⟨rfl, rfl, rfl, rfl, rfl⟩, rfl, rfl, fun f c hc n hn => hclear _ (new f c hc n hn)⟩
  have hcovers : Covers (fun id => all[id]? = left[id]?) (Stmt.nodesAll first) := fun n hn =>
    hclear _ (not_mem_ids_of_nodup distinct (List.mem_map_of_mem hn))
  have hends := htwin.interpret hcovers stepLimit callLimit
  generalize hrun : Eval.interpret stepLimit callLimit first
    { s.machine with distances := all, trace } = r at hends
  generalize Eval.interpret stepLimit callLimit first
    { s.machine with distances := left, trace := trace' } = r' at hends hparts
  cases hends with
  | @error stop m m' twin =>
      rw [hjoint, run_bind_error hrun, s.runParts_of_stopped hparts]
      exact ⟨rfl, twin.same⟩
  | @ok u m m' twin =>
      have hlinked : m.distances = m'.distances.addLinks (resolveProgram second).links := by
        rw [twin.left, twin.right, hall]
      have hrest : s.runParts first second = { s with machine := m' }.runTree second := by
        unfold runParts
        rw [hparts]
        rfl
      rw [hjoint, run_bind_ok hrun, hrest]
      exact runTree_of_same { s with machine := m' } hsecond twin.same hlinked

end Session

/-- **Splitting a program over a session changes nothing.** The faults of a program are those of its
parts, its table joins their tables, and a session that knows none of its nodes runs it in one part
as it does in two. -/
theorem program_splits (distinct : (Stmt.idsAll (first ++ second)).Nodup) :
    (resolveProgram (first ++ second)).faults
        = (resolveProgram first).faults ++ (resolveProgram second).faults
      ∧ ((∃ table, (resolveProgram (first ++ second)).accepted = .ok table) ↔
        (∃ left, (resolveProgram first).accepted = .ok left)
          ∧ ∃ right, (resolveProgram second).accepted = .ok right)
      ∧ (∀ joint left right, (resolveProgram (first ++ second)).accepted = .ok joint →
        (resolveProgram first).accepted = .ok left → (resolveProgram second).accepted = .ok right →
          Distances.Joins joint left right)
      ∧ ∀ s : Session, (resolveProgram (first ++ second)).faults = [] → s.NewTo (first ++ second) →
        (s.runTree (first ++ second)).1 = (s.runParts first second).1
          ∧ (s.runTree (first ++ second)).2.machine.Same (s.runParts first second).2.machine
          ∧ (s.runTree (first ++ second)).2.globals = (s.runParts first second).2.globals := by
  have hfaults : (resolveProgram (first ++ second)).faults
      = (resolveProgram first).faults ++ (resolveProgram second).faults := by
    rw [resolveProgram_append, Survey.faults_append]
  refine ⟨hfaults, ?_, fun joint left right hj hl hr => ?_, fun s accepted new => ?_⟩
  · rw [Survey.exists_accepted_iff, Survey.exists_accepted_iff, Survey.exists_accepted_iff, hfaults,
      List.append_eq_nil_iff]
  · rw [Survey.eq_of_accepted hj, Survey.eq_of_accepted hl, Survey.eq_of_accepted hr]
    exact distances_joins distinct
  · have hnew : s.NewTo second := fun f c hc n hn hid => by
      refine new f c hc n hn ?_
      unfold Stmt.idsAll at hid ⊢
      rw [Stmt.nodesAll_append, List.map_append]
      exact List.mem_append_right _ hid
    obtain ⟨houtcome, hsame⟩ := s.runTree_append distinct accepted hnew
    have hglobals : (s.runParts first second).2.globals
        = (s.runTree (first ++ second)).2.globals := by
      unfold Session.globals
      rw [hsame.heap]
    exact ⟨houtcome, hsame, hglobals.symm⟩

/-- A block with a variable that is read in it. -/
def readingBlock (low : NodeId) : Stmt :=
  .block (low + 4) [.varDecl (low + 1) ⟨.identifier, "a", ⟨1, 7, 6⟩⟩
      (some (.literal low (.boolean true) none)),
    .print (low + 3) (.var (low + 2) ⟨.identifier, "a", ⟨1, 23, 22⟩⟩)]

theorem program_splits_blocks :
    Distances.Joins (resolveProgram [readingBlock 1, readingBlock 6]).distances
        (resolveProgram [readingBlock 1]).distances (resolveProgram [readingBlock 6]).distances
      ∧ ((Session.start false 0).runTree [readingBlock 1, readingBlock 6]).1
        = ((Session.start false 0).runParts [readingBlock 1] [readingBlock 6]).1 := by
  have hdistinct : (Stmt.idsAll ([readingBlock 1] ++ [readingBlock 6])).Nodup := by decide
  obtain ⟨-, -, hjoins, hruns⟩ := program_splits hdistinct
  have hnew : (Session.start false 0).NewTo ([readingBlock 1] ++ [readingBlock 6]) :=
    fun _ _ hc => by cases hc
  exact ⟨hjoins _ _ _ rfl rfl rfl, (hruns _ rfl hnew).1⟩

end Lox
