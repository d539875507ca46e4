/-
Sessions on machines that are alike. Two machines correspond when nothing in them
differs but the trees of their functions, which are alike, and when their tables
say the same of corresponding nodes (`Machine.Corresponds`). What they have
printed does not count, nor what they trace and whether they do. Machines that
correspond are alike while they print the same and trace alike (`Machine.Alike`).

Alike programs then run alike (`Machine.Alike.interpret`), for nothing that a run
does to one machine makes a difference to the other. Where nodes correspond one
to one, sessions may as well resolve and link the programs first
(`Session.runTree_alike`).
-/
import Lox.Proofs.Likeness.Evaluate
import Lox.Proofs.Likeness.Text
import Lox.Proofs.Run.Debug

namespace Lox

open Eval
open Lockstep (run_bind_ok run_bind_error)

structure Machine.Corresponds (ρ : Likeness) (m m' : Machine) : Prop where
  heap : m.heap.Alike ρ m'.heap
  scope : m'.scope = m.scope
  distances : Distances.Agree ρ m.distances m'.distances

/-- Machines that correspond, whose clocks show the same, which trace alike, and which have printed
the same since one had printed `said.1` and the other `said.2`. -/
structure Machine.Alike (ρ : Likeness) (said : String × String) (m m' : Machine) : Prop
    extends Machine.Corresponds ρ m m' where
  printed : ∃ text, m.output = said.1 ++ text ∧ m'.output = said.2 ++ text
  clock : m'.clock = m.clock
  tracing : m'.tracing = m.tracing
  trace : TextAlike ρ m.trace m'.trace

/-- Two programs stop for one reason: of two faults both have a token or none has. -/
inductive Stop.Matches (ρ : Likeness) : Stop → Stop → Prop
  | fault {token token' : Option Token} {cause : RuntimeCause}
      (place : Option.Rel ρ.tokens token token') :
      Matches ρ (.fault ⟨token, cause⟩) (.fault ⟨token', cause⟩)
  | exit (code : Int) : Matches ρ (.exit code) (.exit code)
  | overflow : Matches ρ .overflow .overflow
  | broken (link : BrokenLink) : Matches ρ (.broken link) (.broken link)
  | missing {id id' : NodeId} (node : ρ.nodes id id') :
      Matches ρ (.broken (.missingDistance id)) (.broken (.missingDistance id'))
  | exhausted : Matches ρ .exhausted .exhausted

/-- Two programs have one outcome. -/
inductive Outcome.Matches (ρ : Likeness) : Outcome → Outcome → Prop
  | completed : Matches ρ .completed .completed
  | unreadable (reports : List Diagnostic) : Matches ρ (.unreadable reports) (.unreadable reports)
  | illScoped {faults faults' : List ScopeFault}
      (alike : List.Forall₂ (ScopeFault.Alike ρ) faults faults') :
      Matches ρ (.illScoped faults) (.illScoped faults')
  | stopped {stop stop' : Stop} (alike : stop.Matches ρ stop') :
      Matches ρ (.stopped stop) (.stopped stop')

/-- Two runs end alike: with one value on both sides, or for one reason, and on alike machines. -/
inductive Machine.EndsAlike (ρ : Likeness) (said : String × String) {α : Type} :
    EStateM.Result Stop Machine α → EStateM.Result Stop Machine α → Prop
  | ok {a : α} {m m' : Machine} (alike : m.Alike ρ said m') :
      EndsAlike ρ said (.ok a m) (.ok a m')
  | error {stop stop' : Stop} {m m' : Machine} (reason : stop.Matches ρ stop')
      (alike : m.Alike ρ said m') : EndsAlike ρ said (.error stop m) (.error stop' m')

/-- Two computations end alike on all machines that are alike. -/
def Machine.RunAlike (ρ : Likeness) (said : String × String) {α : Type} (x : Unit → Eval α)
    (y : Eval α) : Prop :=
  ∀ m m', Machine.Alike ρ said m m' → Machine.EndsAlike ρ said (x () m) (y m')

theorem Stop.Alike.matches {ρ : Likeness} {stop stop' : Stop} (h : stop.Alike ρ stop') :
    stop.Matches ρ stop' := by
  cases h with
  | fault own place => exact .fault (.some place)
  | exit code => exact .exit code
  | overflow => exact .overflow
  | broken link => exact .broken link
  | missing node => exact .missing node
  | exhausted => exact .exhausted

namespace Machine

variable {ρ : Likeness} {said : String × String} {α β : Type} {m m' : Machine}

-- ================================================================== one step

/-- The heap is changed alike on both sides. -/
theorem Alike.withHeap (h : m.Alike ρ said m') {heap heap' : Heap} (alike : heap.Alike ρ heap') :
    Machine.Alike ρ said { m with heap := heap } { m' with heap := heap' } :=
  { h with heap := alike }

/-- The current frame is changed alike on both sides. -/
theorem Alike.withScope (h : m.Alike ρ said m') {frame frame' : FrameId} (same : frame' = frame) :
    Machine.Alike ρ said { m with scope := frame } { m' with scope := frame' } :=
  { h with scope := same }

/-- Both machines list lines that are alike, or none does. -/
theorem Alike.noteAll (h : m.Alike ρ said m') {lines lines' : List String}
    (alike : List.Forall₂ (LineAlike ρ) lines lines') :
    (m.noteAll lines).Alike ρ said (m'.noteAll lines') := by
  unfold Machine.noteAll
  rw [h.tracing]
  split
  · rw [foldl_note, foldl_note]
    exact { h with trace := .append h.trace (.ended alike) }
  · exact h

theorem RunAlike.bind {x : Unit → Eval α} {y : Eval α} {f : Unit → α → Eval β} {g : α → Eval β}
    (first : RunAlike ρ said x y) (rest : ∀ a, RunAlike ρ said (fun i => f i a) (g a)) :
    RunAlike ρ said (fun i => x i >>= f i) (y >>= g) := by
  intro m m' h
  have hends := first m m' h
  dsimp only
  generalize hx : x () m = r at hends
  generalize hy : y m' = r' at hends
  cases hends with
  | @ok a k k' alike =>
      rw [run_bind_ok hx, run_bind_ok hy]
      exact rest a k k' alike
  | error reason alike =>
      rw [run_bind_error hx, run_bind_error hy]
      exact .error reason alike

/-- The heap is looked at. -/
theorem RunAlike.heap {k : Unit → Heap → Eval α} {l : Heap → Eval α}
    (rest : ∀ h h', Heap.Alike ρ h h' → RunAlike ρ said (fun i => k i h) (l h')) :
    RunAlike ρ said (fun i => Eval.heap >>= k i) (Eval.heap >>= l) :=
  fun m m' h => rest m.heap m'.heap h.heap m m' h

/-- Something is made in the heap, and has one number on both sides. -/
theorem RunAlike.make {f f' : Heap → α} {change change' : Heap → Heap}
    (same : ∀ h h', Heap.Alike ρ h h' → f' h' = f h)
    (alike : ∀ h h', Heap.Alike ρ h h' → (change h).Alike ρ (change' h')) :
    RunAlike ρ said (fun _ m => .ok (f m.heap) { m with heap := change m.heap })
      (fun m => .ok (f' m.heap) { m with heap := change' m.heap }) := by
  intro m m' h
  dsimp only
  rw [same _ _ h.heap]
  exact .ok (h.withHeap (alike _ _ h.heap))

theorem RunAlike.inScope {x : Unit → Eval α} {y : Eval α} (frame : FrameId)
    (inner : RunAlike ρ said x y) :
    RunAlike ρ said (fun i => Eval.inScope frame (x i)) (Eval.inScope frame y) := by
  intro m m' h
  have hends := inner _ _ (h.withScope (rfl : frame = frame))
  unfold Eval.inScope
  dsimp only
  generalize x () { m with scope := frame } = r at hends ⊢
  generalize y { m' with scope := frame } = r' at hends ⊢
  cases hends with
  | ok alike => exact .ok (alike.withScope h.scope)
  | error reason alike => exact .error reason (alike.withScope h.scope)

theorem RunAlike.anchored {x : Unit → Eval α} {y : Eval α} {token token' : Token}
    (place : ρ.tokens token token') (inner : RunAlike ρ said x y) :
    RunAlike ρ said (fun i => Eval.anchored token (x i)) (Eval.anchored token' y) := by
  intro m m' h
  have hends := inner m m' h
  unfold Eval.anchored
  dsimp only
  generalize x () m = r at hends ⊢
  generalize y m' = r' at hends ⊢
  cases hends with
  | ok alike => exact .ok alike
  | error reason alike =>
      cases reason with
      | fault own =>
          cases own with
          | none => exact .error (.fault (.some place)) alike
          | some own => exact .error (.fault (.some own)) alike
      | exit code => exact .error (.exit code) alike
      | overflow => exact .error .overflow alike
      | broken link => exact .error (.broken link) alike
      | missing node => exact .error (.missing node) alike
      | exhausted => exact .error .exhausted alike

theorem runAlike_noteStatement {s s' : Stmt} (alike : s.Alike ρ s') :
    RunAlike ρ said (fun _ => Eval.noteStatement s) (Eval.noteStatement s') := by
  intro m m' h
  dsimp only
  rw [noteStatement_eq, noteStatement_eq, alike.kindName_eq]
  exact .ok (h.noteAll (.cons (.same _) .nil))

theorem runAlike_print (value : Value) :
    RunAlike ρ said (fun _ => Eval.print value) (Eval.print value) := by
  intro m m' h
  obtain ⟨text, hleft, hright⟩ := h.printed
  refine .ok { h with printed := ⟨text ++ (m.heap.text value ++ "\n"), ?_, ?_⟩ }
  · dsimp only
    rw [hleft, String.append_assoc, String.append_assoc]
  · dsimp only
    rw [hright, h.heap.text_eq, String.append_assoc, String.append_assoc]

theorem runAlike_callNative (f : Native) (arguments : List Value) :
    RunAlike ρ said (fun _ => Eval.callNative f arguments) (Eval.callNative f arguments) := by
  intro m m' h
  cases f with
  | clock =>
      unfold Eval.callNative Eval.readClock
      dsimp only
      rw [h.clock]
      exact .ok { h with clock := rfl }
  | exit =>
      unfold Eval.callNative Eval.exitWith
      dsimp only
      cases arguments.headD .nil with
      | number x =>
          dsimp only
          cases Decimal.truncate? x with
          | none => exact .error (.fault .none) h
          | some code => exact .error (.exit code) h
      | _ => exact .error (.fault .none) h

-- ====================================================================== runs

/-- Evaluation goes alike on alike machines because all its steps do. -/
theorem fullCorrespondence (ρ : Likeness) (said : String × String) :
    FullCorrespondence ρ (fun {_} x y => RunAlike ρ said x y) where
  pure _ := fun _ _ h => .ok h
  bind := RunAlike.bind
  stop alike := fun _ _ h => .error alike.matches h
  inScope := RunAlike.inScope
  heap := RunAlike.heap
  scope := by
    intro m m' h
    unfold Eval.scope
    rw [h.scope]
    exact .ok h
  distance {id id'} node := by
    intro m m' h
    unfold Eval.distance?
    dsimp only
    rw [h.distances id id' node]
    exact .ok h
  noteStatement := runAlike_noteStatement
  print := runAlike_print
  define name value := by
    intro m m' h
    refine .ok (h.withHeap ?_)
    rw [h.scope]
    exact h.heap.define m.scope name value
  bindAt frame name value := .make (fun _ _ _ => rfl) fun _ _ h => h.define frame name value
  setField object name value := .make (fun _ _ _ => rfl) fun _ _ h => h.setField object name value
  newFrame outer bindings := .make (f := fun h => h.scopes.next)
    (fun _ _ h => congrArg Forest.next h.scopes) fun _ _ h => h.addFrame outer bindings
  newFunction alike := .make (f := fun h => h.functions.size) (fun _ _ h => h.size_eq)
    fun _ _ h => h.addFunction alike
  newClass c := .make (f := fun h => h.classes.size) (fun _ _ h => congrArg Array.size h.classes)
    fun _ _ h => h.addClass c
  newObject o := .make (f := fun h => h.objects.size) (fun _ _ h => congrArg Array.size h.objects)
    fun _ _ h => h.addObject o
  native := runAlike_callNative
  anchored := RunAlike.anchored

/-- Alike programs run alike on alike machines. -/
theorem Alike.interpret (h : m.Alike ρ said m') {body body' : List Stmt}
    (alike : List.Forall₂ (Stmt.Alike ρ) body body') (fuel room : Nat) :
    EndsAlike ρ said (Eval.interpret fuel room body m) (Eval.interpret fuel room body' m') :=
  (fullCorrespondence ρ said).interpretWith ((fullCorrespondence ρ said).runner fuel) alike m m' h

end Machine

-- ================================================================== sessions

namespace Session

variable {ρ : Likeness} {said : String × String} {body body' : List Stmt} {s s' : Session}

/-- Alike programs are both refused or both accepted. -/
theorem resolve_alike (h : s.machine.Alike ρ said s'.machine)
    (alike : List.Forall₂ (Stmt.Alike ρ) body body') :
    (∃ t t', s.resolve body = (.error (.illScoped (resolveProgram body).faults), t)
        ∧ s'.resolve body' = (.error (.illScoped (resolveProgram body').faults), t')
        ∧ t.machine.Alike ρ said t'.machine)
      ∨ ∃ t t', s.resolve body = (.ok (resolveProgram body), t)
        ∧ s'.resolve body' = (.ok (resolveProgram body'), t')
        ∧ t.machine.Alike ρ said t'.machine := by
  have hsurvey := resolveProgram_alike alike
  have hnoted := h.noteAll hsurvey.trace
  unfold Session.resolve
  dsimp only
  rw [hsurvey.isEmpty_faults_eq]
  split
  · exact .inr ⟨_, _, rfl, rfl, hnoted⟩
  · exact .inl ⟨_, _, rfl, rfl, hnoted⟩

/-- Alike programs run with one outcome. -/
theorem perform_alike (h : s.machine.Alike ρ said s'.machine)
    (alike : List.Forall₂ (Stmt.Alike ρ) body body') :
    Outcome.Matches ρ (s.perform body).1.settled (s'.perform body').1.settled
      ∧ (s.perform body).2.machine.Alike ρ said (s'.perform body').2.machine := by
  have hends := h.interpret alike stepLimit callLimit
  unfold Session.perform
  generalize Eval.interpret stepLimit callLimit body s.machine = r at hends ⊢
  generalize Eval.interpret stepLimit callLimit body' s'.machine = r' at hends ⊢
  cases hends with
  | ok alike => exact ⟨.completed, alike⟩
  | error reason alike =>
      refine ⟨?_, alike⟩
      cases reason with
      | fault place => exact .stopped (.fault place)
      | exit code => exact .stopped (.exit code)
      | overflow => exact .stopped (.fault .none)
      | broken link => exact .stopped (.broken link)
      | missing node => exact .stopped (.missing node)
      | exhausted => exact .stopped .exhausted

/-- Alike sessions take over alike programs with one outcome, and are alike behind them. -/
theorem runTree_alike (one : ρ.OneToOne) (h : s.machine.Alike ρ said s'.machine)
    (alike : List.Forall₂ (Stmt.Alike ρ) body body') :
    Outcome.Matches ρ (s.runTree body).1 (s'.runTree body').1
      ∧ (s.runTree body).2.machine.Alike ρ said (s'.runTree body').2.machine := by
  have hsurvey := resolveProgram_alike alike
  unfold Session.runTree
  rcases resolve_alike h alike with ⟨_, _, hr, hr', hleft⟩ | ⟨t, t', hr, hr', hleft⟩
  · rw [hr, hr']
    exact ⟨.illScoped hsurvey.faults, hleft⟩
  · have hlinked : (t.link (resolveProgram body)).machine.Alike ρ said
        (t'.link (resolveProgram body')).machine :=
      { hleft with distances := hleft.distances.addLinks one hsurvey.links }
    rw [hr, hr']
    exact perform_alike hlinked alike

end Session

end Lox
