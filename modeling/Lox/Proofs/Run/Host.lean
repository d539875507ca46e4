/-
Runs on a host that may fail. Whenever a node is entered the host is asked how
much room is left for calls, and it may answer that the run ends there: its stack
can be exhausted anywhere (`Host`). The evaluator as it stands is the one whose
host never objects.

However a run ends, it has put the current frame back and has kept all global
variables. Both are shown of two runs at once, on hosts that differ at a single
moment: either the two runs are one, or the moment lies before the end of the
run, and then what was bound at that moment is bound in the end (`Intact`).
-/
import Lox.Proofs.Run.Congruence
import Lox.Proofs.Store.Forest
import Lox.Proofs.Lockstep.Simulation

namespace Lox

open Lockstep (run_bind_ok run_bind_error)

/-- What the host says when a node is about to be entered: the room there is for the calls that the
node makes, or how the run ends here. Blocks and calls are entered from nodes, so a host that has
no room for a call says so at the node of the call. -/
abbrev Host := Node → Machine → Nat → Except Stop Nat

/-- The host that never objects. -/
def Host.patient : Host := fun _ _ room => .ok room

/-- Asks the host before a node is entered. -/
def Host.allow {α : Type} (host : Host) (n : Node) (room : Nat) (x : Nat → Eval α) : Eval α :=
  fun m =>
    match host n m room with
    | .ok room => x room m
    | .error s => .error s m

/-- A runner that asks the host before it enters a node. -/
def Runner.hosted (host : Host) (run : Runner) : Runner where
  evaluate room e := host.allow (.expression e) room fun room => run.evaluate room e
  execute room s := host.allow (.statement s) room fun room => run.execute room s
  loop := run.loop

/-- The evaluator, which asks the host at all its steps. -/
def Eval.hostedRunner (host : Host) : Nat → Runner
  | 0 => Eval.runner 0
  | fuel + 1 => (Eval.hostedRunner host fuel).deepen.hosted host

/-- A run of a program on a host. -/
def Eval.interpretOn (host : Host) (fuel room : Nat) (body : List Stmt) : Eval Unit :=
  Eval.interpretWith (Eval.hostedRunner host fuel) room body

theorem Eval.hostedRunner_patient (fuel : Nat) :
    Eval.hostedRunner .patient fuel = Eval.runner fuel := by
  induction fuel with
  | zero => rfl
  | succ fuel ih =>
      rw [Eval.hostedRunner, ih, Eval.runner_succ]
      rfl

/-- Runs are runs on a host that never objects. -/
theorem Eval.interpretOn_patient (fuel room : Nat) (body : List Stmt) :
    Eval.interpretOn .patient fuel room body = Eval.interpret fuel room body := by
  rw [Eval.interpretOn, Eval.hostedRunner_patient]
  rfl

/-- Two hosts differ at most when one node is entered on one machine. -/
def Host.DifferAt (node : Node) (at' : Machine) (host other : Host) : Prop :=
  ∀ n k room, other n k room ≠ host n k room → n = node ∧ k = at'

/-- A run comes to a moment: it would have gone another way, had the host answered differently
then and only then. -/
def Passes (host : Host) (fuel room : Nat) (body : List Stmt) (m : Machine) (node : Node)
    (at' : Machine) : Prop :=
  ∃ other, host.DifferAt node at' other
    ∧ Eval.interpretOn other fuel room body m ≠ Eval.interpretOn host fuel room body m

/-- An observer is a host that objects when a check fails. -/
def Check.host (check : Check) (alarm : Stop) : Host := fun n m room =>
  if check n m then .ok room else .error alarm

theorem Runner.hosted_host (check : Check) (alarm : Stop) (run : Runner) :
    run.hosted (check.host alarm) = run.watched check alarm := by
  have hallow : ∀ {α : Type} (n : Node) (room : Nat) (x : Nat → Eval α),
      (check.host alarm).allow n room x
        = fun m => if check n m then x room m else .error alarm m := by
    intro α n room x
    funext m
    unfold Host.allow Check.host
    cases check n m <;> rfl
  unfold Runner.hosted Runner.watched
  congr 1
  · funext room e
    exact hallow _ _ _
  · funext room s
    exact hallow _ _ _

theorem Eval.hostedRunner_host (check : Check) (alarm : Stop) (fuel : Nat) :
    Eval.hostedRunner (check.host alarm) fuel = Eval.watchedRunner check alarm fuel := by
  induction fuel with
  | zero => rfl
  | succ fuel ih => rw [Eval.hostedRunner, ih, Runner.hosted_host, Eval.watchedRunner]

/-- Wherever an observer sees a run enter a node, the run comes to that moment. -/
theorem Enters.passes {fuel room : Nat} {body : List Stmt} {m at' : Machine} {node : Node}
    (h : Enters fuel room body m node at') : Passes .patient fuel room body m node at' := by
  obtain ⟨check, alarm, honly, hne⟩ := h
  refine ⟨check.host alarm, fun n k room hdiffer => honly n k ?_, ?_⟩
  · by_contra hcheck
    have hpass : check n k = true := by simpa using hcheck
    exact hdiffer (if_pos hpass)
  · rw [Eval.interpretOn_patient, Eval.interpretOn, Eval.hostedRunner_host]
    exact hne

/-- The machine that a run leaves behind, however it ends. -/
def Eval.left {α : Type} (x : Eval α) (m : Machine) : Machine :=
  match x m with
  | .ok _ m' | .error _ m' => m'

/-- What is a global variable on one machine is one on another. -/
def Machine.Keeps (m m' : Machine) : Prop :=
  ∀ name, (m.heap.scopes.local? globalFrame name).isSome →
    (m'.heap.scopes.local? globalFrame name).isSome

theorem Machine.Keeps.refl (m : Machine) : m.Keeps m := fun _ h => h

theorem Machine.Keeps.trans {a b c : Machine} (h : a.Keeps b) (h' : b.Keeps c) : a.Keeps c :=
  fun name hname => h' name (h name hname)

-- ============================================================== intact runs

/-- A run puts the current frame back and keeps the global variables. It differs from an observed
run only if what is bound at a given moment is bound when it ends. -/
structure Intact (moment : Machine) {α : Type} (observed plain : Eval α) : Prop where
  restored (m : Machine) : (plain.left m).scope = m.scope
  kept (m : Machine) : m.Keeps (plain.left m)
  noticed (m : Machine) : observed m = plain m ∨ moment.Keeps (plain.left m)

namespace Intact

open Eval

variable {moment : Machine} {α β : Type}

theorem left_of_ok {x : Eval α} {m m' : Machine} {a : α} (h : x m = .ok a m') : x.left m = m' := by
  unfold Eval.left
  rw [h]

theorem left_of_error {x : Eval α} {m m' : Machine} {s : Stop} (h : x m = .error s m') :
    x.left m = m' := by
  unfold Eval.left
  rw [h]

/-- A step that nobody interferes with. -/
theorem step {x : Eval α} (h : ∀ m, (x.left m).scope = m.scope ∧ m.Keeps (x.left m)) :
    Intact moment x x where
  restored m := (h m).1
  kept m := (h m).2
  noticed _ := .inl rfl

/-- A step that leaves the heap alone, and the current frame. -/
theorem still {x : Eval α} (h : ∀ m, (x.left m).scope = m.scope ∧ (x.left m).heap = m.heap) :
    Intact moment x x :=
  step fun m => ⟨(h m).1, fun _ hname => by rw [(h m).2]; exact hname⟩

theorem bind {x y : Eval α} {f g : α → Eval β} (first : Intact moment x y)
    (rest : ∀ a, Intact moment (f a) (g a)) : Intact moment (x >>= f) (y >>= g) := by
  -- How the whole ends is how its second part ends, or its first if that stops.
  have hends : ∀ m, (∃ a m', y m = .ok a m' ∧ y.left m = m' ∧ (y >>= g) m = g a m'
        ∧ (y >>= g).left m = (g a).left m')
      ∨ (∃ s, y m = .error s (y.left m) ∧ (y >>= g).left m = y.left m) := by
    intro m
    cases hy : y m with
    | ok a m' =>
        have hrun : (y >>= g) m = g a m' := run_bind_ok hy
        refine .inl ⟨a, m', rfl, left_of_ok hy, hrun, ?_⟩
        unfold Eval.left
        rw [hrun]
    | error s m' =>
        rw [left_of_error hy]
        exact .inr ⟨s, rfl, left_of_error (run_bind_error hy)⟩
  refine ⟨fun m => ?_, fun m => ?_, fun m => ?_⟩
  · rcases hends m with ⟨a, m', -, hleft, -, hall⟩ | ⟨s, -, hall⟩
    · rw [hall, (rest a).restored, ← hleft]
      exact first.restored m
    · rw [hall]
      exact first.restored m
  · rcases hends m with ⟨a, m', -, hleft, -, hall⟩ | ⟨s, -, hall⟩
    · rw [hall]
      subst hleft
      exact (first.kept m).trans ((rest a).kept _)
    · rw [hall]
      exact first.kept m
  · rcases hends m with ⟨a, m', hy, hleft, hrun, hall⟩ | ⟨s, hy, hall⟩
    · rw [hall]
      rcases first.noticed m with hx | hx
      · rw [run_bind_ok (hx.trans hy), hrun]
        exact (rest a).noticed m'
      · rw [hleft] at hx
        exact .inr (hx.trans ((rest a).kept m'))
    · rw [hall]
      rcases first.noticed m with hx | hx
      · rw [run_bind_error (hx.trans hy), run_bind_error hy]
        exact .inl rfl
      · exact .inr hx

theorem left_anchored (token : Token) (x : Eval α) (m : Machine) :
    Eval.left (Eval.anchored token x) m = x.left m := by
  unfold Eval.left Eval.anchored
  cases x m with
  | ok a m' => rfl
  | error s m' =>
      cases s with
      | fault f =>
          obtain ⟨place, cause⟩ := f
          cases place <;> rfl
      | _ => rfl

/-- However a run in another frame ends, the frame that was current is current again. -/
theorem left_inScope (frame : FrameId) (x : Eval α) (m : Machine) :
    Eval.left (Eval.inScope frame x) m
      = { x.left { m with scope := frame } with scope := m.scope } := by
  unfold Eval.left Eval.inScope
  dsimp only
  cases x { m with scope := frame } <;> rfl

theorem anchored {x y : Eval α} (token : Token) (inner : Intact moment x y) :
    Intact moment (Eval.anchored token x) (Eval.anchored token y) where
  restored m := by
    rw [left_anchored]
    exact inner.restored m
  kept m := by
    rw [left_anchored]
    exact inner.kept m
  noticed m := by
    rw [left_anchored]
    refine (inner.noticed m).imp_left fun h => ?_
    unfold Eval.anchored
    rw [h]

theorem inScope {x y : Eval α} (frame : FrameId) (inner : Intact moment x y) :
    Intact moment (Eval.inScope frame x) (Eval.inScope frame y) where
  restored m := by rw [left_inScope]
  kept m := by
    rw [left_inScope]
    exact inner.kept { m with scope := frame }
  noticed m := by
    rw [left_inScope]
    refine (inner.noticed { m with scope := frame }).imp (fun h => ?_) fun h => h
    unfold Eval.inScope
    dsimp only
    rw [h]

/-- Binding a name keeps all names. -/
theorem kept_define (m : Machine) (frame : FrameId) (name : String) (value : Value) :
    m.Keeps { m with heap := m.heap.define frame name value } :=
  fun _ => Forest.isSome_local?_define

/-- Evaluation is intact because all its steps are. -/
theorem congruence (moment : Machine) :
    Congruence (fun _ => True) (fun {_} observed plain => Intact moment observed plain) where
  pure _ := still fun _ => ⟨rfl, rfl⟩
  bind := Intact.bind
  stop _ := still fun _ => ⟨rfl, rfl⟩
  anchored := Intact.anchored
  inScope := Intact.inScope
  heap := still fun _ => ⟨rfl, rfl⟩
  scope := still fun _ => ⟨rfl, rfl⟩
  distance _ := still fun _ => ⟨rfl, rfl⟩
  closure {_ f _ _} rest := by
    refine Intact.bind (Intact.bind (still fun _ => ⟨rfl, rfl⟩) fun h => ?_) fun c =>
      rest c fun _ _ => trivial
    cases h.functions[f]? with
    | none => exact still fun _ => ⟨rfl, rfl⟩
    | some c => exact still fun _ => ⟨rfl, rfl⟩
  noteStatement s := by
    refine still fun m => ?_
    have hleft : (Eval.noteStatement s).left m
        = if m.tracing then m.note ("Executing: " ++ s.kindName) else m := by
      unfold Eval.left Eval.noteStatement
      cases m.tracing <;> rfl
    rw [hleft]
    cases m.tracing <;> exact ⟨rfl, rfl⟩
  print _ := still fun _ => ⟨rfl, rfl⟩
  readClock := still fun _ => ⟨rfl, rfl⟩
  define name value := step fun m => ⟨rfl, kept_define m m.scope name value⟩
  bindAt frame name value := step fun m => ⟨rfl, kept_define m frame name value⟩
  setField _ _ _ := step fun m => ⟨rfl, .refl m⟩
  newFrame outer bindings := step fun _ =>
    ⟨rfl, fun _ => Forest.isSome_local?_grow (some outer) bindings⟩
  newFunction _ := step fun m => ⟨rfl, .refl m⟩
  newClass _ := step fun m => ⟨rfl, .refl m⟩
  newObject _ := step fun m => ⟨rfl, .refl m⟩

end Intact

-- ==================================================================== hosts

variable {node : Node} {moment : Machine} {host other : Host}

theorem Host.allow_of_ok {α : Type} {n : Node} {room granted : Nat} {m : Machine}
    (x : Nat → Eval α) (h : host n m room = .ok granted) : host.allow n room x m = x granted m := by
  unfold Host.allow
  rw [h]

theorem Host.allow_of_error {α : Type} {n : Node} {room : Nat} {m : Machine} {s : Stop}
    (x : Nat → Eval α) (h : host n m room = .error s) : host.allow n room x m = .error s m := by
  unfold Host.allow
  rw [h]

/-- A node is entered on one of two hosts that differ at most at one moment. -/
theorem Intact.allow {α : Type} {x y : Nat → Eval α} (n : Node) (room : Nat)
    (h : ∀ room, Intact moment (x room) (y room)) (hdiffer : host.DifferAt node moment other) :
    Intact moment (other.allow n room x) (host.allow n room y) := by
  -- Where the host goes on the run is the one it was, and where it does not nothing has happened.
  have hleft : ∀ m, (∃ granted, host n m room = .ok granted
        ∧ (host.allow n room y).left m = (y granted).left m)
      ∨ (∃ s, host n m room = .error s ∧ (host.allow n room y).left m = m) := by
    intro m
    cases hasked : host n m room with
    | ok granted =>
        refine .inl ⟨granted, rfl, ?_⟩
        unfold Eval.left
        rw [host.allow_of_ok y hasked]
    | error s => exact .inr ⟨s, rfl, Intact.left_of_error (host.allow_of_error y hasked)⟩
  have hkept : ∀ m : Machine, m.Keeps ((host.allow n room y).left m) := by
    intro m
    rcases hleft m with ⟨granted, -, he⟩ | ⟨s, -, he⟩
    · rw [he]
      exact (h granted).kept m
    · rw [he]
      exact .refl m
  refine ⟨fun m => ?_, hkept, fun m => ?_⟩
  · rcases hleft m with ⟨granted, -, he⟩ | ⟨s, -, he⟩
    · rw [he, (h granted).restored]
    · rw [he]
  · by_cases hsame : other n m room = host n m room
    · rcases hleft m with ⟨granted, hasked, he⟩ | ⟨s, hasked, he⟩
      · rw [he, other.allow_of_ok x (hsame.trans hasked), host.allow_of_ok y hasked]
        exact (h granted).noticed m
      · rw [other.allow_of_error x (hsame.trans hasked), host.allow_of_error y hasked]
        exact .inl rfl
    · obtain ⟨-, hm⟩ := hdiffer n m room hsame
      subst hm
      exact .inr (hkept m)

/-- Runs on two hosts that differ at most at one moment. -/
theorem Intact.hostedRunner (hdiffer : host.DifferAt node moment other) (fuel : Nat) :
    Runner.Alike (fun _ => True) (fun {_} observed plain => Intact moment observed plain)
      (Eval.hostedRunner other fuel) (Eval.hostedRunner host fuel) := by
  induction fuel with
  | zero => exact (Intact.congruence moment).exhausted
  | succ fuel ih =>
      have hdeep := (Intact.congruence moment).deepen ih
      exact ⟨fun room e he =>
          Intact.allow (.expression e) room (fun room => hdeep.evaluate room he) hdiffer,
        fun room s hs =>
          Intact.allow (.statement s) room (fun room => hdeep.execute room hs) hdiffer,
        hdeep.loop⟩

/-- What is bound at a moment of a run is bound when the run has ended. -/
theorem Passes.keeps {fuel room : Nat} {body : List Stmt} {m : Machine}
    (h : Passes host fuel room body m node moment) :
    moment.Keeps ((Eval.interpretOn host fuel room body).left m) := by
  obtain ⟨other, hdiffer, hne⟩ := h
  have hintact : Intact moment (Eval.interpretOn other fuel room body)
      (Eval.interpretOn host fuel room body) :=
    (Intact.congruence moment).interpretWith (Intact.hostedRunner hdiffer fuel) fun _ _ => trivial
  exact (hintact.noticed m).resolve_left hne

/-- Whole runs leave the current frame and the global variables intact. -/
theorem Intact.interpretOn (host : Host) (fuel room : Nat) (body : List Stmt) (moment : Machine) :
    Intact moment (Eval.interpretOn host fuel room body) (Eval.interpretOn host fuel room body) := by
  have hsame : host.DifferAt (.statement (.block 0 [])) moment host := fun _ _ _ hne =>
    absurd rfl hne
  exact (Intact.congruence moment).interpretWith (Intact.hostedRunner hsame fuel)
    fun _ _ => trivial

end Lox
