/-
Whole runs. From one step into the tree to any number of them: a watched runner,
the plain one and that of the reference go together at every bound on the steps,
as long as the check passes wherever the machine is where the resolver was
(`Pair.Meets`). So no check that passes there can ever be noticed.
-/
import Lox.Proofs.Lockstep.Node

namespace Lox

theorem Scopes.isPending_introduce_of_ne {scopes : Scopes} {name : Token} {other : String}
    (h : name.lexeme ≠ other) :
    (scopes.introduce name).1.isPending other = scopes.isPending other := by
  cases scopes with
  | nil => rfl
  | cons scope outer =>
      rw [Scopes.introduce_cons]
      show (Bindings.find? ((scope.set name.lexeme false).set name.lexeme true) other == some false)
        = (scope.find? other == some false)
      rw [Bindings.find?_set_of_ne _ h, Bindings.find?_set_of_ne _ h]

namespace Lockstep

open Reference (Location Names Run Sight)

/-- A pair is where the resolver was at a visit. The name of a superclass is evaluated before the
class gets its home, so one name of the scopes has none yet. -/
inductive Pair.Meets (p : Pair) : Visit → Prop
  | here {node : Node} {around : Surroundings} {scopes : Scopes} {names : Names}
      (place : p.At scopes names) : p.Meets ⟨node, around, scopes, none⟩
  | naming {around : Surroundings} {scopes : Scopes} {names : Names} {name : Token}
      {parent : NameRef} (place : p.At scopes names) (settled : scopes.Settled)
      (other : parent.name.lexeme ≠ name.lexeme) :
      p.Meets ⟨.expression parent.asExpr, around, (scopes.introduce name).1, some name.lexeme⟩

variable {visits : List Visit} {still : Bool} {p q : Pair} {scopes : Scopes} {names : Names}
  {around : Surroundings} {room : Nat} {run run' : Runner} {ref : Reference.Runner}
  {check : Check} {alarm : Stop}

/-- A check that passes wherever a pair is where the resolver was. -/
def Passing (visits : List Visit) (check : Check) : Prop :=
  ∀ v ∈ visits, ∀ p : Pair, p.Ok visits → p.Meets v → check v.node p.machine = true

/-- A check that passes goes unnoticed. -/
theorem Sim.watch {α β : Type} {observed plain : Eval α} {reference : Run β}
    {post : α → β → Pair → Prop} {node : Node}
    (h : Sim visits still p observed plain reference post)
    (hcheck : check node p.machine = true) :
    Sim visits still p (fun m => if check node m then observed m else .error alarm m) plain
      reference post where
  same := by
    show (if check node p.machine then observed p.machine else .error alarm p.machine) = _
    rw [if_pos hcheck]
    exact h.same
  ends := h.ends

-- =================================================================== steps

theorem Sound.executeNode (hr : Sound visits run run' ref) (hp : p.Ok visits) {sight : Sight}
    (ha : p.At scopes sight.names) (hin : sight.inner = !scopes.isEmpty) {s : Stmt}
    (hv : ∀ v ∈ s.visits around scopes, v ∈ visits) :
    Sim visits false p (Eval.executeNode run room s) (Eval.executeNode run' room s)
      (Reference.executeNode ref sight room s)
      (Executed visits sight.inner (s.resolve around scopes).1) :=
  sim_noteStatement s hp ha fun _ hq haq => hr.performNode hq haq hin hv

/-- One round of a loop. Its body declares nothing, so every round begins at the same place. -/
theorem Sound.loopNode (hr : Sound visits run run' ref) (hp : p.Ok visits) {sight : Sight}
    (ha : p.At scopes sight.names) (hin : sight.inner = !scopes.isEmpty) {condition : Expr}
    {body : Stmt} (hdeclares : body.declares = none)
    (hcondition : ∀ v ∈ condition.visits around scopes, v ∈ visits)
    (hbody : ∀ v ∈ body.visits around scopes, v ∈ visits) :
    Sim visits false p (Eval.loopNode run room condition body)
      (Eval.loopNode run' room condition body) (Reference.loopNode ref sight room condition body)
      fun c d q => Completed visits c d q ∧ q.At scopes sight.names := by
  refine hr.after hp ha hcondition fun a q hq _ haq _ => ?_
  cases a.isTruthy with
  | false => exact .done hq ⟨⟨rfl, q.sane_nil⟩, haq⟩
  | true =>
      refine (hr.plain hq haq hin hbody hdeclares).bind ?_
      rintro _ d r hr' - ⟨⟨rfl, hc⟩, hback⟩
      cases hd : d.1 with
      | normal =>
          exact hr.loop r sight room around scopes condition body hr' hback hin hdeclares
            hcondition hbody
      | returned v =>
          rw [hd] at hc
          exact .done hr' ⟨⟨rfl, hc⟩, hback⟩

/-- The name of a superclass is a variable of the scopes without the class. -/
theorem sim_name (run run' : Runner) (ref : Reference.Runner) (room : Nat) (hp : p.Ok visits)
    (ha : p.At scopes names) (hs : scopes.Settled) {name : Token}
    {parent : NameRef} (hne : parent.name.lexeme ≠ name.lexeme)
    (hv : ⟨.expression parent.asExpr, around, (scopes.introduce name).1, some name.lexeme⟩
      ∈ visits) :
    Sim visits true p (Eval.evaluateNode run room parent.asExpr)
      (Eval.evaluateNode run' room parent.asExpr)
      (Reference.evaluateNode ref names room parent.asExpr) (Agreed visits) := by
  have hsound := hp.sound _ hv
  have hpending : (scopes.introduce name).1.isPending parent.name.lexeme = false :=
    hsound.not_pending rfl
  have hid : p.machine.distances[parent.id]?
      = (scopes.introduce name).1.distance? parent.name.lexeme := hsound.linked _ rfl
  rw [Scopes.isPending_introduce_of_ne hne.symm] at hpending
  rw [Scopes.distance?_introduce_of_ne _ hne.symm] at hid
  refine sim_lookUp hp ha hs hpending hid ⟨_, hv, rfl, fun hnone => ?_⟩
  show (scopes.introduce name).1.distance? parent.name.lexeme = none
  rw [Scopes.distance?_introduce_of_ne _ hne.symm, hnone]

/-- Runners that go together go together one step further into the tree. -/
theorem Sound.deepen (hr : Sound visits run run' ref) (hcheck : Passing visits check) :
    Sound visits (run.deepen.watched check alarm) run'.deepen
      ⟨Reference.evaluateNode ref, Reference.executeNode ref, Reference.loopNode ref⟩ where
  evaluate p _ _ around scopes e hp ha hv :=
    (hr.evaluateNode hp ha hv).watch
      (hcheck _ (hv _ (e.mem_visits around scopes)) p hp (.here ha))
  name p _ room _ _ _ _ hp ha hs hne hv :=
    (sim_name run run' ref room hp ha hs hne hv).watch (hcheck _ hv p hp (.naming ha hs hne))
  execute p _ _ around scopes s hp ha hin hv :=
    (hr.executeNode hp ha hin hv).watch
      (hcheck _ (hv _ (s.mem_visits around scopes)) p hp (.here ha))
  loop _ _ _ _ _ _ _ hp ha hin hdeclares hcondition hbody :=
    hr.loopNode hp ha hin hdeclares hcondition hbody

/-- Whatever the bound on the steps is. -/
theorem sound_watchedRunner (hcheck : Passing visits check) (fuel : Nat) :
    Sound visits (Eval.watchedRunner check alarm fuel) (Eval.runner fuel)
      (Reference.runner fuel) := by
  induction fuel with
  | zero =>
      have hexhausted : Stop.exhausted.Genuine visits := ⟨nofun, nofun⟩
      exact {
        evaluate := fun _ _ _ _ _ _ hp _ _ => .halt rfl rfl hp hexhausted
        name := fun _ _ _ _ _ _ _ hp _ _ _ _ => .halt rfl rfl hp hexhausted
        execute := fun _ _ _ _ _ _ hp _ _ _ => .halt rfl rfl hp hexhausted
        loop := fun _ _ _ _ _ _ _ hp _ _ _ _ _ => .halt rfl rfl hp hexhausted }
  | succ fuel ih => exact ih.deepen hcheck

/-- The statements of a program. -/
theorem Sound.interpretWith (hr : Sound visits run run' ref) (hp : p.Ok visits) {sight : Sight}
    (ha : p.At scopes sight.names) (hin : sight.inner = !scopes.isEmpty) {body : List Stmt}
    (hv : ∀ v ∈ Stmt.visitsAll around scopes body, v ∈ visits) :
    Sim visits false p (Eval.interpretWith run room body) (Eval.interpretWith run' room body)
      (Reference.interpretWith ref sight room body) fun _ _ _ => True := by
  induction body generalizing p sight scopes with
  | nil => exact .done hp trivial
  | cons s rest ih =>
      have hs : ∀ v ∈ s.visits around scopes, v ∈ visits := fun v h =>
        hv v (List.mem_append_left _ h)
      refine (hr.execute p sight room around scopes s hp ha hin hs).bind ?_
      intro _ behind q hq _ h
      obtain ⟨-, -, hin', haq⟩ := h
      refine ih hq haq ?_ fun v h => hv v (List.mem_append_right _ h)
      rw [hin', hin, hp.inner_resolve hs]

/-- A run of a program whose visits are known, from a machine on which nothing is running. -/
theorem sim_interpret (hp : p.Ok visits) (ha : p.At [] .empty) {body : List Stmt}
    (hv : ∀ v ∈ programVisits body, v ∈ visits) (hcheck : Passing visits check) (alarm : Stop)
    (fuel : Nat) :
    Sim visits false p (Eval.interpretWith (Eval.watchedRunner check alarm fuel) room body)
      (Eval.interpret fuel room body) (Reference.interpret fuel room body) fun _ _ _ => True :=
  have htop : p.At [] Sight.topLevel.names := ha
  (sound_watchedRunner hcheck fuel).interpretWith hp htop rfl hv

/-- Where a run enters a node, the machine is where the resolver was at a visit of this node. -/
theorem exists_meets (hp : p.Ok visits) (ha : p.At [] .empty) {body : List Stmt}
    (hv : ∀ v ∈ programVisits body, v ∈ visits) {fuel : Nat} {node : Node} {m : Machine}
    (h : Enters fuel room body p.machine node m) :
    ∃ v ∈ visits, v.node = node ∧ ∃ q : Pair, q.machine = m ∧ q.Ok visits ∧ q.Meets v := by
  obtain ⟨check, alarm, honly, hnoticed⟩ := h
  refine Classical.byContradiction fun hnone => hnoticed ?_
  have hcheck : Passing visits check := by
    intro v hmem q hq hmeets
    cases hc : check v.node q.machine with
    | true => rfl
    | false =>
        obtain ⟨hnode, hmachine⟩ := honly _ _ hc
        exact absurd ⟨v, hmem, hnode, q, hmachine, hq, hmeets⟩ hnone
  exact (sim_interpret hp ha hv hcheck alarm fuel).same

end Lockstep

end Lox
