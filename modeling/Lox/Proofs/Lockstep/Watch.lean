/-
Watching a run. "The evaluator enters a node" is a moment inside a run, and a
run has no moments of its own: it is a function from machines to results. So an
observer is let in. A watched run checks something whenever a node is entered,
and stops when the check fails; a moment is reached when a check that fails at
that very moment, and never else, is noticed in the result (`Enters`).

`Visit.InStep` is what the resolver's scopes say about the machine at such a
moment.
-/
import Lox.Proofs.Binding.Visit
import Lox.Eval.Evaluate

namespace Lox

/-- What an observer may say to a node that is about to be entered. -/
abbrev Check := Node → Machine → Bool

/-- A run that stops with `alarm` before it enters a node for which a check fails. -/
def Runner.watched (check : Check) (alarm : Stop) (run : Runner) : Runner where
  evaluate room e := fun m =>
    if check (.expression e) m then run.evaluate room e m else .error alarm m
  execute room s := fun m =>
    if check (.statement s) m then run.execute room s m else .error alarm m
  loop := run.loop

/-- One more step into the tree. -/
def Runner.deepen (run : Runner) : Runner :=
  ⟨Eval.evaluateNode run, Eval.executeNode run, Eval.loopNode run⟩

/-- The evaluator, watched at all its steps. -/
def Eval.watchedRunner (check : Check) (alarm : Stop) : Nat → Runner
  | 0 => Eval.runner 0
  | fuel + 1 => (Eval.watchedRunner check alarm fuel).deepen.watched check alarm

/-- A run of a program enters a node at a machine: a check that fails there alone is noticed. -/
def Enters (fuel room : Nat) (body : List Stmt) (m : Machine) (node : Node) (at' : Machine) :
    Prop :=
  ∃ (check : Check) (alarm : Stop), (∀ n k, check n k = false → n = node ∧ k = at')
    ∧ Eval.interpretWith (Eval.watchedRunner check alarm fuel) room body m
      ≠ Eval.interpret fuel room body m

/-- The scopes of a visit and the frames of a machine go together: there are as many frames around
the current one as there are scopes, and each frame binds what is ready in its scope. A class that
is being named is in scope before it is bound. -/
structure Visit.InStep (v : Visit) (m : Machine) : Prop where
  depth : m.heap.scopes.depth m.scope = v.scopes.length
  bound : ∀ (i : Nat) (scope : Scope), v.scopes[i]? = some scope →
    ∃ frame, m.heap.scopes.ancestor? m.scope i = some frame
      ∧ ∀ name, scope.find? name = some true →
        (m.heap.scopes.local? frame name).isSome ∨ (i = 0 ∧ v.naming = some name)

/-- The token of a variable that a node names. -/
def Node.mention? : Node → Option Token
  | .expression (.var _ name) | .expression (.assign _ name _) => some name
  | _ => none

/-- A stop that a resolved program can meet: no link was broken, and what is called undefined is a
variable that none of the resolver's scopes binds. -/
structure Stop.Genuine (visits : List Visit) (s : Stop) : Prop where
  whole : ∀ link, s ≠ .broken link
  unbound : ∀ token name, s = .fault ⟨token, .undefinedVariable name⟩ →
    ∃ v ∈ visits, ∃ t : Token, token = some t ∧ v.node.mention? = some t ∧ t.lexeme = name
      ∧ v.scopes.distance? name = none

/-- A fault of another kind is genuine. -/
theorem Stop.genuine_fault {visits : List Visit} (token : Option Token) {cause : RuntimeCause}
    (hcause : ∀ name, cause ≠ .undefinedVariable name) :
    (Stop.fault ⟨token, cause⟩).Genuine visits where
  whole := nofun
  unbound _ name he := by
    cases he
    exact absurd rfl (hcause name)

/-- A program may leave. -/
theorem Stop.genuine_exit (visits : List Visit) (code : Int) : (Stop.exit code).Genuine visits where
  whole := nofun
  unbound := nofun

theorem Eval.runner_succ (fuel : Nat) : Eval.runner (fuel + 1) = (Eval.runner fuel).deepen := rfl

end Lox
