/-
The tree that stands for a `for` means what the `for` means. The tree has one block
more for every variable and every increment, so its parts lie deeper and run with
fewer steps left; apart from that, both go the same way. Either is the other cut
short.

A block opens no new names by itself. What stands in it sees what stood around it
(`Runner.Level`), and a statement that declares nothing leaves what is in sight as
it was (`execute_plain`); that is why the increment sees nothing of the body.
-/
import Lox.Proofs.Loop.Clauses
import Lox.Proofs.Reference.Steps

namespace Lox.Reference

open Eval (stop)

variable {α β : Type} {fuel room : Nat} {sight : Sight} {loop : ForLoop}

/-- How a statement ends, whatever is in sight behind it. -/
def finish (x : Run (Completion × Sight)) : Run Completion := do
  let (completion, _) ← x
  pure completion

theorem Sooner.finish {x y : Run (Completion × Sight)} (h : Sooner x y) :
    Sooner (finish x) (finish y) := h.bind fun _ => same _

theorem bind_finish (x : Run (Completion × Sight)) (f : Completion → Run β) :
    (finish x >>= f) = x >>= fun p => f p.1 := by
  unfold finish
  rw [bind_assoc]
  simp only [pure_bind]

theorem finish_bind (x : Run α) (f : α → Run (Completion × Sight)) :
    finish (x >>= f) = x >>= fun a => finish (f a) := bind_assoc ..

theorem finish_after (x : Run α) {f g : α → Run (Completion × Sight)}
    (h : ∀ a, finish (f a) = finish (g a)) : finish (x >>= f) = finish (x >>= g) := by
  rw [finish_bind, finish_bind]
  exact bind_congr h

theorem finish_replaced {x : Run (Completion × Sight)} :
    finish (do let (completion, _) ← x; pure (completion, sight)) = finish x :=
  finish_bind ..

/-- What comes behind a statement in sequence, which a return leaves out. -/
def andThen (rest : Run Completion) : Completion → Run Completion
  | .normal => rest
  | .returned v => pure (.returned v)

theorem andThen_sooner {x y : Run Completion} (h : Sooner x y) (completion : Completion) :
    Sooner (andThen x completion) (andThen y completion) := by
  cases completion with
  | normal => exact h
  | returned v => exact .same _

theorem bind_andThen_done (x : Run Completion) : x >>= andThen (pure .normal) = x := by
  have hpure : andThen (pure .normal) = pure := by
    funext completion
    cases completion <;> rfl
  rw [hpure, bind_pure]

/-- One round of a loop, and then the others. -/
theorem loopNode_eq (run : Runner) (sight : Sight) (room : Nat) (condition : Expr) (body : Stmt) :
    loopNode run sight room condition body = (do
      let holds ← run.evaluate sight.names room condition
      if holds.isTruthy then
        finish (run.execute sight room body) >>= andThen (run.loop sight room condition body)
      else pure .normal) := by
  refine bind_congr fun holds => ?_
  rw [bind_finish]
  refine if_congr .rfl (bind_congr fun p => ?_) rfl
  cases p.1 <;> rfl

-- ======================================================= declaring nothing

/-- Behind a run the same is in sight, and it is known what. -/
def Steady (sight : Sight) (x : Run (Completion × Sight)) : Prop :=
  x = (do let (completion, _) ← x; pure (completion, sight))

namespace Steady

theorem pure (completion : Completion) : Steady sight (pure (completion, sight)) := rfl

theorem bind (x : Run α) {f : α → Run (Completion × Sight)} (h : ∀ a, Steady sight (f a)) :
    Steady sight (x >>= f) := by
  unfold Steady
  rw [bind_assoc]
  exact bind_congr h

theorem ite {b : Bool} {x y : Run (Completion × Sight)} (hx : Steady sight x)
    (hy : Steady sight y) : Steady sight (if b then x else y) := by
  cases b with
  | true => exact hx
  | false => exact hy

end Steady

/-- Behind a statement that declares nothing the same is in sight. -/
theorem execute_plain (fuel room : Nat) (sight : Sight) {s : Stmt} (hplain : s.declares = none) :
    Steady sight ((runner fuel).execute sight room s) := by
  cases fuel with
  | zero => rfl
  | succ fuel =>
      cases s with
      | varDecl | funDecl | classDecl => cases hplain
      | expression | block | whileLoop => exact .bind _ fun _ => .pure _
      | print => exact .bind _ fun _ => .bind _ fun _ => .pure _
      | ifThen => exact .bind _ fun _ => .ite (.bind _ fun _ => .pure _) (.pure _)
      | ifElse =>
          exact .bind _ fun _ => .ite (.bind _ fun _ => .pure _) (.bind _ fun _ => .pure _)
      | returnStmt id keyword value =>
          cases value with
          | none => exact .pure _
          | some e => exact .bind _ fun _ => .pure _

/-- Whether a statement that declares nothing stands inside or at the top level is no matter. -/
structure Runner.Level (run : Runner) : Prop where
  execute (sight : Sight) (room : Nat) {s : Stmt} (plain : s.declares = none)
    (proper : ∀ n ∈ s.nodes, n.Proper) :
    finish (run.execute sight.inside room s) = finish (run.execute sight room s)
  loop (sight : Sight) (room : Nat) (condition : Expr) {body : Stmt} (plain : body.declares = none)
    (proper : ∀ n ∈ body.nodes, n.Proper) :
    run.loop sight.inside room condition body = run.loop sight room condition body

namespace Runner.Level

variable {run : Runner}

theorem executeNode (h : run.Level) (sight : Sight) (room : Nat) {s : Stmt}
    (hplain : s.declares = none) (hproper : ∀ n ∈ s.nodes, n.Proper) :
    finish (Reference.executeNode run sight.inside room s)
      = finish (Reference.executeNode run sight room s) := by
  have hself := hproper _ s.mem_nodes
  cases s with
  | varDecl | funDecl | classDecl => cases hplain
  | expression | block => exact finish_after _ fun _ => rfl
  | print => exact finish_after _ fun _ => finish_after _ fun _ => rfl
  | ifThen id condition thenBranch =>
      have hthen := h.execute sight room hself fun n hn => hproper n (by simp [Stmt.nodes, hn])
      refine finish_after _ fun v => ?_
      cases v.isTruthy with
      | true => exact finish_replaced.trans (hthen.trans finish_replaced.symm)
      | false => rfl
  | ifElse id condition thenBranch elseBranch =>
      have hthen := h.execute sight room hself.1 fun n hn => hproper n (by simp [Stmt.nodes, hn])
      have helse := h.execute sight room hself.2 fun n hn => hproper n (by simp [Stmt.nodes, hn])
      refine finish_after _ fun v => ?_
      cases v.isTruthy with
      | true => exact finish_replaced.trans (hthen.trans finish_replaced.symm)
      | false => exact finish_replaced.trans (helse.trans finish_replaced.symm)
  | whileLoop id condition body =>
      have hbody := h.loop sight room condition hself fun n hn => hproper n (by simp [Stmt.nodes, hn])
      show finish (run.loop sight.inside room condition body >>= _) = _
      rw [hbody]
      exact finish_after _ fun _ => rfl
  | returnStmt id keyword value =>
      cases value with
      | none => rfl
      | some e => exact finish_after _ fun _ => rfl

theorem loopNode (h : run.Level) (sight : Sight) (room : Nat) (condition : Expr) {body : Stmt}
    (hplain : body.declares = none) (hproper : ∀ n ∈ body.nodes, n.Proper) :
    Reference.loopNode run sight.inside room condition body
      = Reference.loopNode run sight room condition body := by
  rw [loopNode_eq, loopNode_eq, h.execute sight room hplain hproper,
    h.loop sight room condition hplain hproper]
  rfl

end Runner.Level

theorem runner_level (fuel : Nat) : (runner fuel).Level := by
  induction fuel with
  | zero => exact ⟨fun _ _ _ _ _ => rfl, fun _ _ _ _ _ _ => rfl⟩
  | succ fuel ih => exact ⟨ih.executeNode, ih.loopNode⟩

-- ================================================================ the parts

/-- Statements in sequence, of which the first declares nothing. -/
theorem executeAll_cons {s : Stmt} (hplain : s.declares = none) (fuel room : Nat) (sight : Sight)
    (rest : List Stmt) :
    executeAll (runner fuel) sight room (s :: rest)
      = finish ((runner fuel).execute sight room s)
          >>= andThen (executeAll (runner fuel) sight room rest) := by
  have hsteady := execute_plain fuel room sight hplain
  show (runner fuel).execute sight room s >>= _ = _
  rw [bind_finish, hsteady, bind_assoc, bind_assoc]
  refine bind_congr fun (completion, _) => ?_
  cases completion <;> rfl

theorem executeAll_single (run : Runner) (sight : Sight) (room : Nat) (s : Stmt) :
    executeAll run sight room [s] = finish (run.execute sight room s) := by
  refine bind_congr fun (completion, _) => ?_
  cases completion <;> rfl

theorem finish_execute_block (fuel room : Nat) (sight : Sight) (id : NodeId) (body : List Stmt) :
    finish ((runner (fuel + 1)).execute sight room (.block id body))
      = executeAll (runner fuel) sight.inside room body := by
  show finish (executeAll (runner fuel) sight.inside room body >>= _) = _
  rw [finish_bind]
  exact bind_pure _

theorem finish_execute_while (fuel room : Nat) (sight : Sight) (id : NodeId) (condition : Expr)
    (body : Stmt) :
    finish ((runner (fuel + 1)).execute sight room (.whileLoop id condition body))
      = (runner fuel).loop sight room condition body := by
  show finish ((runner fuel).loop sight room condition body >>= _) = _
  rw [finish_bind]
  exact bind_pure _

variable {condition : Expr} {body whole : Stmt}

/-- The condition that was left out is a constant. -/
theorem evaluate_sooner_clause {given : Option Expr} (h : LoopCondition given condition)
    (names : Names) (fuel room : Nat) :
    Sooner ((runner fuel).evaluate names room condition)
      (clause (runner fuel) names room (.boolean true) given) := by
  cases h with
  | given => exact .same _
  | missing =>
      cases fuel with
      | zero => exact .exhausted _
      | succ fuel => exact .same _

theorem clause_sooner_evaluate {given : Option Expr} (h : LoopCondition given condition)
    (names : Names) (fuel room : Nat) :
    Sooner (clause (runner fuel) names room (.boolean true) given)
      ((runner (fuel + 1)).evaluate names room condition) := by
  cases h with
  | given => exact (runner_sooner_succ fuel).evaluate names room condition
  | missing => exact .same _

theorem turn_eq (run : Runner) (loop : ForLoop) (sight : Sight) (room : Nat) :
    turn run loop sight room
      = finish (run.execute sight room loop.body) >>= andThen (do
          let _ ← clause run sight.names room .nil loop.increment
          pure .normal) := by
  rw [bind_finish]
  refine bind_congr fun (completion, _) => ?_
  cases completion <;> rfl

/-- The block of a body and an increment: neither sees more than what stands around it. -/
theorem finish_execute_stepped (fuel room : Nat) (sight : Sight) (id id' : NodeId) {s : Stmt}
    (e : Expr) (hplain : s.declares = none) (hproper : ∀ n ∈ s.nodes, n.Proper) :
    finish ((runner (fuel + 2)).execute sight room (.block id [s, .expression id' e]))
      = finish ((runner (fuel + 1)).execute sight room s) >>= andThen (do
          let _ ← (runner fuel).evaluate sight.names room e
          pure .normal) := by
  have hlast : executeAll (runner (fuel + 1)) sight.inside room [.expression id' e]
      = (do let _ ← (runner fuel).evaluate sight.names room e; pure .normal) := by
    rw [executeAll_single]
    exact finish_bind ..
  rw [finish_execute_block, executeAll_cons hplain, hlast,
    (runner_level _).execute sight room hplain hproper]

theorem body_sooner_turn (h : LoopBody loop.body loop.increment body)
    (hplain : loop.body.declares = none) (hproper : ∀ n ∈ loop.body.nodes, n.Proper)
    (sight : Sight) (fuel room : Nat) :
    Sooner (finish ((runner fuel).execute sight room body))
      (turn (runner fuel) loop sight room) := by
  obtain ⟨first, condition, increment, s⟩ := loop
  rw [turn_eq]
  cases h with
  | plain => exact (bind_andThen_done _).symm ▸ .same _
  | stepped id id' e =>
      match fuel with
      | 0 | 1 => exact .exhausted _
      | fuel + 2 =>
          rw [finish_execute_stepped fuel room sight id id' e hplain hproper]
          have hfew := runner_sooner (Nat.le_add_right fuel 2)
          exact ((runner_sooner_succ _).execute sight room s).finish.bind
            (andThen_sooner ((hfew.evaluate sight.names room e).bind fun _ => .same _))

theorem turn_sooner_body (h : LoopBody loop.body loop.increment body)
    (hplain : loop.body.declares = none) (hproper : ∀ n ∈ loop.body.nodes, n.Proper)
    (sight : Sight) (fuel room : Nat) :
    Sooner (turn (runner fuel) loop sight room)
      (finish ((runner (fuel + 2)).execute sight room body)) := by
  obtain ⟨first, condition, increment, s⟩ := loop
  rw [turn_eq]
  cases h with
  | plain =>
      have hmore := runner_sooner (Nat.le_add_right fuel 2)
      exact (bind_andThen_done _).symm ▸ (hmore.execute sight room s).finish
  | stepped id id' e =>
      rw [finish_execute_stepped fuel room sight id id' e hplain hproper]
      exact ((runner_sooner_succ _).execute sight room s).finish.bind
        (andThen_sooner (.same _))

-- ================================================================ the loop

/-- One pass, and then the others. -/
theorem passes_succ (loop : ForLoop) (sight : Sight) (room fuel : Nat) :
    passes loop sight room (fuel + 1) = (do
      let holds ← clause (runner fuel) sight.names room (.boolean true) loop.condition
      if holds.isTruthy then
        turn (runner fuel) loop sight room >>= andThen (passes loop sight room fuel)
      else pure .normal) := by
  refine bind_congr fun holds => if_congr .rfl (bind_congr fun completion => ?_) rfl
  cases completion <;> rfl

section

variable (hcondition : LoopCondition loop.condition condition)
  (hbody : LoopBody loop.body loop.increment body) (hplain : loop.body.declares = none)
  (hproper : ∀ n ∈ loop.body.nodes, n.Proper)
include hcondition hbody hplain hproper

theorem loop_sooner_passes (sight : Sight) (fuel room : Nat) :
    Sooner ((runner fuel).loop sight room condition body) (passes loop sight room fuel) := by
  induction fuel with
  | zero => exact .exhausted _
  | succ fuel ih =>
      show Sooner (loopNode (runner fuel) sight room condition body) _
      rw [loopNode_eq, passes_succ]
      exact (evaluate_sooner_clause hcondition _ _ _).bind fun _ =>
        .ite ((body_sooner_turn hbody hplain hproper _ _ _).bind (andThen_sooner ih)) _

theorem passes_sooner_loop (sight : Sight) (fuel room : Nat) :
    Sooner (passes loop sight room fuel) ((runner (fuel + 2)).loop sight room condition body) := by
  induction fuel with
  | zero => exact .exhausted _
  | succ fuel ih =>
      show Sooner _ (loopNode (runner (fuel + 2)) sight room condition body)
      rw [loopNode_eq, passes_succ]
      have hmore := (runner_sooner_succ (fuel + 1)).evaluate sight.names room condition
      exact ((clause_sooner_evaluate hcondition _ _ _).trans hmore).bind fun _ =>
        .ite ((turn_sooner_body hbody hplain hproper _ _ _).bind (andThen_sooner ih)) _

theorem while_sooner_passes (sight : Sight) (id : NodeId) (fuel room : Nat) :
    Sooner (finish ((runner fuel).execute sight room (.whileLoop id condition body)))
      (passes loop sight room fuel) := by
  cases fuel with
  | zero => exact .exhausted _
  | succ fuel =>
      rw [finish_execute_while]
      have hmore := (runner_sooner_succ fuel).loop sight room condition body
      exact hmore.trans (loop_sooner_passes hcondition hbody hplain hproper sight (fuel + 1) room)

theorem passes_sooner_while (sight : Sight) (id : NodeId) (fuel room : Nat) :
    Sooner (passes loop sight room fuel)
      (finish ((runner (fuel + 3)).execute sight room (.whileLoop id condition body))) := by
  rw [finish_execute_while]
  exact passes_sooner_loop hcondition hbody hplain hproper sight fuel room

end

-- ============================================================== the whole

/-- Behind a first clause nothing has returned. -/
theorem execute_first {first : Stmt} (h : first.IsFirst) (fuel room : Nat) (sight : Sight) :
    (runner fuel).execute sight room first
      = (do let (_, behind) ← (runner fuel).execute sight room first; pure (.normal, behind)) := by
  cases fuel with
  | zero => rfl
  | succ fuel =>
      cases first with
      | expression id e => simp only [runner, executeNode, bind_assoc, pure_bind]
      | varDecl id name initializer =>
          cases initializer <;> simp only [runner, executeNode, bind_assoc, pure_bind]
      | _ => exact h.elim

/-- The block of a first clause and a loop. -/
theorem finish_execute_started {first loop : Stmt} (h : first.IsFirst) (fuel room : Nat)
    (sight : Sight) (id : NodeId) :
    finish ((runner (fuel + 1)).execute sight room (.block id [first, loop]))
      = (do
        let (_, behind) ← (runner fuel).execute sight.inside room first
        finish ((runner fuel).execute behind room loop)) := by
  rw [finish_execute_block]
  show (runner fuel).execute sight.inside room first >>= _ = _
  conv_lhs => rw [execute_first h, bind_assoc]
  exact bind_congr fun p => executeAll_single (runner fuel) p.2 room loop

/-- **The tree goes the way of the `for`**, as long as it has steps. -/
theorem execute_sooner_performFor (h : loop.Makes whole) (hproper : ∀ n ∈ whole.nodes, n.Proper)
    (fuel room : Nat) (sight : Sight) :
    Sooner (finish ((runner fuel).execute sight room whole)) (performFor loop sight room fuel) := by
  have hin := h.proper hproper
  obtain ⟨hfirst, hplain, ⟨hcondition, hbody, hwhole⟩⟩ := h
  obtain ⟨first, condition, increment, s⟩ := loop
  cases hwhole with
  | plain =>
      rw [← (runner_level fuel).execute sight room rfl hproper]
      exact while_sooner_passes hcondition hbody hplain hin sight.inside _ fuel room
  | started id first =>
      cases fuel with
      | zero => exact .exhausted _
      | succ fuel =>
          rw [finish_execute_started (hfirst first rfl)]
          have hmore := runner_sooner_succ fuel
          refine (hmore.execute sight.inside room first).bind fun (_, behind) => ?_
          exact (hmore.execute behind room _).finish.trans
            (while_sooner_passes hcondition hbody hplain hin behind _ (fuel + 1) room)

/-- **The `for` goes the way of the tree**, which takes a few steps more. -/
theorem performFor_sooner_execute (h : loop.Makes whole) (hproper : ∀ n ∈ whole.nodes, n.Proper)
    (fuel room : Nat) (sight : Sight) :
    Sooner (performFor loop sight room fuel)
      (finish ((runner (fuel + 4)).execute sight room whole)) := by
  have hin := h.proper hproper
  obtain ⟨hfirst, hplain, ⟨hcondition, hbody, hwhole⟩⟩ := h
  obtain ⟨first, condition, increment, s⟩ := loop
  cases hwhole with
  | plain =>
      rw [← (runner_level (fuel + 4)).execute sight room rfl hproper]
      exact (passes_sooner_while hcondition hbody hplain hin sight.inside _ fuel room).trans
        ((runner_sooner_succ (fuel + 3)).execute sight.inside room _).finish
  | started id first =>
      rw [finish_execute_started (hfirst first rfl)]
      have hmore := runner_sooner (Nat.le_add_right fuel 3)
      refine (hmore.execute sight.inside room first).bind fun (_, behind) => ?_
      exact passes_sooner_while hcondition hbody hplain hin behind _ fuel room

end Lox.Reference
