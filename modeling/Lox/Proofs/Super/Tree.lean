/-
Evaluation of the tree, step by step and as a whole: whatever the bound on the
steps is, a watched runner keeps the frames of `this` and `super` in order on
every node that is known (`follows_watchedRunner`).
-/
import Lox.Proofs.Super.Nodes

namespace Lox

open Lockstep (run_bind_ok run_bind_error)
open Machine

variable {w : Chronicle} {fuel room : Nat} {run : Watch → Runner} {m : Machine}
  {scopes : Scopes} {around : Surroundings} {cls : Option ClassDecl}

namespace Follows

theorem evaluateNode (hr : Follows w fuel run) (hm : m.Framed w) (ha : m.Place w scopes cls)
    {e : Expr} (hk : w.Knows (e.visits around scopes) (Site.within cls e.nodes))
    (hpast : w.past (.expression e) m) :
    Runs w m (fun o => Eval.evaluateNode (run o) room e)
      (Eval.evaluateNode (Eval.runner fuel) room e) fun v k => k.Sane w v := by
  cases e with
  | literal id value token => exact .done hm (sane_ofConstant w m value)
  | var id name => exact Runs.lookUp hm id name
  | assign id name value =>
      refine hr.after hm ha hk.tail fun v k hk' ha' hv => ?_
      refine (Runs.assign hk' ha' hk.head.1 hv).bind fun _ k' _ hk'' hl _ => ?_
      exact .done hk'' (hv.mono hl.toPersists)
  | binary id left operator right =>
      refine hr.after hm ha hk.tail.first fun a k hk' ha' _ => ?_
      exact hr.after hk' ha' hk.tail.second fun b k' hk'' _ _ => Runs.binary hk'' operator a b
  | logical id left operator right =>
      refine hr.after hm ha hk.tail.first fun a k hk' ha' hv => ?_
      cases Eval.settles operator a with
      | true => exact .done hk' hv
      | false => exact hr.evaluate room hk' ha' hk.tail.second
  | unary id operator operand =>
      exact hr.after hm ha hk.tail fun a k hk' _ _ => Runs.unary hk' operator a
  | grouping id inner => exact hr.evaluate room hm ha hk.tail
  | call id callee paren arguments =>
      refine (hr.evaluate room hm ha hk.tail.first).bind fun f k hcallee hk' hlk hf => ?_
      have ha' := ha.later hm hlk
      refine (Runs.checkCallable hk' paren f).bind fun _ k' _ _ _ h => ?_
      subst h
      refine (hr.evaluateAll hk' ha' hk.tail.second).bind fun given j hsupplied hj hl hgiven => ?_
      have hfj := hf.mono hl.toPersists
      refine (Runs.checkArity hj paren f given.length).bind fun _ j' _ _ _ h => ?_
      subst h
      refine (hr.invoke hj hfj (fun c o start hc hmade => ?_) hgiven).anchored paren
      subst hc
      exact .fresh hpast hcallee hsupplied hmade
  | get id object name =>
      refine (hr.evaluate room hm ha hk.tail).bind fun v k hobject hk' _ hv => ?_
      refine Runs.getProperty hk' hv (fun o ho => ?_) name
      subst ho
      exact .property hpast hobject
  | set id object name value =>
      refine hr.after hm ha hk.tail.second fun o k hk' ha' ho => ?_
      cases o with
      | object o =>
          refine hr.after hk' ha' hk.tail.first fun v j hj _ hv => ?_
          exact (Runs.setProperty hj o name hv).bind fun _ j' _ hj' _ hv' => .done hj' hv'
      | _ => exact .halt hk' _
  | this id keyword => exact Runs.lookUp hm id keyword
  | super id keyword method => exact Runs.superMethod hm hpast

/-- Declaring a function, which is made where the declaration stands. -/
theorem declareFunction (hm : m.Framed w) (ha : m.Place w scopes cls) {f : FunDecl}
    (hname : f.name.Free)
    (hk : f.Placed w ⟨.function, around.inClass⟩ (scopes.introduce f.name).1 cls) :
    Runs w m (fun o => Eval.performNode (run o) room (.funDecl f))
      (Eval.performNode (Eval.runner fuel) room (.funDecl f)) fun c k => k.Sane w c.value := by
  let c : Closure := ⟨f, m.scope, false⟩
  let functions := m.heap.functions.push c
  let made : Machine := { m with heap := { m.heap with functions } }
  have hkept : ∀ (i : FunctionId) (d : Closure), m.heap.functions[i]? = some d →
      functions[i]? = some d := fun _ _ => getElem?_push_of_some
  have hmake : m.Later made := (persists_functions hkept).later rfl rfl
  have hmade : made.Framed w := hm.functions hkept
  have hcallable : made.Callable w m.heap.functions.size :=
    ⟨c, _, _, cls, Array.getElem?_push_size,
      (ha.introduce hname).chain.mono hmake.toPersists, hk,
      .plain rfl (ha.lt_next hm) (hmake.ordinary _ (ha.lt_next hm) ha.ordinary)⟩
  have hsane : made.Sane w (.function m.heap.functions.size) := hcallable
  refine .look (a := m.scope) rfl hm ?_
  refine .step (a := m.heap.functions.size) rfl hmade hmake ?_
  exact (Runs.define hmade (ha.later hm hmake) hname hsane).bind fun _ k _ hk' _ _ =>
    .done hk' trivial

/-- A statement whose moment is past; the trace has been written. -/
theorem performNode (hr : Follows w fuel run) (hm : m.Framed w) (ha : m.Place w scopes cls)
    {s : Stmt} (hk : w.Knows (s.visits around scopes) (s.sites cls)) {start : Machine}
    (hpast : w.past (.statement s) start) (hnote : Eval.noteStatement s start = .ok () m) :
    Runs w m (fun o => Eval.performNode (run o) room s)
      (Eval.performNode (Eval.runner fuel) room s) fun c k => k.Sane w c.value := by
  have hproper : Node.Proper (.statement s) := hm.proper hk _ s.mem_nodes
  cases s with
  | expression id e => exact hr.after hm ha hk.tail fun _ k hk' _ _ => .done hk' trivial
  | print id e =>
      refine hr.after hm ha hk.tail fun v k hk' _ _ => ?_
      exact (Runs.print hk' v).bind fun _ j _ hj _ _ => .done hj trivial
  | varDecl id name initializer =>
      cases initializer with
      | none =>
          exact (Runs.define hm ha hproper (sane_nil w m)).bind fun _ k _ hk' _ _ =>
            .done hk' trivial
      | some e =>
          refine hr.after hm (ha.declare hproper) hk.tail fun v k hk' ha' hv => ?_
          exact (Runs.define hk' ha' hproper hv).bind fun _ j _ hj _ _ => .done hj trivial
  | block id body =>
      refine .look (a := m.scope) rfl hm ?_
      exact inNewFrame hm ha.chain (fun _ _ => rfl) (fun _ _ h => by cases h) fun k hk' ha' =>
        hr.executeAll hk' ha' hk.tail
  | ifThen id condition thenBranch =>
      refine hr.after hm ha hk.tail.left fun v k hk' ha' _ => ?_
      cases v.isTruthy with
      | true => exact hr.execute room hk' ha' hk.tail.right
      | false => exact .done hk' trivial
  | ifElse id condition thenBranch elseBranch =>
      have hthen := hm.proper hk.tail.left.right
      have helse := hk.tail.right
      rw [Stmt.scopes_resolve_of_declares_none hthen hproper.1] at helse
      refine hr.after hm ha hk.tail.left.left fun v k hk' ha' _ => ?_
      cases v.isTruthy with
      | true => exact hr.execute room hk' ha' hk.tail.left.right
      | false => exact hr.execute room hk' ha' helse
  | whileLoop id condition body => exact hr.loop room hm ha hk.tail.left hk.tail.right
  | funDecl f => exact declareFunction hm ha hproper.1 ⟨hk.tail, hproper.2⟩
  | returnStmt id keyword value =>
      cases value with
      | none => exact .done hm trivial
      | some e => exact hr.after hm ha hk.tail fun v k hk' _ hv => .done hk' hv
  | classDecl id name superclass methods =>
      have hp : name.Free ∧ ∀ d ∈ methods, ∀ param ∈ d.params, param.Free := hproper
      have hdeclare : Runs w m (fun o => Eval.declareClass (run o) room name superclass methods)
          (Eval.declareClass (Eval.runner fuel) room name superclass methods)
          fun _ _ => True := by
        cases superclass with
        | none =>
            exact declareAlone (S := ⟨id, name, none, methods⟩) hm ha rfl hp.1 hp.2 hk.tail.right
        | some parent =>
            exact declareBelow (S := ⟨id, name, some parent, methods⟩) hr hm ha rfl hp.1 hp.2
              hk.tail.left hk.tail.right hpast hnote
      exact hdeclare.bind fun _ k _ hk' _ _ => .done hk' trivial

theorem executeNode (hr : Follows w fuel run) (hm : m.Framed w) (ha : m.Place w scopes cls)
    {s : Stmt} (hk : w.Knows (s.visits around scopes) (s.sites cls))
    (hpast : w.past (.statement s) m) :
    Runs w m (fun o => Eval.executeNode (run o) room s)
      (Eval.executeNode (Eval.runner fuel) room s) fun c k => k.Sane w c.value := by
  obtain ⟨noted, hnote, hheap, hscope, hdistances⟩ : ∃ noted : Machine,
      Eval.noteStatement s m = .ok () noted ∧ noted.heap = m.heap ∧ noted.scope = m.scope
        ∧ noted.distances = m.distances := by
    unfold Eval.noteStatement
    cases m.tracing with
    | true => exact ⟨_, rfl, rfl, rfl, rfl⟩
    | false => exact ⟨_, rfl, rfl, rfl, rfl⟩
  have hl : m.Later noted := (Persists.of_heap hheap).later hscope hdistances
  have hnoted : noted.Framed w := hm.of_heap hheap hdistances
  exact .step hnote hnoted hl (hr.performNode hnoted (ha.later hm hl) hk hpast hnote)

theorem loopNode (hr : Follows w fuel run) (hm : m.Framed w) (ha : m.Place w scopes cls)
    {condition : Expr} {body : Stmt}
    (hcondition : w.Knows (condition.visits around scopes) (Site.within cls condition.nodes))
    (hbody : w.Knows (body.visits around scopes) (body.sites cls)) :
    Runs w m (fun o => Eval.loopNode (run o) room condition body)
      (Eval.loopNode (Eval.runner fuel) room condition body) fun c k => k.Sane w c.value := by
  refine hr.after hm ha hcondition fun v k hk' ha' _ => ?_
  cases v.isTruthy with
  | false => exact .done hk' trivial
  | true =>
      refine (hr.execute room hk' ha' hbody).bind fun c j _ hj hl hc => ?_
      cases c with
      | normal => exact hr.loop room hj (ha'.later hk' hl) hcondition hbody
      | returned v => exact .done hj hc

/-- One more step into the tree. -/
theorem deepen (hr : Follows w fuel run) :
    Follows w (fuel + 1) fun o => (run o).deepen.watched o.check o.alarm where
  evaluate := by
    intro m room around scopes cls e hm ha hk
    have hmeets : w.Meets (.expression e) m := ⟨hm, around, scopes, cls, ha, hk⟩
    exact .watch hmeets fun hpast => hr.evaluateNode hm ha hk hpast
  execute := by
    intro m room around scopes cls s hm ha hk
    have hmeets : w.Meets (.statement s) m := ⟨hm, around, scopes, cls, ha, hk⟩
    exact .watch hmeets fun hpast => hr.executeNode hm ha hk hpast
  loop _ _ _ _ _ _ hm ha hcondition hbody := hr.loopNode hm ha hcondition hbody

end Follows

/-- Whatever the bound on the steps is. -/
theorem follows_watchedRunner (w : Chronicle) (fuel : Nat) :
    Follows w fuel fun o => Eval.watchedRunner o.check o.alarm fuel := by
  induction fuel with
  | zero =>
      exact {
        evaluate := fun _ _ _ _ _ hm _ _ => .halt hm .exhausted
        execute := fun _ _ _ _ _ hm _ _ => .halt hm .exhausted
        loop := fun _ _ _ _ _ _ hm _ _ _ => .halt hm .exhausted }
  | succ fuel ih => exact ih.deepen

end Lox
