/-
One step into the tree. When the parts of a node are in lockstep, so is the
node: this is the one induction step of the development, with one case for each
kind of node. Where a case needs the resolver, it asks the node's own visit.
-/
import Lox.Proofs.Lockstep.Class

namespace Lox

theorem Expr.mem_visits (e : Expr) (around : Surroundings) (scopes : Scopes) :
    ⟨.expression e, around, scopes, none⟩ ∈ e.visits around scopes := by
  cases e <;> exact List.mem_cons_self

theorem Stmt.mem_visits (s : Stmt) (around : Surroundings) (scopes : Scopes) :
    ⟨.statement s, around, scopes, none⟩ ∈ s.visits around scopes := by
  cases s <;> exact List.mem_cons_self

namespace Lockstep

open Reference (Location Names Run Sight)

variable {visits : List Visit} {still : Bool} {p q : Pair} {scopes : Scopes} {names : Names}
  {around : Surroundings} {room : Nat} {run run' : Runner} {ref : Reference.Runner}

-- ============================================================ expressions

theorem Sound.evaluateNode (hr : Sound visits run run' ref) (hp : p.Ok visits)
    (ha : p.At scopes names) {e : Expr} (hv : ∀ v ∈ e.visits around scopes, v ∈ visits) :
    Sim visits true p (Eval.evaluateNode run room e) (Eval.evaluateNode run' room e)
      (Reference.evaluateNode ref names room e) (Agreed visits) := by
  have hself := hv _ (e.mem_visits around scopes)
  have hsound := hp.sound _ hself
  cases e with
  | literal id value token =>
      cases value <;> exact .done hp ⟨rfl, trivial⟩
  | var id name =>
      exact sim_lookUp hp ha hsound.settled (hsound.not_pending rfl) (hsound.linked _ rfl)
        ⟨_, hself, rfl, fun h => h⟩
  | assign id name value =>
      have hvalue : ∀ v ∈ value.visits around scopes, v ∈ visits := fun v h =>
        hv v (by simp [Expr.visits, h])
      have hname : name.Free := hsound.proper
      refine hr.after hp ha hvalue fun a q hq hl haq hsane => ?_
      have hid : q.machine.distances[id]? = scopes.distance? name.lexeme := by
        rw [hl.distances]
        exact hsound.linked _ rfl
      refine (sim_assign hq haq hname hsane hid ⟨_, hself, rfl, fun h => h⟩).bind ?_
      intro _ _ q' hq' hl' _
      exact .done hq' ⟨rfl, hsane.mono hl'.toGrown⟩
  | binary id left operator right =>
      have hleft : ∀ v ∈ left.visits around scopes, v ∈ visits := fun v h =>
        hv v (by simp [Expr.visits, h])
      have hright : ∀ v ∈ right.visits around scopes, v ∈ visits := fun v h =>
        hv v (by simp [Expr.visits, h])
      have hop : operator.lexeme ∈ binaryOperators := hsound.proper
      refine hr.after hp ha hleft fun a q hq _ haq _ => ?_
      refine hr.after hq haq hright fun b q' hq' _ _ _ => ?_
      exact sim_binary hq' hop a b
  | logical id left operator right =>
      have hleft : ∀ v ∈ left.visits around scopes, v ∈ visits := fun v h =>
        hv v (by simp [Expr.visits, h])
      have hright : ∀ v ∈ right.visits around scopes, v ∈ visits := fun v h =>
        hv v (by simp [Expr.visits, h])
      refine hr.after hp ha hleft fun a q hq _ haq hsane => ?_
      cases hs : Eval.settles operator a with
      | true => exact .done hq ⟨rfl, hsane⟩
      | false => exact hr.evaluate q names room around scopes right hq haq hright
  | unary id operator operand =>
      have hoperand : ∀ v ∈ operand.visits around scopes, v ∈ visits := fun v h =>
        hv v (by simp [Expr.visits, h])
      have hop : operator.lexeme ∈ Lox.unaryOperators := hsound.proper
      refine hr.after hp ha hoperand fun a q hq _ _ _ => ?_
      exact sim_unary hq hop a
  | grouping id inner =>
      have hinner : ∀ v ∈ inner.visits around scopes, v ∈ visits := fun v h =>
        hv v (by simp [Expr.visits, h])
      exact hr.evaluate p names room around scopes inner hp ha hinner
  | call id callee paren arguments =>
      have hcallee : ∀ v ∈ callee.visits around scopes, v ∈ visits := fun v h =>
        hv v (by simp [Expr.visits, h])
      have hargs : ∀ v ∈ Expr.visitsAll around scopes arguments, v ∈ visits := fun v h =>
        hv v (by simp [Expr.visits, h])
      refine hr.after hp ha hcallee fun f q hq _ haq hf => ?_
      refine (sim_checkCallable hq paren f).bind ?_
      intro _ _ q₁ hq₁ hl₁ hcallable
      refine (hr.evaluateAll hq₁ (haq.later hq hl₁) hargs).bind ?_
      intro given _ q₂ hq₂ hl₂ h₂
      obtain ⟨rfl, hgiven⟩ := h₂
      refine (sim_checkArity hq₂ paren f _).bind ?_
      intro _ _ q₃ hq₃ hl₃ harity
      have hf₃ := ((hf.mono hl₁.toGrown).mono hl₂.toGrown).mono hl₃.toGrown
      exact (hr.invoke hq₃ hcallable hf₃ harity fun x hx =>
        (hgiven x hx).mono hl₃.toGrown).anchored paren
  | get id object name =>
      have hobject : ∀ v ∈ object.visits around scopes, v ∈ visits := fun v h =>
        hv v (by simp [Expr.visits, h])
      refine hr.after hp ha hobject fun o q hq _ _ ho => ?_
      exact sim_getProperty hq ho name
  | set id object name value =>
      have hobject : ∀ v ∈ object.visits around scopes, v ∈ visits := fun v h =>
        hv v (by simp [Expr.visits, h])
      have hvalue : ∀ v ∈ value.visits around scopes, v ∈ visits := fun v h =>
        hv v (by simp [Expr.visits, h])
      refine hr.after hp ha hobject fun o q hq _ haq _ => ?_
      cases o with
      | object o =>
          refine hr.after hq haq hvalue fun a q' hq' _ _ hsane => ?_
          refine (sim_setProperty hq' o name hsane).bind ?_
          intro _ _ r hr' hl' _
          exact .done hr' ⟨rfl, hsane.mono hl'.toGrown⟩
      | nil | boolean | number | string | native | function | cls => exact .failed hq nofun
  | this id keyword =>
      have hkeyword : keyword.lexeme = "this" := hsound.proper
      exact sim_this hp ha hsound.settled hkeyword (hsound.linked _ rfl) (hsound.this_bound rfl)
  | super id keyword method =>
      obtain ⟨d, hsuper, hthis⟩ := hsound.super_bound rfl
      exact sim_superMethod hp ha method hsound.settled (hsound.linked _ rfl) hsuper hthis

-- ============================================================= statements

/-- The trace is the machine's own. -/
theorem sim_noteStatement {γ δ : Type} {f g : Unit → Eval γ} {k : Run δ}
    {post : γ → δ → Pair → Prop} (s : Stmt) (hp : p.Ok visits) (ha : p.At scopes names)
    (h : ∀ q : Pair, q.Ok visits → q.At scopes names → Sim visits still q (f ()) (g ()) k post) :
    Sim visits still p (Eval.noteStatement s >>= f) (Eval.noteStatement s >>= g) k post := by
  cases ht : p.machine.tracing with
  | false =>
      refine .look (a := ()) ?_ (h p hp ha)
      unfold Eval.noteStatement
      rw [ht, if_neg nofun]
  | true =>
      let q : Pair := { p with machine := p.machine.note ("Executing: " ++ s.kindName) }
      have hgrown : Grown p q := { Grown.refl p with }
      refine .pass (q := q) (a := ()) ?_ rfl ((Later.refl still p).grow hgrown rfl rfl)
        (h q { hp with } ⟨ha.tied, ha.own⟩)
      unfold Eval.noteStatement
      rw [ht, if_pos rfl]

/-- A statement that declares nothing leaves the place as it is. -/
theorem Sound.plain (hr : Sound visits run run' ref) (hp : p.Ok visits) {sight : Sight}
    (ha : p.At scopes sight.names) (hin : sight.inner = !scopes.isEmpty) {s : Stmt}
    (hv : ∀ v ∈ s.visits around scopes, v ∈ visits) (hdeclares : s.declares = none) :
    Sim visits false p (run.execute room s) (run'.execute room s) (ref.execute sight room s)
      fun c d q => Completed visits c d.1 q ∧ q.At scopes sight.names := by
  refine (hr.execute p sight room around scopes s hp ha hin hv).weaken false id ?_
  rintro c d q - hl ⟨hcompletion, hsane, -, hat⟩
  rw [Stmt.scopes_resolve_of_declares_none (hp.proper hv) hdeclares] at hat
  exact ⟨⟨hcompletion, hsane⟩, ha.resume hl hat⟩

/-- A branch declares nothing, so behind it the sight is what it was before. -/
theorem Sound.branch (hr : Sound visits run run' ref) (hp : p.Ok visits) {sight : Sight}
    (ha : p.At scopes sight.names) (hin : sight.inner = !scopes.isEmpty) {s : Stmt}
    (hv : ∀ v ∈ s.visits around scopes, v ∈ visits) (hdeclares : s.declares = none) :
    Sim visits false p (run.execute room s) (run'.execute room s)
      (do
        let (completion, _) ← ref.execute sight room s
        pure (completion, sight))
      (Executed visits sight.inner scopes) := by
  refine (hr.plain hp ha hin hv hdeclares).adding
    (f := fun d : Completion × Sight => (d.1, sight)) ?_
  intro c d q h
  exact ⟨h.1.1, h.1.2, rfl, h.2⟩

/-- The body of a block stands in a frame of its own, and behind the block the sight is what it was
before. -/
theorem Sound.block (hr : Sound visits run run' ref) (hp : p.Ok visits) {sight : Sight}
    (ha : p.At scopes sight.names) {id : NodeId} {body : List Stmt}
    (hv : ∀ v ∈ Stmt.visitsAll around (.empty :: scopes) body, v ∈ visits) :
    Sim visits false p (Eval.performNode run room (.block id body))
      (Eval.performNode run' room (.block id body))
      (Reference.executeNode ref sight room (.block id body))
      (Executed visits sight.inner scopes) := by
  have hgrown := grown_addFrame p p.machine.scope
  have hat : ((p.addFrame p.machine.scope).enter p.frames.next).At (.empty :: scopes)
      sight.inside.names := hp.at_addFrame ha.tied
  have hinside : Sim visits false ((p.addFrame p.machine.scope).enter p.frames.next)
      (Eval.executeAll run room body) (Eval.executeAll run' room body)
      (Reference.executeAll ref sight.inside room body) (Completed visits) :=
    hr.executeAll ((hp.addFrame _).enter _) hat rfl hv
  have hframe : Sim visits true p
      (Eval.inNewFrame p.machine.scope .empty (Eval.executeAll run room body))
      (Eval.inNewFrame p.machine.scope .empty (Eval.executeAll run' room body))
      (Reference.executeAll ref sight.inside room body) (Completed visits) :=
    hinside.inNewFrame (q := p.addFrame p.machine.scope) rfl rfl
      ((Later.refl true p).grow hgrown rfl rfl) fun _ _ _ h => h
  have hkept : Sim visits false p
      (Eval.inNewFrame p.machine.scope .empty (Eval.executeAll run room body))
      (Eval.inNewFrame p.machine.scope .empty (Eval.executeAll run' room body))
      (Reference.executeAll ref sight.inside room body)
      fun c d q => Completed visits c d q ∧ q.At scopes sight.names :=
    hframe.weaken false nofun fun _ _ _ _ hl h => ⟨h, ha.later hp hl⟩
  refine .look (a := p.machine.scope) rfl ?_
  refine hkept.adding (f := fun c => (c, sight)) ?_
  intro c d q h
  exact ⟨h.1.1, h.1.2, rfl, h.2⟩

/-- A declaration ends when its name has its value, and what is in sight behind it holds the name. -/
theorem sim_settled {home : Option Location} {behind : Sight} {inner : Bool} (hp : p.Ok visits)
    {name : Token} (hname : name.Free) (hd : p.Declared scopes name.lexeme home)
    (hin : behind.inner = inner) (ha : p.At (scopes.declare name).1 behind.names) {value : Value}
    (hv : ∀ q : Pair, Later true p q → q.At (scopes.introduce name).1 behind.names →
      q.Sane visits value) :
    Sim visits still p
      (do
        Eval.define name.lexeme value
        pure .normal)
      (do
        Eval.define name.lexeme value
        pure .normal)
      (do
        Reference.settle home name.lexeme value
        pure (.normal, behind))
      (Executed visits inner (scopes.introduce name).1) := by
  refine (sim_settle hp hname hd ha hv).bind ?_
  rintro _ _ q hq - ⟨-, hat, -⟩
  exact .done hq ⟨rfl, q.sane_nil, hin, hat⟩

/-- Declaring a function. -/
theorem sim_declareFunction (hp : p.Ok visits) {sight : Sight} (ha : p.At scopes sight.names)
    (hin : sight.inner = !scopes.isEmpty) {f : FunDecl} (hname : f.name.Free)
    (hnew : (scopes.declare f.name).2.faults = [])
    (hknown : Known visits ⟨.function, around.inClass⟩ (scopes.introduce f.name).1 f) :
    Sim visits false p (Eval.performNode run room (.funDecl f))
      (Eval.performNode run' room (.funDecl f)) (Reference.executeNode ref sight room (.funDecl f))
      (Executed visits sight.inner (scopes.introduce f.name).1) := by
  refine .before (sim_declare hp ha hin hnew) ?_
  rintro ⟨home, behind⟩ q hq - ⟨hd, hin', haq⟩
  refine .look (a := q.machine.scope) rfl ?_
  let c : Closure := ⟨f, q.machine.scope, false⟩
  let c' : Reference.Closure := ⟨f, behind.names, false⟩
  have hnew : Sim visits false q (Eval.newFunction c) (Eval.newFunction c)
      (Reference.newFunction c') _ := sim_newFunction hq rfl
  refine hnew.bind ?_
  rintro id _ r hr hl ⟨rfl, rfl, rfl⟩
  obtain ⟨hf, hf'⟩ := functions_addFunction hq c c'
  have hgrown := grown_addFunction q c c'
  -- The function is tied to its place only when its own name is bound there.
  have hsane : ∀ t : Pair, Later true (q.addFunction c c') t →
      t.At (scopes.introduce f.name).1 behind.names →
      t.Sane visits (.function q.machine.heap.functions.size) := by
    intro t ht hat
    have htied := hat.tied
    rw [ht.scope] at htied
    exact ⟨c, c', _, _, ht.functions _ _ hf, ht.closures _ _ hf', htied, hknown,
      (absurd · Bool.false_ne_true)⟩
  exact sim_settled hr hname (hd.later hl) hin' ⟨haq.tied.mono hgrown, haq.own⟩ hsane

theorem Sound.performNode (hr : Sound visits run run' ref) (hp : p.Ok visits) {sight : Sight}
    (ha : p.At scopes sight.names) (hin : sight.inner = !scopes.isEmpty) {s : Stmt}
    (hv : ∀ v ∈ s.visits around scopes, v ∈ visits) :
    Sim visits false p (Eval.performNode run room s) (Eval.performNode run' room s)
      (Reference.executeNode ref sight room s)
      (Executed visits sight.inner (s.resolve around scopes).1) := by
  have hsound := hp.sound _ (hv _ (s.mem_visits around scopes))
  have hclear := hsound.clear
  cases s with
  | expression id e =>
      have he : ∀ v ∈ e.visits around scopes, v ∈ visits := fun v h =>
        hv v (by simp [Stmt.visits, h])
      refine hr.after hp ha he fun a q hq _ haq _ => ?_
      exact .done hq ⟨rfl, q.sane_nil, rfl, haq⟩
  | print id e =>
      have he : ∀ v ∈ e.visits around scopes, v ∈ visits := fun v h =>
        hv v (by simp [Stmt.visits, h])
      refine hr.after hp ha he fun a q hq _ haq _ => ?_
      have hprint := (sim_print hq a).weaken false nofun fun _ _ _ _ hl _ => haq.later hq hl
      refine hprint.bind ?_
      intro _ _ q' hq' _ haq'
      exact .done hq' ⟨rfl, q'.sane_nil, rfl, haq'⟩
  | varDecl id name initializer =>
      have hname : name.Free := hsound.proper
      cases initializer with
      | none =>
          refine .before (sim_declare hp ha hin hclear) ?_
          rintro ⟨home, behind⟩ q hq - ⟨hd, hin', haq⟩
          exact sim_settled hq hname hd hin' haq fun q _ _ => q.sane_nil
      | some e =>
          have he : ∀ v ∈ e.visits around (scopes.declare name).1, v ∈ visits := fun v h =>
            hv v (by simp [Stmt.visits, Expr.visitsOptional, h])
          refine .before (sim_declare hp ha hin hclear) ?_
          rintro ⟨home, behind⟩ q hq - ⟨hd, hin', haq⟩
          refine hr.after hq haq he fun a r hr' hl har hsane => ?_
          exact sim_settled hr' hname (hd.later hl) hin' har fun _ hg _ => hsane.mono hg.toGrown
  | block id body =>
      have hbody : ∀ v ∈ Stmt.visitsAll around (.empty :: scopes) body, v ∈ visits := fun v h =>
        hv v (by simp [Stmt.visits, h])
      exact hr.block hp ha hbody
  | ifThen id condition thenBranch =>
      have hcondition : ∀ v ∈ condition.visits around scopes, v ∈ visits := fun v h =>
        hv v (by simp [Stmt.visits, h])
      have hthen : ∀ v ∈ thenBranch.visits around scopes, v ∈ visits := fun v h =>
        hv v (by simp [Stmt.visits, h])
      have hdeclares : thenBranch.declares = none := hsound.proper
      rw [Stmt.scopes_resolve around scopes _ (hp.proper hv)]
      refine hr.after hp ha hcondition fun a q hq _ haq _ => ?_
      cases a.isTruthy with
      | true => exact hr.branch hq haq hin hthen hdeclares
      | false => exact .done hq ⟨rfl, q.sane_nil, rfl, haq⟩
  | ifElse id condition thenBranch elseBranch =>
      have hcondition : ∀ v ∈ condition.visits around scopes, v ∈ visits := fun v h =>
        hv v (by simp [Stmt.visits, h])
      have hthen : ∀ v ∈ thenBranch.visits around scopes, v ∈ visits := fun v h =>
        hv v (by simp [Stmt.visits, h])
      have hdeclares : thenBranch.declares = none ∧ elseBranch.declares = none := hsound.proper
      have hbetween : (thenBranch.resolve around scopes).1 = scopes :=
        Stmt.scopes_resolve_of_declares_none (hp.proper hthen) hdeclares.1
      have helse : ∀ v ∈ elseBranch.visits around scopes, v ∈ visits := fun v h =>
        hv v (by simp [Stmt.visits, hbetween, h])
      rw [Stmt.scopes_resolve around scopes _ (hp.proper hv)]
      refine hr.after hp ha hcondition fun a q hq _ haq _ => ?_
      cases a.isTruthy with
      | true => exact hr.branch hq haq hin hthen hdeclares.1
      | false => exact hr.branch hq haq hin helse hdeclares.2
  | whileLoop id condition body =>
      have hcondition : ∀ v ∈ condition.visits around scopes, v ∈ visits := fun v h =>
        hv v (by simp [Stmt.visits, h])
      have hbody : ∀ v ∈ body.visits around scopes, v ∈ visits := fun v h =>
        hv v (by simp [Stmt.visits, h])
      rw [Stmt.scopes_resolve around scopes _ (hp.proper hv)]
      refine (hr.loop p sight room around scopes condition body hp ha hin hsound.proper hcondition
        hbody).adding (f := fun c => (c, sight)) ?_
      intro c d q h
      exact ⟨h.1.1, h.1.2, rfl, h.2⟩
  | funDecl f =>
      have hproper : f.name.Free ∧ ∀ param ∈ f.params, param.Free := hsound.proper
      have hfaults := List.append_eq_nil_iff.1 hclear
      have hknown : Known visits ⟨.function, around.inClass⟩ (scopes.introduce f.name).1 f :=
        ⟨fun v h => hv v (by simp [Stmt.visits, h]), hfaults.2, hproper.2⟩
      exact sim_declareFunction hp ha hin hproper.1 hfaults.1 hknown
  | returnStmt id keyword value =>
      cases value with
      | none => exact .done hp ⟨rfl, p.sane_nil, rfl, ha⟩
      | some e =>
          have he : ∀ v ∈ e.visits around scopes, v ∈ visits := fun v h =>
            hv v (by simp [Stmt.visits, Expr.visitsOptional, h])
          refine hr.after hp ha he fun a q hq _ haq hsane => ?_
          exact .done hq ⟨rfl, hsane, rfl, haq⟩
  | classDecl id name superclass methods =>
      have hproper : name.Free ∧ ∀ f ∈ methods, ∀ param ∈ f.params, param.Free := hsound.proper
      have hfaults := List.append_eq_nil_iff.1 hclear
      have hnames := List.append_eq_nil_iff.1 hfaults.1
      have hknown : KnownAll visits (.ofSuperclass superclass)
          (Scopes.ofMethods (scopes.introduce name).1 superclass) methods :=
        ⟨fun v h => hv v (by simp [Stmt.visits, h]), hfaults.2, hproper.2⟩
      have hsuper : ∀ v ∈ NameRef.visits around (scopes.introduce name).1 name superclass,
          v ∈ visits := fun v h => hv v (by simp [Stmt.visits, h])
      rw [Stmt.scopes_resolve around scopes _ (hp.proper hv)]
      refine (hr.declareClass hp ha hin hsound.settled hproper.1 hnames.1 hnames.2 hsuper
        hknown).bind ?_
      intro _ behind q hq _ h
      exact .done hq ⟨rfl, q.sane_nil, h.1, h.2⟩

end Lockstep

end Lox
