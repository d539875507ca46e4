/-
Calls, given that the parts of a body can be run. A call opens a frame for the
parameters inside the frame of the closure, wherever the caller is; that is the
place at which the resolver visited the body, so the body is in lockstep from
its first statement on.
-/
import Lox.Proofs.Lockstep.Object

namespace Lox.Lockstep

open Reference (Location Names Run Sight)

variable {visits : List Visit} {still : Bool} {p q : Pair} {scopes : Scopes} {names : Names}
  {around : Surroundings} {room : Nat}

-- ============================================================ sound runners

/-- The two sides end a statement alike and stand at one place behind it. -/
def Executed (visits : List Visit) (inner : Bool) (behind : Scopes) (c : Completion)
    (d : Completion × Sight) (q : Pair) : Prop :=
  d.1 = c ∧ q.Sane visits c.value ∧ d.2.inner = inner ∧ q.At behind d.2.names

/-- The two sides end a body alike. -/
def Completed (visits : List Visit) (c d : Completion) (q : Pair) : Prop :=
  d = c ∧ q.Sane visits c.value

/-- A watched runner, a plain one and one of the reference that go together on every visited node, at
the place of the visit. -/
structure Sound (visits : List Visit) (run run' : Runner) (ref : Reference.Runner) : Prop where
  evaluate : ∀ (p : Pair) (names : Names) (room : Nat) (around : Surroundings) (scopes : Scopes)
    (e : Expr), p.Ok visits → p.At scopes names → (∀ v ∈ e.visits around scopes, v ∈ visits) →
    Sim visits true p (run.evaluate room e) (run'.evaluate room e) (ref.evaluate names room e)
      (Agreed visits)
  /-- The name of a superclass is resolved with the class in scope and evaluated without. -/
  name : ∀ (p : Pair) (names : Names) (room : Nat) (around : Surroundings) (scopes : Scopes)
    (name : Token) (parent : NameRef), p.Ok visits → p.At scopes names → scopes.Settled →
    parent.name.lexeme ≠ name.lexeme →
    ⟨.expression parent.asExpr, around, (scopes.introduce name).1, some name.lexeme⟩ ∈ visits →
    Sim visits true p (run.evaluate room parent.asExpr) (run'.evaluate room parent.asExpr)
      (ref.evaluate names room parent.asExpr) (Agreed visits)
  execute : ∀ (p : Pair) (sight : Sight) (room : Nat) (around : Surroundings) (scopes : Scopes)
    (s : Stmt), p.Ok visits → p.At scopes sight.names → sight.inner = !scopes.isEmpty →
    (∀ v ∈ s.visits around scopes, v ∈ visits) →
    Sim visits false p (run.execute room s) (run'.execute room s) (ref.execute sight room s)
      (Executed visits sight.inner (s.resolve around scopes).1)
  loop : ∀ (p : Pair) (sight : Sight) (room : Nat) (around : Surroundings) (scopes : Scopes)
    (condition : Expr) (body : Stmt), p.Ok visits → p.At scopes sight.names →
    sight.inner = !scopes.isEmpty → body.declares = none →
    (∀ v ∈ condition.visits around scopes, v ∈ visits) →
    (∀ v ∈ body.visits around scopes, v ∈ visits) →
    Sim visits false p (run.loop room condition body) (run'.loop room condition body)
      (ref.loop sight room condition body)
      fun c d q => Completed visits c d q ∧ q.At scopes sight.names

/-- The nodes of a statement that was visited are proper. -/
theorem Pair.Ok.proper (hp : p.Ok visits) {s : Stmt}
    (h : ∀ v ∈ s.visits around scopes, v ∈ visits) : ∀ n ∈ s.nodes, n.Proper := by
  intro n hn
  rw [← s.map_node_visits around scopes] at hn
  obtain ⟨v, hv, rfl⟩ := List.mem_map.1 hn
  exact (hp.sound v (h v hv)).proper

theorem Scopes.isEmpty_behind (scopes : Scopes) (s : Stmt) :
    (scopes.behind s).isEmpty = scopes.isEmpty := by
  unfold Scopes.behind
  cases s.declares with
  | none => rfl
  | some name => cases scopes <;> rfl

theorem Scopes.isEmpty_introduceAll (scopes : Scopes) (params : List Token) :
    (scopes.introduceAll params).1.isEmpty = scopes.isEmpty := by
  induction params generalizing scopes with
  | nil => rfl
  | cons param rest ih =>
      show ((scopes.introduce param).1.introduceAll rest).1.isEmpty = scopes.isEmpty
      rw [ih]
      cases scopes <;> rfl

/-- The sight goes on with the place. -/
theorem Pair.Ok.inner_resolve (hp : p.Ok visits) {s : Stmt}
    (h : ∀ v ∈ s.visits around scopes, v ∈ visits) :
    (s.resolve around scopes).1.isEmpty = scopes.isEmpty := by
  rw [s.scopes_resolve around scopes (hp.proper h), Scopes.isEmpty_behind]

-- =================================================================== lists

section

variable {run run' : Runner} {ref : Reference.Runner}

/-- Behind an expression the place is the same, whatever follows. -/
theorem Sound.after (hr : Sound visits run run' ref) (hp : p.Ok visits) (ha : p.At scopes names)
    {e : Expr} (hv : ∀ v ∈ e.visits around scopes, v ∈ visits) {γ δ : Type}
    {f g : Value → Eval γ} {k : Value → Run δ} {post : γ → δ → Pair → Prop}
    (h : ∀ a q, q.Ok visits → Later still p q → q.At scopes names → q.Sane visits a →
      Sim visits still q (f a) (g a) (k a) post) :
    Sim visits still p (run.evaluate room e >>= f) (run'.evaluate room e >>= g)
      (ref.evaluate names room e >>= k) post := by
  have hat : Sim visits still p (run.evaluate room e) (run'.evaluate room e)
      (ref.evaluate names room e) fun a b q => Agreed visits a b q ∧ q.At scopes names :=
    (hr.evaluate p names room around scopes e hp ha hv).weaken still (fun _ => rfl)
      fun _ _ _ _ hl hab => ⟨hab, ha.later hp hl⟩
  refine hat.bind ?_
  rintro _ a q hq hl ⟨⟨rfl, hsane⟩, haq⟩
  exact h a q hq hl haq hsane

/-- The values of arguments. -/
theorem Sound.evaluateAll (hr : Sound visits run run' ref) (hp : p.Ok visits)
    (ha : p.At scopes names) {es : List Expr}
    (hv : ∀ v ∈ Expr.visitsAll around scopes es, v ∈ visits) :
    Sim visits true p (Eval.evaluateAll run room es) (Eval.evaluateAll run' room es)
      (Reference.evaluateAll ref names room es)
      fun xs ys q => ys = xs ∧ ∀ x ∈ xs, q.Sane visits x := by
  induction es generalizing p with
  | nil => exact .done hp ⟨rfl, fun x hx => by cases hx⟩
  | cons e rest ih =>
      have he : ∀ v ∈ e.visits around scopes, v ∈ visits := fun v h =>
        hv v (List.mem_append_left _ h)
      refine hr.after hp ha he fun x q hq _ haq hx => ?_
      refine (ih hq haq fun v h => hv v (List.mem_append_right _ h)).bind ?_
      intro xs _ q' hq' hl' h
      obtain ⟨rfl, hxs⟩ := h
      refine .done hq' ⟨rfl, fun y hy => ?_⟩
      rcases List.mem_cons.1 hy with rfl | hy
      · exact hx.mono hl'.toGrown
      · exact hxs y hy

/-- The statements of a body. -/
theorem Sound.executeAll (hr : Sound visits run run' ref) (hp : p.Ok visits) {sight : Sight}
    (ha : p.At scopes sight.names) (hin : sight.inner = !scopes.isEmpty) {body : List Stmt}
    (hv : ∀ v ∈ Stmt.visitsAll around scopes body, v ∈ visits) :
    Sim visits false p (Eval.executeAll run room body) (Eval.executeAll run' room body)
      (Reference.executeAll ref sight room body) (Completed visits) := by
  induction body generalizing p sight scopes with
  | nil => exact .done hp ⟨rfl, trivial⟩
  | cons s rest ih =>
      have hs : ∀ v ∈ s.visits around scopes, v ∈ visits := fun v h =>
        hv v (List.mem_append_left _ h)
      refine (hr.execute p sight room around scopes s hp ha hin hs).bind ?_
      rintro _ ⟨c, sight'⟩ q hq hl ⟨rfl, hc, hin', ha'⟩
      cases c with
      | normal =>
          have hin'' : sight'.inner = !(s.resolve around scopes).1.isEmpty := by
            rw [hp.inner_resolve hs, ← hin]
            exact hin'
          exact ih hq ha' hin'' fun v h => hv v (List.mem_append_right _ h)
      | returned v => exact .done hq ⟨rfl, hc⟩

-- ================================================================== calling

/-- Parameters get their homes one by one; the machine binds them all with the frame. -/
theorem exists_bindParameters {o : Pair} (outer : FrameId) {scope : Scope}
    (params : List Token) (arguments : List Value) (b : Bindings Value) (hp : p.Ok visits)
    (hm : p.machine = { o.machine with heap := o.machine.heap.addFrame outer b })
    (hl : Later true o p) (ha : (p.enter o.frames.next).At (scope :: scopes) names)
    (hlength : params.length = arguments.length)
    (hdistinct : (Scopes.introduceAll (scope :: scopes) params).2.faults = [])
    (hfree : ∀ param ∈ params, param.Free) (hsane : ∀ x ∈ arguments, p.Sane visits x) :
    ∃ (q : Pair) (names' : Names),
      Reference.bindParameters params arguments names p.state = .ok names' q.state
        ∧ q.machine = { o.machine with
            heap := o.machine.heap.addFrame outer (Eval.bindParameters params arguments b) }
        ∧ q.Ok visits ∧ Later true o q
        ∧ (q.enter o.frames.next).At (Scopes.introduceAll (scope :: scopes) params).1 names' := by
  induction params generalizing p arguments b scope names with
  | nil =>
      cases arguments with
      | nil => exact ⟨p, names, rfl, hm, hp, hl, ha⟩
      | cons => cases hlength
  | cons param rest ih =>
      cases arguments with
      | nil => cases hlength
      | cons x xs =>
          have hfirst : (Scopes.declare (scope :: scopes) param).2.faults = [] :=
            (List.append_eq_nil_iff.1 hdistinct).1
          have hb := Scopes.binds_of_faults_declare hfirst
          have hframe : o.frames.next < p.frames.next := hp.lt_next ha.tied
          have hnew : p.homes o.frames.next param.lexeme = none := ha.homes_eq_none hb
          have hlocal : o.frames.next ≠ globalFrame := Tied.ne_global ha.tied
          have hgrown := grown_introduce hframe hnew x
          have hnext := ih xs (b.set param.lexeme x)
            (p := p.introduce o.frames.next param.lexeme x)
            (hp.introduce hframe hlocal hnew (hsane x List.mem_cons_self)
              fun he => absurd he (hfree param List.mem_cons_self).ne_super)
            (by
              show { p.machine with
                heap := p.machine.heap.define o.frames.next param.lexeme x } = _
              rw [hm]
              show { o.machine with heap := { o.machine.heap with
                scopes := (o.frames.grow (some outer) b).define o.frames.next param.lexeme x } } = _
              rw [Forest.define_grow]
              rfl)
            (hl.introduce hnew hframe (Nat.le_refl _) x)
            (ha.introduce hp hb x)
            (Nat.succ.inj hlength) (List.append_eq_nil_iff.1 hdistinct).2
            (fun other h => hfree other (List.mem_cons_of_mem _ h))
            fun y h => (hsane y (List.mem_cons_of_mem _ h)).mono hgrown
          obtain ⟨q, names', hbind, hrest⟩ := hnext
          refine ⟨q, names', ?_, hrest⟩
          rw [Pair.state_introduce] at hbind
          exact hbind

variable {run run' : Runner} {ref : Reference.Runner}

/-- The body of a function in a frame with its parameters. -/
theorem Sound.body (hr : Sound visits run run' ref) (hp : p.Ok visits) {outer : FrameId}
    {c' : Reference.Closure} (ht : Tied p.homes p.frames outer scopes c'.names)
    (hk : Known visits around scopes c'.declaration) {arguments : List Value}
    (hlength : c'.declaration.params.length = arguments.length)
    (hsane : ∀ x ∈ arguments, p.Sane visits x) :
    Sim visits true p
      (Eval.inNewFrame outer (Eval.bindParameters c'.declaration.params arguments .empty)
        (Eval.executeAll run room c'.declaration.body))
      (Eval.inNewFrame outer (Eval.bindParameters c'.declaration.params arguments .empty)
        (Eval.executeAll run' room c'.declaration.body))
      (Reference.runBody ref room c' arguments) (Completed visits) := by
  have hgrown := grown_addFrame p outer
  obtain ⟨q, names', hbind, hm, hq, hl, ha⟩ := exists_bindParameters (o := p) outer
    c'.declaration.params arguments .empty (hp.addFrame outer) rfl
    ((Later.refl true p).grow hgrown rfl rfl) (hp.at_addFrame ht) hlength hk.distinct hk.free
    fun x hx => (hsane x hx).mono hgrown
  have hvisited : ∀ v ∈ Stmt.visitsAll around
      (Scopes.introduceAll (.empty :: scopes) c'.declaration.params).1 c'.declaration.body,
      v ∈ visits := by
    have h := hk.visited
    cases hd : c'.declaration with
    | mk id name params body =>
        rw [hd] at h
        exact h
  have hinner : true = !(Scopes.introduceAll (.empty :: scopes) c'.declaration.params).1.isEmpty := by
    rw [Scopes.isEmpty_introduceAll]
    rfl
  have hbody : Sim visits false (q.enter p.frames.next)
      (Eval.executeAll run room c'.declaration.body)
      (Eval.executeAll run' room c'.declaration.body)
      (Reference.executeAll ref ⟨true, names'⟩ room c'.declaration.body) (Completed visits) :=
    hr.executeAll (hq.enter _) ha hinner hvisited
  refine hbody.inNewFrame hm ?_ hl ?_
  · unfold Reference.runBody
    exact run_bind_ok hbind
  · intro c d r h
    exact h

theorem declaration_eq (hp : p.Ok visits) {f : FunctionId} {c : Closure} {c' : Reference.Closure}
    (hc : p.machine.heap.functions[f]? = some c) (hc' : p.state.functions[f]? = some c') :
    c.declaration = c'.declaration ∧ c.isInitializer = c'.isInitializer := by
  have h := congrArg (·[f]?) hp.functions
  simp only [Array.getElem?_map, hc, hc', Option.map_some, Option.some.injEq] at h
  exact ⟨congrArg Closure.declaration h, congrArg Closure.isInitializer h⟩

/-- A call of a function with as many arguments as it takes. -/
theorem Sound.callFunction (hr : Sound visits run run' ref) (hp : p.Ok visits) {f : FunctionId}
    (hf : p.Callable visits f) {arguments : List Value}
    (harity : p.machine.heap.functions[f]?.map (fun c => c.declaration.arity)
      = some arguments.length)
    (hsane : ∀ x ∈ arguments, p.Sane visits x) :
    Sim visits true p (Eval.callFunction run room f arguments)
      (Eval.callFunction run' room f arguments) (Reference.callFunction ref room f arguments)
      (Agreed visits) := by
  cases room with
  | zero => exact .halt rfl rfl hp ⟨nofun, nofun⟩
  | succ room =>
      obtain ⟨c, c', around, scopes, hc, hc', ht, hk, hinit⟩ := hf
      obtain ⟨hdecl, hinit'⟩ := declaration_eq hp hc hc'
      have hlength : c'.declaration.params.length = arguments.length := by
        rw [hc, Option.map_some, Option.some.injEq, hdecl] at harity
        exact harity
      rw [hdecl] at hk
      refine .step (q := p) (closure_eq hc) (reference_closure_eq hc') (.refl true p) ?_
      rw [hdecl, hinit']
      refine (hr.body hp ht hk hlength hsane).bind ?_
      rintro completion _ q hq hl ⟨rfl, hv⟩
      cases hi : c'.isInitializer with
      | false => exact .done hq ⟨rfl, hv⟩
      | true =>
          -- The frame of `this` is the closure's own, so its value is there behind the call.
          obtain ⟨outer, rfl⟩ := hinit (hinit'.trans hi)
          have hthis : Scopes.distance? (.holding "this" :: outer) "this" = some 0 := rfl
          have hready : ∀ bound, (Scope.holding "this" :: outer : Scopes)[0]? = some bound →
              bound.binds "this" = true → bound.find? "this" = some true := by
            rintro bound hb -
            cases hb
            rfl
          obtain ⟨value, holder, -, hvalue, hget, hrecall⟩ :=
            exists_value hq (ht.mono hl.toGrown) hthis hready
          exact .act hget hrecall hq (.refl true q) ⟨rfl, hq.sane _ _ _ hvalue⟩

/-- A call of a class, which takes what its initializer takes. -/
theorem Sound.construct (hr : Sound visits run run' ref) (hp : p.Ok visits) {c : ClassId}
    {arguments : List Value}
    (harity : p.machine.heap.arity? (.cls c) = some arguments.length)
    (hsane : ∀ x ∈ arguments, p.Sane visits x) :
    Sim visits true p (Eval.construct run room c arguments)
      (Eval.construct run' room c arguments) (Reference.construct ref room c arguments)
      (Agreed visits) := by
  let q := p.addObject ⟨c, .empty⟩
  have hq : q.Ok visits := hp.addObject c
  have hgrown : Grown p q := grown_addObject p _
  have hin : p.machine.heap.objects.size < q.machine.heap.objects.size := by
    show p.machine.heap.objects.size < (p.machine.heap.objects.push _).size
    rw [Array.size_push]
    exact Nat.lt_succ_self _
  have hfind : q.machine.heap.findMethod? c initializerName
      = p.machine.heap.findMethod? c initializerName := by
    have hclasses : q.machine.heap.classes = p.machine.heap.classes := rfl
    exact Heap.findMethod?_of_classes hclasses c initializerName
  unfold Eval.construct Reference.construct
  refine .step (q := q) (a := p.machine.heap.objects.size) (b := p.state.objects.size) rfl rfl
    ((Later.refl true p).grow hgrown rfl rfl) ?_
  rw [← hp.objects]
  refine .step (q := q) (a := q.machine.heap) (b := q.state.heap) rfl rfl (.refl true q) ?_
  rw [hq.findMethod?]
  cases hf : q.machine.heap.findMethod? c initializerName with
  | none => exact .done hq ⟨rfl, hin⟩
  | some method =>
      have hobject : q.Sane visits (.object p.machine.heap.objects.size) := hin
      refine (sim_bindMethod hq (hq.method_of_findMethod? hf) hobject).bind ?_
      rintro _ f q' hq' hl ⟨rfl, hcallable, hdecl⟩
      have hlength : q'.machine.heap.functions[f]?.map (fun c => c.declaration.arity)
          = some arguments.length := by
        have hmap := congrArg (Option.map FunDecl.arity) hdecl
        rw [Option.map_map, Option.map_map] at hmap
        refine hmap.trans ?_
        obtain ⟨d, _, _, _, hd, -⟩ := hq.method_of_findMethod? hf
        have hd' : p.machine.heap.functions[method]? = some d := hd
        have hf' : p.machine.heap.findMethod? c initializerName = some method := hfind.symm.trans hf
        rw [hd]
        simp only [Heap.arity?, hf', Option.bind_some, hd', Option.elim_some] at harity
        exact harity
      refine (hr.callFunction hq' hcallable hlength fun x hx =>
        ((hsane x hx).mono hgrown).mono hl.toGrown).bind ?_
      rintro _ _ r hr' hl' -
      exact .done hr' ⟨rfl, (Pair.Sane.mono hl.toGrown hobject).mono hl'.toGrown⟩

/-- A call of whatever can be called. -/
theorem Sound.invoke (hr : Sound visits run run' ref) (hp : p.Ok visits) {callee : Value}
    (hc : Applicable callee) (hv : p.Sane visits callee) {arguments : List Value}
    (harity : p.machine.heap.arity? callee = some arguments.length)
    (hsane : ∀ x ∈ arguments, p.Sane visits x) :
    Sim visits true p (Eval.invoke run room callee arguments)
      (Eval.invoke run' room callee arguments) (Reference.invoke ref room callee arguments)
      (Agreed visits) := by
  cases callee with
  | native f => exact sim_callNative hp f arguments
  | function f => exact hr.callFunction hp hv harity hsane
  | cls c => exact hr.construct hp harity hsane
  | nil | boolean | number | string | object => exact hc.elim

end

end Lox.Lockstep
