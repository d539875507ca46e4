/-
Methods on both sides. A method that is taken from an object gets a scope that
holds `this`: a frame of its own on the machine, a location of its own in the
reference. Methods of a class are made without it, so they cannot be called
before they are bound, and every way to a call goes through binding.
-/
import Lox.Proofs.Lockstep.Operator

namespace Lox

theorem Scopes.introduce_empty (scopes : Scopes) (name : Token) :
    (Scopes.introduce (.empty :: scopes) name).1 = .holding name.lexeme :: scopes := by
  rw [Scopes.introduce_cons]
  simp [Scope.holding, Bindings.empty, Bindings.set, Bindings.setIn]

namespace Lockstep

open Reference (Location Names Run Sight)

variable {visits : List Visit} {still : Bool} {p q : Pair} {scopes : Scopes} {names : Names}
  {outer : FrameId}

/-- A new frame that holds one name. -/
def Pair.hold (p : Pair) (outer : FrameId) (name : String) (value : Value) : Pair :=
  (p.addFrame outer).introduce p.frames.next name value

theorem Pair.machine_hold (p : Pair) (outer : FrameId) (name : String) (value : Value) :
    (p.hold outer name value).machine = { p.machine with
      heap := p.machine.heap.addFrame outer (Bindings.empty.set name value) } := by
  show { p.machine with heap := { p.machine.heap with
    scopes := (p.frames.grow (some outer) .empty).define p.frames.next name value } } = _
  rw [Forest.define_grow]
  rfl

theorem Pair.state_hold (p : Pair) (outer : FrameId) (name : String) (value : Value) :
    (p.hold outer name value).state = { p.state with store := p.state.store.push value } :=
  (p.addFrame outer).state_introduce p.frames.next name value

theorem lt_next_addFrame (p : Pair) (outer : FrameId) :
    p.frames.next < (p.addFrame outer).frames.next := by
  show p.frames.next < (p.frames.grow (some outer) .empty).next
  rw [Forest.next_grow]
  exact Nat.lt_succ_self _

theorem Pair.Ok.hold (hp : p.Ok visits) (outer : FrameId) (name : String) {value : Value}
    (hv : p.Sane visits value) (hparent : name = "super" → ∃ c, value = .cls c) :
    (p.hold outer name value).Ok visits :=
  (hp.addFrame outer).introduce (lt_next_addFrame p outer)
    (Nat.ne_of_gt (Nat.lt_of_le_of_lt (Nat.zero_le _) hp.rooted)) (hp.homes_next name)
    (hv.mono (grown_addFrame p outer)) hparent

theorem Pair.Ok.later_hold (hp : p.Ok visits) (name : String) (value : Value) :
    Later true p (p.hold outer name value) :=
  ((Later.refl true p).grow (grown_addFrame p outer) rfl rfl).introduce (hp.homes_next name)
    (lt_next_addFrame p outer) (Nat.le_refl _) value

/-- The place inside a frame that holds one name. -/
theorem Pair.Ok.at_hold (hp : p.Ok visits) (ht : Tied p.homes p.frames outer scopes names)
    (name : Token) (value : Value) :
    ((p.hold outer name.lexeme value).enter p.frames.next).At (.holding name.lexeme :: scopes)
      (names.set name.lexeme p.state.store.size) := by
  rw [← Scopes.introduce_empty]
  exact Pair.At.introduce (hp.addFrame outer) (hp.at_addFrame ht) rfl value

-- ================================================================= methods

/-- The token that a reserved word has when nobody wrote it. -/
def reserved (word : String) : Token := ⟨.keyword, word, .nowhere⟩

theorem closure_eq {m : Machine} {f : FunctionId} {c : Closure}
    (h : m.heap.functions[f]? = some c) : Eval.closure f m = .ok c m := by
  unfold Eval.closure
  rw [run_bind_ok (show Eval.heap m = .ok m.heap m from rfl), h]
  rfl

theorem reference_closure_eq {r : Reference.State} {f : FunctionId} {c : Reference.Closure}
    (h : r.functions[f]? = some c) : Reference.closure f r = .ok c r := by
  unfold Reference.closure
  rw [h]

/-- Both sides number a new function alike. -/
theorem sim_newFunction (hp : p.Ok visits) {c : Closure} {c' : Reference.Closure}
    (hc : c.bare = c'.bare) :
    Sim visits still p (Eval.newFunction c) (Eval.newFunction c) (Reference.newFunction c')
      fun f g q => g = f ∧ q = p.addFunction c c' ∧ f = p.machine.heap.functions.size := by
  refine .act (q := p.addFunction c c') (a := p.machine.heap.functions.size)
    (b := p.state.functions.size) rfl rfl (hp.addFunction hc)
    ((Later.refl still p).grow (grown_addFunction p c c') rfl rfl) ⟨?_, rfl, rfl⟩
  exact hp.size_functions.symm

/-- A new function is the last one on both sides. -/
theorem functions_addFunction (hp : p.Ok visits) (c : Closure) (c' : Reference.Closure) :
    (p.addFunction c c').machine.heap.functions[p.machine.heap.functions.size]? = some c
      ∧ (p.addFunction c c').state.functions[p.machine.heap.functions.size]? = some c' := by
  constructor
  · exact Array.getElem?_push_size
  · rw [hp.size_functions]
    exact Array.getElem?_push_size

/-- A bound method can be called, and has the declaration of the method. -/
theorem sim_bindMethod (hp : p.Ok visits) {method : FunctionId} (hm : p.Method visits method)
    {receiver : Value} (hv : p.Sane visits receiver) :
    Sim visits true p (Eval.bindMethod method receiver) (Eval.bindMethod method receiver)
      (Reference.bindMethod method receiver) fun f g q => g = f ∧ q.Callable visits f
        ∧ q.machine.heap.functions[f]?.map Closure.declaration
          = p.machine.heap.functions[method]?.map Closure.declaration := by
  obtain ⟨c, c', around, scopes, hc, hc', ht, hk, -⟩ := hm
  have hbare : c.bare = c'.bare := by
    have h := congrArg (·[method]?) hp.functions
    simp only [Array.getElem?_map, hc, hc', Option.map_some, Option.some.injEq] at h
    exact h
  have hok := hp.hold c.scope "this" hv nofun
  have htied : Tied (p.hold c.scope "this" receiver).homes (p.hold c.scope "this" receiver).frames
      p.frames.next (.holding "this" :: scopes) (c'.names.set "this" p.state.store.size) :=
    (hp.at_hold ht (reserved "this") receiver).tied
  unfold Eval.bindMethod Reference.bindMethod
  refine .step (q := p) (closure_eq hc) (reference_closure_eq hc') (.refl true p) ?_
  refine .step (q := p.hold c.scope "this" receiver) (a := p.frames.next)
    (b := p.state.store.size) ?_ ?_ (hp.later_hold "this" receiver) ?_
  · rw [Pair.machine_hold]
    rfl
  · rw [Pair.state_hold]
    rfl
  refine (sim_newFunction hok ?_).weaken true id ?_
  · exact hbare
  rintro f _ q hq - ⟨rfl, rfl, rfl⟩
  obtain ⟨hf, hf'⟩ := functions_addFunction hok { c with scope := p.frames.next }
    { c' with names := c'.names.set "this" p.state.store.size }
  refine ⟨rfl, ⟨_, _, around, _, hf, hf', ?_, hk, fun _ => ⟨scopes, rfl⟩⟩, ?_⟩
  · exact htied.mono (grown_addFunction _ _ _)
  · rw [hf, hc]
    rfl

/-- A method that is found stands in some class, so it is one. -/
theorem Pair.Ok.method_of_findMethod? (hp : p.Ok visits) {c : ClassId} {name : String}
    {f : FunctionId} (hf : p.machine.heap.findMethod? c name = some f) : p.Method visits f := by
  obtain ⟨d, data, hd, hm⟩ := Heap.exists_method_of_findMethod? hf
  exact hp.methods d data name f hd hm

theorem Pair.Ok.findMethod? (hp : p.Ok visits) (c : ClassId) (name : String) :
    p.state.heap.findMethod? c name = p.machine.heap.findMethod? c name := by
  rw [← hp.heap, Heap.findMethod?_bare]

theorem sim_boundMethod (hp : p.Ok visits) (c : ClassId) (name : Token) {receiver : Value}
    (hv : p.Sane visits receiver) :
    Sim visits true p (Eval.boundMethod c name receiver) (Eval.boundMethod c name receiver)
      (Reference.boundMethod c name receiver) (Agreed visits) := by
  unfold Eval.boundMethod Reference.boundMethod
  refine .step (q := p) (a := p.machine.heap) (b := p.state.heap) rfl rfl (.refl true p) ?_
  rw [hp.findMethod?]
  cases hf : p.machine.heap.findMethod? c name.lexeme with
  | none => exact .failed hp nofun
  | some method =>
      refine (sim_bindMethod hp (hp.method_of_findMethod? hf) hv).bind ?_
      rintro f _ q hq - ⟨rfl, hcallable, -⟩
      exact .done hq ⟨rfl, hcallable⟩

/-- Reading a property. -/
theorem sim_getProperty (hp : p.Ok visits) {value : Value} (hv : p.Sane visits value)
    (name : Token) :
    Sim visits true p (Eval.getProperty value name) (Eval.getProperty value name)
      (Reference.getProperty value name) (Agreed visits) := by
  cases value with
  | object o =>
      have hin : o < p.machine.heap.objects.size := hv
      have ho : p.machine.heap.objects[o]? = some p.machine.heap.objects[o] :=
        Array.getElem?_eq_getElem hin
      have hm : Eval.objectData o p.machine = .ok p.machine.heap.objects[o] p.machine := by
        unfold Eval.objectData
        rw [run_bind_ok (show Eval.heap p.machine = .ok p.machine.heap p.machine from rfl), ho]
        rfl
      have hr : Reference.objectData o p.state = .ok p.machine.heap.objects[o] p.state := by
        unfold Reference.objectData
        rw [← hp.objects, ho]
      unfold Eval.getProperty Reference.getProperty
      refine .step (q := p) hm hr (.refl true p) ?_
      cases hfield : p.machine.heap.objects[o].fields.find? name.lexeme with
      | some field => exact .done hp ⟨rfl, hp.fields o _ _ _ ho hfield⟩
      | none => exact sim_boundMethod hp _ name hv
  | nil | boolean | number | string | native | function | cls => exact .failed hp nofun

/-- Reading `this`. -/
theorem sim_this (hp : p.Ok visits) (ha : p.At scopes names) {id : NodeId} {keyword : Token}
    (hs : scopes.Settled) (hkeyword : keyword.lexeme = "this")
    (hid : p.machine.distances[id]? = scopes.distance? "this")
    (hbound : (scopes.distance? "this").isSome) :
    Sim visits still p (Eval.lookUp id keyword) (Eval.lookUp id keyword)
      (Reference.remember names "this") (Agreed visits) := by
  obtain ⟨distance, hd⟩ := Option.isSome_iff_exists.1 hbound
  have hpending : scopes.isPending "this" = false := by
    cases hpe : scopes.isPending "this" with
    | false => rfl
    | true => exact absurd rfl (hs.special _ hpe).1
  obtain ⟨value, holder, -, hv, hget, hrecall⟩ := exists_value hp ha.tied hd
    fun _ hb => hs.ready hpending hb
  refine .act ?_ hrecall hp (.refl still p) ⟨rfl, hp.sane _ _ _ hv⟩
  unfold Eval.lookUp
  have hdist : Eval.distance? id p.machine = .ok (some distance) p.machine := by
    unfold Eval.distance?
    rw [hid, hd]
  rw [run_bind_ok hdist, hkeyword]
  exact hget

/-- A method of the superclass: its frame holds a class, and the frame inside that one holds the
object. -/
theorem sim_superMethod (hp : p.Ok visits) (ha : p.At scopes names) {id : NodeId} (method : Token)
    (hs : scopes.Settled) (hid : p.machine.distances[id]? = scopes.distance? "super")
    {distance : Nat} (hsuper : scopes.distance? "super" = some (distance + 1))
    (hthis : scopes.distance? "this" = some distance) :
    Sim visits true p (Eval.superMethod id method) (Eval.superMethod id method)
      (Reference.superMethod names method) (Agreed visits) := by
  have hpending : ∀ name, name = "this" ∨ name = "super" → scopes.isPending name = false := by
    intro name hname
    cases hpe : scopes.isPending name with
    | false => rfl
    | true =>
        rcases hname with rfl | rfl
        · exact absurd rfl (hs.special _ hpe).1
        · exact absurd rfl (hs.special _ hpe).2
  obtain ⟨parent, holder, -, hv, hget, hrecall⟩ :=
    exists_value hp ha.tied hsuper fun _ hb => hs.ready (hpending _ (Or.inr rfl)) hb
  obtain ⟨receiver, holder', -, hv', hget', hrecall'⟩ :=
    exists_value hp ha.tied hthis fun _ hb => hs.ready (hpending _ (Or.inl rfl)) hb
  have hdist : Eval.distance? id p.machine = .ok (some (distance + 1)) p.machine := by
    unfold Eval.distance?
    rw [hid, hsuper]
  unfold Eval.superMethod Reference.superMethod
  refine .look hdist ?_
  refine .look (a := p.machine.scope) rfl ?_
  refine .step (q := p) hget hrecall (.refl true p) ?_
  refine .step (q := p) hget' hrecall' (.refl true p) ?_
  obtain ⟨c, rfl⟩ := hp.parents holder parent hv
  exact sim_boundMethod hp c method (hp.sane _ _ _ hv')

end Lockstep

end Lox
