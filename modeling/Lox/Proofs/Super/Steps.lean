/-
The steps of evaluation that run no part of the tree, on machines whose frames of
`this` and `super` are in order. A name that the program assigns to or declares
is bound in ordinary frames only. A frame of `this` is made in one place, where a
method is bound, and for an object.
-/
import Lox.Proofs.Super.Watched
import Lox.Proofs.Lockstep.Object

namespace Lox

open Lockstep (run_bind_ok run_bind_error)
open Machine

variable {α : Type} {w : Chronicle} {m m' : Machine} {frame : FrameId} {scopes : Scopes}
  {cls : Option ClassDecl}

namespace Machine

theorem Place.lt_next (h : m.Place w scopes cls) (hm : m.Framed w) :
    m.scope < m.heap.scopes.next := h.chain.lt_next hm.rooted

/-- A place is a place for good. -/
theorem Place.later (h : m.Place w scopes cls) (hm : m.Framed w) (hl : m.Later m') :
    m'.Place w scopes cls where
  chain := by
    rw [hl.scope]
    exact h.chain.mono hl.toPersists
  ordinary := by
    rw [hl.scope]
    exact hl.ordinary _ (h.lt_next hm) h.ordinary

theorem Place.declare (h : m.Place w scopes cls) {name : Token} (hname : name.Free) :
    m.Place w (scopes.declare name).1 cls :=
  ⟨h.chain.declare h.ordinary hname, h.ordinary⟩

theorem Place.introduce (h : m.Place w scopes cls) {name : Token} (hname : name.Free) :
    m.Place w (scopes.introduce name).1 cls :=
  ⟨h.chain.introduce h.ordinary hname, h.ordinary⟩

/-- Whatever binds `this` binds it to an object. -/
theorem Framed.receiver (hm : m.Framed w) {value : Value}
    (h : m.heap.scopes.local? frame "this" = some value) :
    ∃ o, value = .object o ∧ o < m.heap.objects.size := by
  obtain ⟨o, ho, hb, -⟩ := hm.receivers frame (by rw [h]; rfl)
  have hvalue := local?_of_bindings hb
  rw [h, Option.some.injEq] at hvalue
  exact ⟨o, hvalue, ho⟩

/-- Outside of all scopes. -/
theorem Framed.place (hm : m.Framed w) (htop : m.scope = globalFrame) : m.Place w [] none where
  chain := by
    rw [htop]
    exact .top
  ordinary := by
    rw [htop]
    exact hm.top

end Machine

namespace Runs

-- =================================================================== reading

theorem ancestor (hm : m.Framed w) (frame : FrameId) (distance : Nat) :
    Runs w m (fun _ => Eval.ancestor frame distance) (Eval.ancestor frame distance) fun holder k =>
      k = m ∧ m.heap.scopes.ancestor? frame distance = some holder := by
  refine look (a := m.heap) rfl hm ?_
  cases ha : m.heap.scopes.ancestor? frame distance with
  | none => exact halt hm _
  | some outer => exact done hm ⟨rfl, rfl⟩

/-- What is read at a distance is bound in some frame. -/
theorem getAt (hm : m.Framed w) (frame : FrameId) (distance : Nat) (name : String) :
    Runs w m (fun _ => Eval.getAt frame distance name) (Eval.getAt frame distance name)
      fun value k => k = m ∧ ∃ holder, m.heap.scopes.local? holder name = some value := by
  refine (ancestor hm frame distance).bind fun holder k _ hk _ h => ?_
  obtain ⟨rfl, -⟩ := h
  refine look (a := k.heap) rfl hm ?_
  cases hv : k.heap.scopes.local? holder name with
  | none => exact halt hm _
  | some value => exact done hm ⟨rfl, holder, hv⟩

theorem getNamed (hm : m.Framed w) (frame : FrameId) (name : Token) :
    Runs w m (fun _ => Eval.getNamed frame name) (Eval.getNamed frame name)
      fun value k => k.Sane w value := by
  refine look (a := m.heap) rfl hm ?_
  cases hv : m.heap.scopes.get? frame name.lexeme with
  | none => exact halt hm _
  | some value =>
      obtain ⟨holder, -, hlocal⟩ := Option.bind_eq_some_iff.1 hv
      exact done hm (hm.sane holder _ value hlocal)

theorem lookUp (hm : m.Framed w) (id : NodeId) (name : Token) :
    Runs w m (fun _ => Eval.lookUp id name) (Eval.lookUp id name)
      fun value k => k.Sane w value := by
  refine look (a := m.distances[id]?) rfl hm ?_
  cases m.distances[id]? with
  | none => exact getNamed hm globalFrame name
  | some distance =>
      refine look (a := m.scope) rfl hm ?_
      refine (getAt hm m.scope distance name.lexeme).weaken fun value k _ _ h => ?_
      obtain ⟨rfl, holder, hv⟩ := h
      exact hm.sane holder _ value hv

-- =================================================================== binding

/-- A name of the program is bound in an ordinary frame. -/
theorem bindAt (hm : m.Framed w) (hlt : frame < m.heap.scopes.next) (ho : m.Ordinary frame)
    {name : Token} (hname : name.Free) {value : Value} (hv : m.Sane w value) :
    Runs w m (fun _ => Eval.updateHeap fun h => h.define frame name.lexeme value)
      (Eval.updateHeap fun h => h.define frame name.lexeme value) fun _ _ => True :=
  act rfl (hm.define hlt ho hname.not_special hv)
    ((persists_define hlt ho hname.not_special).later rfl rfl) trivial

theorem define (hm : m.Framed w) (ha : m.Place w scopes cls) {name : Token} (hname : name.Free)
    {value : Value} (hv : m.Sane w value) :
    Runs w m (fun _ => Eval.define name.lexeme value) (Eval.define name.lexeme value)
      fun _ _ => True :=
  bindAt hm (ha.lt_next hm) ha.ordinary hname hv

/-- Global names are bound in the frame of globals. -/
theorem assignGlobal (hm : m.Framed w) {name : Token} (hname : name.Free) {value : Value}
    (hv : m.Sane w value) :
    Runs w m (fun _ => Eval.assignNamed globalFrame name value)
      (Eval.assignNamed globalFrame name value) fun _ _ => True := by
  refine look (a := m.heap) rfl hm ?_
  rw [Forest.holder?_of_root hm.rooted hm.root]
  cases (m.heap.scopes.bindings globalFrame).binds name.lexeme with
  | false => exact halt hm _
  | true => exact bindAt hm hm.rooted hm.top hname hv

/-- A name is assigned to where the resolver found it, and that is in no frame of `this` or
`super`. -/
theorem assign (hm : m.Framed w) (ha : m.Place w scopes cls) {id : NodeId} {name : Token}
    {target : Expr} {around : Surroundings}
    (hvisit : w.Visited ⟨.expression (.assign id name target), around, scopes, none⟩)
    {value : Value} (hv : m.Sane w value) :
    Runs w m (fun _ => Eval.assign id name value) (Eval.assign id name value)
      fun _ _ => True := by
  obtain ⟨u, hu, hnode, hscopes⟩ := hvisit
  have hsound := hm.sound u hu
  have hname : name.Free := by
    have hproper := hsound.proper
    rw [hnode] at hproper
    exact hproper
  have hlinked : m.distances[id]? = scopes.distance? name.lexeme := by
    have hall := hsound.linked name.lexeme (by rw [hnode]; rfl)
    rw [hnode, hscopes] at hall
    exact hall
  refine look (a := m.distances[id]?) rfl hm ?_
  rw [hlinked]
  cases hd : scopes.distance? name.lexeme with
  | none => exact assignGlobal hm hname hv
  | some distance =>
      obtain ⟨holder, hancestor, hlt, hordinary⟩ := ha.chain.ancestor hname.not_special hd
      refine look (a := m.scope) rfl hm ?_
      refine look (a := holder) (Lockstep.ancestor_eq hancestor) hm ?_
      exact bindAt hm hlt hordinary hname hv

-- ================================================================= operators

theorem unary (hm : m.Framed w) (operator : Token) (value : Value) :
    Runs w m (fun _ => Eval.unary operator value) (Eval.unary operator value)
      fun v k => k.Sane w v := by
  unfold Eval.unary
  split
  · cases value with
    | number x => exact look rfl hm (done hm trivial)
    | _ =>
        have hstop : Runs w m (fun _ => Eval.fault operator .operandNotNumber)
            (Eval.fault operator .operandNotNumber) fun (_ : Float) _ => False := halt hm _
        exact hstop.bind fun _ _ _ _ _ h => h.elim
  · exact done hm trivial
  · exact halt hm _

theorem numeric (hm : m.Framed w) (operator : Token) (left right : Value) :
    Runs w m (fun _ => Eval.numeric operator left right) (Eval.numeric operator left right)
      fun v k => k.Sane w v := by
  have hneed : Runs w m (fun _ => Eval.needNumbers operator left right)
      (Eval.needNumbers operator left right) fun _ k => k = m := by
    unfold Eval.needNumbers
    split
    · exact done hm rfl
    · exact halt hm _
  refine hneed.bind fun (a, b) k _ _ _ h => ?_
  subst h
  dsimp only
  split
  iterate 7 exact done hm trivial
  exact halt hm _

theorem binary (hm : m.Framed w) (operator : Token) (left right : Value) :
    Runs w m (fun _ => Eval.binary operator left right) (Eval.binary operator left right)
      fun v k => k.Sane w v := by
  unfold Eval.binary
  split
  · unfold Eval.add
    split
    · exact done hm trivial
    · exact done hm trivial
    · exact halt hm _
  · exact done hm trivial
  · exact done hm trivial
  · exact numeric hm operator left right

-- =================================================================== natives

/-- A step that leaves heap, frame and distances alone. -/
theorem still {plain : Eval α} {a : α} {post : α → Machine → Prop} (hm : m.Framed w)
    (h : plain m = .ok a m') (hheap : m'.heap = m.heap) (hscope : m'.scope = m.scope)
    (hdistances : m'.distances = m.distances) (hpost : post a m') :
    Runs w m (fun _ => plain) plain post :=
  act h (hm.of_heap hheap hdistances) ((Persists.of_heap hheap).later hscope hdistances) hpost

theorem print (hm : m.Framed w) (value : Value) :
    Runs w m (fun _ => Eval.print value) (Eval.print value) fun _ _ => True :=
  still hm rfl rfl rfl rfl trivial

theorem checkCallable (hm : m.Framed w) (paren : Token) (callee : Value) :
    Runs w m (fun _ => Eval.checkCallable paren callee) (Eval.checkCallable paren callee)
      fun _ k => k = m := by
  cases callee with
  | native | function | cls => exact done hm rfl
  | _ => exact halt hm _

theorem checkArity (hm : m.Framed w) (paren : Token) (callee : Value) (given : Nat) :
    Runs w m (fun _ => Eval.checkArity paren callee given) (Eval.checkArity paren callee given)
      fun _ k => k = m := by
  refine look (a := m.heap) rfl hm ?_
  cases m.heap.arity? callee with
  | none => exact halt hm _
  | some expected =>
      dsimp only
      split
      · exact done hm rfl
      · exact halt hm _

theorem setProperty (hm : m.Framed w) (o : ObjectId) (name : Token) {value : Value}
    (hv : m.Sane w value) :
    Runs w m (fun _ => Eval.setProperty o name value) (Eval.setProperty o name value)
      fun _ k => k.Sane w value :=
  act rfl (hm.setField hv) ((persists_setField m o name.lexeme value).later rfl rfl)
    (hv.mono (persists_setField m o name.lexeme value))

theorem callNative (hm : m.Framed w) (f : Native) (arguments : List Value) :
    Runs w m (fun _ => Eval.callNative f arguments) (Eval.callNative f arguments)
      fun v k => k.Sane w v := by
  cases f with
  | clock =>
      have hread : Eval.readClock m
          = .ok (.number m.clock) { m with clock := m.clock + Eval.clockTick } := rfl
      exact still hm hread rfl rfl rfl trivial
  | exit =>
      unfold Eval.callNative
      dsimp only
      cases arguments.headD .nil with
      | number x =>
          unfold Eval.exitWith
          dsimp only
          cases Decimal.truncate? x with
          | none => exact halt hm _
          | some code => exact halt hm _
      | _ => exact halt hm _

-- =================================================================== methods

/-- **Binding a method** makes a frame that holds nothing but the object. -/
theorem bindMethod_eq {f : FunctionId} {c : Closure} (h : m.heap.functions[f]? = some c)
    (receiver : Value) :
    Eval.bindMethod f receiver m = .ok m.heap.functions.size { m with
      heap := Heap.addFunction (m.heap.addFrame c.scope (Bindings.empty.set "this" receiver))
        ⟨c.declaration, m.heap.scopes.next, c.isInitializer⟩ } := by
  unfold Eval.bindMethod
  rw [run_bind_ok (Lockstep.closure_eq h)]
  rfl

theorem bindMethod (hm : m.Framed w) {name : String} {f : FunctionId}
    (hf : m.Method w name f) {o : ObjectId} (ho : o < m.heap.objects.size) (hreceives : Receives w.past o m) :
    Runs w m (fun _ => Eval.bindMethod f (.object o)) (Eval.bindMethod f (.object o))
      fun g k => k.Callable w g := by
  obtain ⟨c, around, scopes, cls, S, outer, hc, hchain, hhome, hplaced, -, htitled⟩ := hf
  have hbind := bindMethod_eq hc (.object o)
  let b : Bindings Value := Bindings.empty.set "this" (.object o)
  let opened : Machine := { m with heap := m.heap.addFrame c.scope b }
  let bound : Closure := ⟨c.declaration, m.heap.scopes.next, c.isInitializer⟩
  let functions := m.heap.functions.push bound
  let after : Machine := { opened with heap := { opened.heap with functions } }
  have hp : m.Persists after :=
    (persists_addFrame m c.scope b).trans
      (persists_functions (m := opened) fun _ _ => getElem?_push_of_some)
  have hlocal : ∀ frame name, after.heap.scopes.local? frame name
      = if frame = m.heap.scopes.next then b.find? name else m.heap.scopes.local? frame name :=
    local?_addFrame m c.scope b
  have hframed : after.Framed w := by
    refine hm.move hp rfl (fun frame h => ?_) (fun frame h => .inl ?_) (fun frame name v h => ?_)
      (fun _ data _ _ hd h => .inl ⟨data, hd, h⟩) fun _ _ h => .inl h
    · rw [hlocal] at h
      split at h
      · rename_i hframe
        subst hframe
        exact .inr ⟨o, ho, bindings_addFrame m c.scope b,
          ⟨m, after, f, _, hreceives, hbind, rfl, .refl after⟩⟩
      · exact .inl h
    · rw [hlocal] at h
      split at h
      · cases h
      · exact h
    · rw [hlocal] at h
      split at h
      · rw [Bindings.find?_set] at h
        split at h
        · cases h
          exact .inr (hp.lt_objects ho)
        · cases h
      · exact .inl h
  refine act hbind hframed (hp.later rfl rfl) ?_
  have hreceiver : (after.heap.scopes.local? m.heap.scopes.next "this").isSome := by
    rw [hlocal, if_pos rfl]
    rfl
  exact ⟨bound, around, _, _, Array.getElem?_push_size,
    (hhome.mono hp).chain (hchain.mono hp) (enclosing?_addFrame m c.scope b) hreceiver, hplaced,
    .bound htitled hreceiver⟩

theorem boundMethod (hm : m.Framed w) (c : ClassId) (name : Token) {o : ObjectId}
    (ho : o < m.heap.objects.size) (hreceives : Receives w.past o m) :
    Runs w m (fun _ => Eval.boundMethod c name (.object o)) (Eval.boundMethod c name (.object o))
      fun v k => k.Sane w v := by
  refine look (a := m.heap) rfl hm ?_
  cases hfind : m.heap.findMethod? c name.lexeme with
  | none => exact halt hm _
  | some method =>
      obtain ⟨d, data, hd, hmethod⟩ := Heap.exists_method_of_findMethod? hfind
      exact (bindMethod hm (hm.methods d data _ method hd hmethod) ho hreceives).bind
        fun f k _ hk _ hcallable => done hk hcallable

theorem getProperty (hm : m.Framed w) {value : Value} (hv : m.Sane w value)
    (hreceives : ∀ o, value = .object o → Receives w.past o m) (name : Token) :
    Runs w m (fun _ => Eval.getProperty value name) (Eval.getProperty value name)
      fun v k => k.Sane w v := by
  cases value with
  | object o =>
      have ho : o < m.heap.objects.size := hv
      have hdata : Eval.objectData o m = .ok m.heap.objects[o] m := by
        unfold Eval.objectData
        rw [run_bind_ok (show Eval.heap m = .ok m.heap m from rfl), Array.getElem?_eq_getElem ho]
        rfl
      refine look hdata hm ?_
      cases hfield : m.heap.objects[o].fields.find? name.lexeme with
      | none => exact boundMethod hm _ name ho (hreceives o rfl)
      | some field =>
          exact done hm (hm.fields o _ name.lexeme field (Array.getElem?_eq_getElem ho) hfield)
  | _ => exact halt hm _

theorem superMethod (hm : m.Framed w) {id : NodeId} {keyword method : Token}
    (hpast : w.past (.expression (.super id keyword method)) m) :
    Runs w m (fun _ => Eval.superMethod id method) (Eval.superMethod id method)
      fun v k => k.Sane w v := by
  refine look (a := m.distances[id]?) rfl hm ?_
  cases hlinked : m.distances[id]? with
  | none => exact halt hm _
  | some distance =>
      refine look (a := m.scope) rfl hm ?_
      refine (getAt hm m.scope distance "super").bind fun parent k _ _ _ h => ?_
      obtain ⟨rfl, -⟩ := h
      refine (getAt hm k.scope (distance - 1) "this").bind fun receiver k' hheld _ _ h => ?_
      obtain ⟨rfl, holder, hthis⟩ := h
      obtain ⟨o, rfl, ho⟩ := hm.receiver hthis
      cases parent with
      | cls c => exact boundMethod hm c method ho (.super hpast hlinked hheld)
      | _ => exact halt hm _

end Runs

end Lox
