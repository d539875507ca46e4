/-
The steps of evaluation as changes of the heap. A run makes the heap grow by
allowed changes alone, puts the current frame back, and comes to values that are
on the heap (`Ends`); nothing has to be known about the program for that.

To tell on what machines a run can be when a node is entered, two runs are
compared, on hosts that may differ only where the machine is none that the start
can grow to (`Tended`). The two never differ, so no run gets to such a machine.
-/
import Lox.Proofs.Growth.Change
import Lox.Proofs.Run.Host
import Lox.Proofs.Lockstep.Object

namespace Lox

open Lockstep (run_bind_ok run_bind_error)

/-- From one machine to another the heap has grown by allowed changes, and the same frame is
current. -/
def Machine.Grows (m m' : Machine) : Prop :=
  m'.scope = m.scope ∧ ∃ changes, m.heap.Becomes changes m'.heap

/-- A machine of a run that began on a given heap: the heap has come from that one, nothing on it
dangles, and the current frame is one of its frames. -/
structure Machine.CameFrom (m : Machine) (origin : Heap) : Prop where
  grounded : m.heap.Grounded
  became : ∃ changes, origin.Becomes changes m.heap
  inside : m.scope < m.heap.scopes.next

/-- A run ends on a machine that its first one has grown to, with a value of some kind. -/
def Ended {α : Type} (m : Machine) (post : α → Heap → Prop) :
    EStateM.Result Stop Machine α → Prop
  | .ok a m' => m.Grows m' ∧ post a m'.heap
  | .error _ m' => m.Grows m'

/-- From a machine on two runs are one, and it makes the heap grow. -/
structure Tended {α : Type} (m : Machine) (observed plain : Eval α) (post : α → Heap → Prop) :
    Prop where
  same : observed m = plain m
  ended : Ended m post (plain m)

variable {α β : Type} {origin : Heap} {m m' m'' : Machine} {post : α → Heap → Prop}

namespace Machine

theorem Grows.refl (m : Machine) : m.Grows m := ⟨rfl, [], .still⟩

theorem Grows.trans (h : m.Grows m') (h' : m'.Grows m'') : m.Grows m'' := by
  obtain ⟨hscope, changes, hbecomes⟩ := h
  obtain ⟨hscope', changes', hbecomes'⟩ := h'
  exact ⟨hscope'.trans hscope, changes ++ changes', hbecomes.append hbecomes'⟩

theorem Grows.kept (h : m.Grows m') : m.heap.Extends m'.heap :=
  let ⟨_, _, hbecomes⟩ := h
  hbecomes.kept

/-- Nothing but the heap and the current frame counts. -/
theorem Grows.of_heap (hscope : m'.scope = m.scope) (hheap : m'.heap = m.heap) : m.Grows m' :=
  ⟨hscope, [], hheap ▸ .still⟩

theorem CameFrom.later (hm : m.CameFrom origin) (h : m.Grows m') : m'.CameFrom origin := by
  obtain ⟨hscope, changes, hbecomes⟩ := h
  obtain ⟨before, hbefore⟩ := hm.became
  refine ⟨hm.grounded.becomes hbecomes, ⟨before ++ changes, hbefore.append hbecomes⟩, ?_⟩
  rw [hscope]
  exact Nat.lt_of_lt_of_le hm.inside hbecomes.kept.next

theorem CameFrom.enter (hm : m.CameFrom origin) {frame : FrameId}
    (hframe : frame < m.heap.scopes.next) : { m with scope := frame }.CameFrom origin :=
  ⟨hm.grounded, hm.became, hframe⟩

end Machine

/-- What an object is made of. -/
theorem objectData_eq {o : ObjectId} {data : ObjectData} (h : m.heap.objects[o]? = some data) :
    Eval.objectData o m = .ok data m := by
  unfold Eval.objectData
  rw [run_bind_ok (show Eval.heap m = .ok m.heap m from rfl), h]
  rfl

theorem Ended.since {r : EStateM.Result Stop Machine α} (h : Ended m' post r)
    (hgrows : m.Grows m') : Ended m post r := by
  cases r with
  | ok a k => exact ⟨hgrows.trans h.1, h.2⟩
  | error s k => exact hgrows.trans h

namespace Tended

variable {observed plain : Eval α} {f g : α → Eval β} {post' : β → Heap → Prop}

-- ============================================================== composition

/-- A step that both take. -/
theorem both (h : Ended m post (plain m)) : Tended m plain plain post := ⟨rfl, h⟩

theorem done {a : α} (hpost : post a m.heap) : Tended m (pure a) (pure a) post :=
  both ⟨.refl m, hpost⟩

/-- A step that stops the run. -/
theorem halt (s : Stop) : Tended m (Eval.stop s) (Eval.stop s) post := both (.refl m)

/-- A step that is known. -/
theorem act {a : α} (h : plain m = .ok a m') (hgrows : m.Grows m') (hpost : post a m'.heap) :
    Tended m plain plain post := by
  apply both
  rw [h]
  exact ⟨hgrows, hpost⟩

theorem bind {mid : α → Heap → Prop} (first : Tended m observed plain mid) (hm : m.CameFrom origin)
    (rest : ∀ a m', m'.CameFrom origin → m.Grows m' → mid a m'.heap →
      Tended m' (f a) (g a) post') :
    Tended m (observed >>= f) (plain >>= g) post' := by
  obtain ⟨hsame, hended⟩ := first
  cases hplain : plain m with
  | error s m' =>
      rw [hplain] at hended
      refine ⟨?_, ?_⟩
      · rw [run_bind_error (hsame.trans hplain), run_bind_error hplain]
      · rw [run_bind_error hplain]
        exact hended
  | ok a m' =>
      rw [hplain] at hended
      obtain ⟨hgrows, hmid⟩ := hended
      obtain ⟨hsame', hended'⟩ := rest a m' (hm.later hgrows) hgrows hmid
      refine ⟨?_, ?_⟩
      · rw [run_bind_ok (hsame.trans hplain), run_bind_ok hplain]
        exact hsame'
      · rw [run_bind_ok hplain]
        exact hended'.since hgrows

/-- A step that is known, and what comes behind it. -/
theorem step {a : α} (hm : m.CameFrom origin) (h : plain m = .ok a m') (hgrows : m.Grows m')
    (rest : m'.CameFrom origin → Tended m' (f a) (g a) post') :
    Tended m (plain >>= f) (plain >>= g) post' := by
  obtain ⟨hsame, hended⟩ := rest (hm.later hgrows)
  refine ⟨?_, ?_⟩
  · rw [run_bind_ok h, run_bind_ok h]
    exact hsame
  · rw [run_bind_ok h]
    exact hended.since hgrows

/-- The machine looks at itself. -/
theorem look {a : α} (hm : m.CameFrom origin) (h : plain m = .ok a m)
    (rest : Tended m (f a) (g a) post') : Tended m (plain >>= f) (plain >>= g) post' :=
  step hm h (.refl m) fun _ => rest

theorem anchored (token : Token) (h : Tended m observed plain post) :
    Tended m (Eval.anchored token observed) (Eval.anchored token plain) post := by
  obtain ⟨hsame, hended⟩ := h
  refine ⟨?_, ?_⟩
  · unfold Eval.anchored
    rw [hsame]
  · unfold Eval.anchored
    cases hplain : plain m with
    | ok a m' =>
        rw [hplain] at hended
        exact hended
    | error s m' =>
        rw [hplain] at hended
        cases s with
        | fault fault =>
            obtain ⟨place, cause⟩ := fault
            cases place <;> exact hended
        | _ => exact hended

/-- A run in another frame, which the run before goes on in afterwards. -/
theorem inScope {frame : FrameId} (h : Tended { m with scope := frame } observed plain post) :
    Tended m (Eval.inScope frame observed) (Eval.inScope frame plain) post := by
  obtain ⟨hsame, hended⟩ := h
  refine ⟨?_, ?_⟩
  · exact Lockstep.inScope_eq hsame
  · cases hplain : plain { m with scope := frame } with
    | ok a m' =>
        rw [hplain] at hended
        rw [Lockstep.inScope_ok hplain]
        exact ⟨⟨rfl, hended.1.2⟩, hended.2⟩
    | error s m' =>
        rw [hplain] at hended
        rw [Lockstep.inScope_error hplain]
        exact ⟨rfl, hended.2⟩

-- =================================================================== changes

/-- A step that makes one change to the heap. -/
theorem change {a : α} (change : Heap.Change) (allowed : m.heap.Allows change)
    (h : plain m = .ok a { m with heap := m.heap.apply change })
    (hpost : post a (m.heap.apply change)) : Tended m plain plain post :=
  act h ⟨rfl, [change], .step allowed .still⟩ hpost

theorem define (hm : m.CameFrom origin) (name : String) (value : Value)
    (hv : m.heap.Has value) :
    Tended m (Eval.define name value) (Eval.define name value) fun _ _ => True :=
  change (.bound m.scope name value) ⟨hm.inside, hv⟩ rfl trivial

theorem bindAt {frame : FrameId} (hframe : frame < m.heap.scopes.next) (name : String)
    {value : Value} (hv : m.heap.Has value) :
    Tended m (Eval.updateHeap fun h => h.define frame name value)
      (Eval.updateHeap fun h => h.define frame name value) fun _ _ => True :=
  change (.bound frame name value) ⟨hframe, hv⟩ rfl trivial

theorem setProperty {object : ObjectId} (ho : object < m.heap.objects.size) (name : Token)
    {value : Value} (hv : m.heap.Has value) :
    Tended m (Eval.setProperty object name value) (Eval.setProperty object name value)
      fun _ _ => True :=
  change (.field object name.lexeme value) ⟨ho, hv⟩ rfl trivial

theorem newFrame {outer : FrameId} (houter : outer < m.heap.scopes.next) {b : Bindings Value}
    (hb : m.heap.Holds b) :
    Tended m (Eval.newFrame outer b) (Eval.newFrame outer b)
      fun frame k => frame < k.scopes.next := by
  refine change (.frame outer b) ⟨houter, hb⟩ rfl ?_
  show m.heap.scopes.next < (m.heap.scopes.grow (some outer) b).next
  rw [Forest.next_grow]
  exact Nat.lt_succ_self _

theorem newFunction {c : Closure} (hscope : c.scope < m.heap.scopes.next) :
    Tended m (Eval.newFunction c) (Eval.newFunction c)
      fun f k => f < k.functions.size := by
  refine change (.function c) hscope rfl ?_
  show m.heap.functions.size < (m.heap.functions.push c).size
  rw [Array.size_push]
  exact Nat.lt_succ_self _

theorem newClass {data : ClassData} (allowed : m.heap.Allows (.cls data)) :
    Tended m (Eval.newClass data) (Eval.newClass data) fun c k => c < k.classes.size := by
  refine change (.cls data) allowed rfl ?_
  show m.heap.classes.size < (m.heap.classes.push data).size
  rw [Array.size_push]
  exact Nat.lt_succ_self _

theorem newObject {c : ClassId} (hc : c < m.heap.classes.size) :
    Tended m (Eval.newObject ⟨c, .empty⟩) (Eval.newObject ⟨c, .empty⟩)
      fun o k => o < k.objects.size := by
  refine change (.object ⟨c, .empty⟩) ⟨hc, rfl⟩ rfl ?_
  show m.heap.objects.size < (m.heap.objects.push ⟨c, .empty⟩).size
  rw [Array.size_push]
  exact Nat.lt_succ_self _

/-- A body runs in a new frame. -/
theorem inNewFrame (hm : m.CameFrom origin) {outer : FrameId}
    (houter : outer < m.heap.scopes.next) {b : Bindings Value} (hb : m.heap.Holds b)
    (h : ∀ k : Machine, k.CameFrom origin → Tended k observed plain post) :
    Tended m (Eval.inNewFrame outer b observed) (Eval.inNewFrame outer b plain) post :=
  (newFrame houter hb).bind hm fun _ _ hk _ hframe => inScope (h _ (hk.enter hframe))

-- =================================================================== reading

theorem ancestor (hm : m.CameFrom origin) {frame : FrameId} (hframe : frame < m.heap.scopes.next)
    (distance : Nat) :
    Tended m (Eval.ancestor frame distance) (Eval.ancestor frame distance)
      fun holder k => holder < k.scopes.next := by
  refine look hm rfl ?_
  cases h : m.heap.scopes.ancestor? frame distance with
  | none => exact halt _
  | some holder => exact done (hm.grounded.lt_next_of_ancestor? hframe h)

/-- What a frame binds is on the heap. -/
theorem getAt (hm : m.CameFrom origin) {frame : FrameId} (hframe : frame < m.heap.scopes.next)
    (distance : Nat) (name : String) :
    Tended m (Eval.getAt frame distance name) (Eval.getAt frame distance name)
      fun value k => k.Has value := by
  refine (ancestor hm hframe distance).bind hm fun holder k hk _ _ => look hk rfl ?_
  cases hv : k.heap.scopes.local? holder name with
  | none => exact halt _
  | some value => exact done (hk.grounded.has_of_local? hv)

theorem getNamed (hm : m.CameFrom origin) (frame : FrameId) (name : Token) :
    Tended m (Eval.getNamed frame name) (Eval.getNamed frame name)
      fun value k => k.Has value := by
  refine look hm rfl ?_
  cases hv : m.heap.scopes.get? frame name.lexeme with
  | none => exact halt _
  | some value =>
      obtain ⟨holder, -, hlocal⟩ := Option.bind_eq_some_iff.1 hv
      exact done (hm.grounded.has_of_local? hlocal)

theorem lookUp (hm : m.CameFrom origin) (id : NodeId) (name : Token) :
    Tended m (Eval.lookUp id name) (Eval.lookUp id name) fun value k => k.Has value := by
  refine look (a := m.distances[id]?) hm rfl ?_
  cases m.distances[id]? with
  | none => exact getNamed hm globalFrame name
  | some distance => exact look hm rfl (getAt hm hm.inside distance name.lexeme)

/-- A name is assigned to in the frame that binds it. -/
theorem assignNamed (hm : m.CameFrom origin) {frame : FrameId}
    (hframe : frame < m.heap.scopes.next) (name : Token) {value : Value} (hv : m.heap.Has value) :
    Tended m (Eval.assignNamed frame name value) (Eval.assignNamed frame name value)
      fun _ _ => True := by
  refine look hm rfl ?_
  cases h : m.heap.scopes.holder? frame name.lexeme with
  | none => exact halt _
  | some holder =>
      have hbound := ((hm.grounded.scopes_layered.holder?_eq_some_iff hframe).1 h).2
      obtain ⟨found, hfound⟩ := Option.isSome_iff_exists.1 hbound
      exact bindAt (Forest.lt_next_of_local? hfound) name.lexeme hv

theorem assign (hm : m.CameFrom origin) (id : NodeId) (name : Token) {value : Value}
    (hv : m.heap.Has value) :
    Tended m (Eval.assign id name value) (Eval.assign id name value) fun _ _ => True := by
  refine look (a := m.distances[id]?) hm rfl ?_
  cases m.distances[id]? with
  | none => exact assignNamed hm hm.grounded.rooted name hv
  | some distance =>
      refine look (a := m.scope) hm rfl ?_
      refine (ancestor hm hm.inside distance).bind hm fun holder k _ hgrows hholder => ?_
      exact bindAt hholder name.lexeme (hgrows.kept.has hv)

-- ================================================================= operators

theorem unary (hm : m.CameFrom origin) (operator : Token) (value : Value) :
    Tended m (Eval.unary operator value) (Eval.unary operator value) fun v k => k.Has v := by
  unfold Eval.unary
  split
  · cases value with
    | number x => exact look hm rfl (done trivial)
    | _ =>
        have hstop : Tended m (Eval.fault operator .operandNotNumber)
            (Eval.fault operator .operandNotNumber) fun (_ : Float) _ => False := halt _
        exact hstop.bind hm fun _ _ _ _ h => h.elim
  · exact done trivial
  · exact halt _

theorem numeric (hm : m.CameFrom origin) (operator : Token) (left right : Value) :
    Tended m (Eval.numeric operator left right) (Eval.numeric operator left right)
      fun v k => k.Has v := by
  have hneed : Tended m (Eval.needNumbers operator left right)
      (Eval.needNumbers operator left right) fun _ _ => True := by
    unfold Eval.needNumbers
    split
    · exact done trivial
    · exact halt _
  refine hneed.bind hm fun (a, b) k _ _ _ => ?_
  dsimp only
  split
  iterate 7 exact done trivial
  exact halt _

theorem binary (hm : m.CameFrom origin) (operator : Token) (left right : Value) :
    Tended m (Eval.binary operator left right) (Eval.binary operator left right)
      fun v k => k.Has v := by
  unfold Eval.binary
  split
  · unfold Eval.add
    split
    · exact done trivial
    · exact done trivial
    · exact halt _
  · exact done trivial
  · exact done trivial
  · exact numeric hm operator left right

-- =================================================================== calling

theorem checkCallable (m : Machine) (paren : Token) (callee : Value) :
    Tended m (Eval.checkCallable paren callee) (Eval.checkCallable paren callee)
      fun _ _ => True := by
  cases callee with
  | native | function | cls => exact done trivial
  | _ => exact halt _

theorem checkArity (hm : m.CameFrom origin) (paren : Token) (callee : Value) (given : Nat) :
    Tended m (Eval.checkArity paren callee given) (Eval.checkArity paren callee given)
      fun _ _ => True := by
  refine look hm rfl ?_
  cases m.heap.arity? callee with
  | none => exact halt _
  | some expected =>
      dsimp only
      split
      · exact done trivial
      · exact halt _

/-- A step that leaves the heap and the current frame alone. -/
theorem still {a : α} (h : plain m = .ok a m') (hscope : m'.scope = m.scope)
    (hheap : m'.heap = m.heap) (hpost : post a m'.heap) : Tended m plain plain post :=
  act h (.of_heap hscope hheap) hpost

theorem noteStatement (m : Machine) (s : Stmt) :
    Tended m (Eval.noteStatement s) (Eval.noteStatement s) fun _ _ => True := by
  cases htracing : m.tracing with
  | true =>
      have hnote : Eval.noteStatement s m = .ok () (m.note ("Executing: " ++ s.kindName)) := by
        unfold Eval.noteStatement
        rw [htracing]
        rfl
      exact still hnote rfl rfl trivial
  | false =>
      have hnote : Eval.noteStatement s m = .ok () m := by
        unfold Eval.noteStatement
        rw [htracing]
        rfl
      exact still hnote rfl rfl trivial

theorem print (m : Machine) (value : Value) :
    Tended m (Eval.print value) (Eval.print value) fun _ _ => True :=
  still rfl rfl rfl trivial

theorem callNative (m : Machine) (f : Native) (arguments : List Value) :
    Tended m (Eval.callNative f arguments) (Eval.callNative f arguments)
      fun v k => k.Has v := by
  cases f with
  | clock =>
      have hread : Eval.readClock m
          = .ok (.number m.clock) { m with clock := m.clock + Eval.clockTick } := rfl
      exact still hread rfl rfl trivial
  | exit =>
      unfold Eval.callNative
      dsimp only
      cases arguments.headD .nil with
      | number x =>
          unfold Eval.exitWith
          dsimp only
          cases Decimal.truncate? x with
          | none => exact halt _
          | some code => exact halt _
      | _ => exact halt _

-- =================================================================== methods

/-- A function lies in a frame that there is. -/
theorem closure (hm : m.CameFrom origin) (f : FunctionId) :
    Tended m (Eval.closure f) (Eval.closure f) fun c k => c.scope < k.scopes.next := by
  refine look hm rfl ?_
  cases hc : m.heap.functions[f]? with
  | none => exact halt _
  | some c => exact done (hm.grounded.closures f c hc)

/-- A method is bound in a frame inside its own. -/
theorem bindMethod (hm : m.CameFrom origin) (f : FunctionId) {receiver : Value}
    (hv : m.heap.Has receiver) :
    Tended m (Eval.bindMethod f receiver) (Eval.bindMethod f receiver)
      fun g k => g < k.functions.size := by
  refine (closure hm f).bind hm fun c k hk hgrows hscope => ?_
  have hb : k.heap.Holds (Bindings.empty.set "this" receiver) :=
    (Heap.holds_empty _).set (hgrows.kept.has hv) "this"
  exact (newFrame hscope hb).bind hk fun frame j _ _ hframe => newFunction hframe

theorem boundMethod (hm : m.CameFrom origin) (c : ClassId) (name : Token) {receiver : Value}
    (hv : m.heap.Has receiver) :
    Tended m (Eval.boundMethod c name receiver) (Eval.boundMethod c name receiver)
      fun v k => k.Has v := by
  refine look hm rfl ?_
  cases hfind : m.heap.findMethod? c name.lexeme with
  | none => exact halt _
  | some method => exact (bindMethod hm method hv).bind hm fun g k _ _ hg => done hg

theorem getProperty (hm : m.CameFrom origin) {value : Value} (hv : m.heap.Has value)
    (name : Token) :
    Tended m (Eval.getProperty value name) (Eval.getProperty value name)
      fun v k => k.Has v := by
  cases value with
  | object o =>
      have ho : m.heap.objects[o]? = some m.heap.objects[o] := Array.getElem?_eq_getElem hv
      refine look hm (objectData_eq ho) ?_
      cases hfield : m.heap.objects[o].fields.find? name.lexeme with
      | none => exact boundMethod hm _ name hv
      | some field => exact done ((hm.grounded.objects o _ ho).2 name.lexeme field hfield)
  | _ => exact halt _

theorem superMethod (hm : m.CameFrom origin) (id : NodeId) (method : Token) :
    Tended m (Eval.superMethod id method) (Eval.superMethod id method)
      fun v k => k.Has v := by
  refine look (a := m.distances[id]?) hm rfl ?_
  cases m.distances[id]? with
  | none => exact halt _
  | some distance =>
      refine look (a := m.scope) hm rfl ?_
      refine (getAt hm hm.inside distance "super").bind hm fun parent k hk hgrows _ => ?_
      have hinside : m.scope < k.heap.scopes.next := hgrows.1 ▸ hk.inside
      refine (getAt hk hinside (distance - 1) "this").bind hk fun receiver j hj _ hv => ?_
      cases parent with
      | cls c => exact boundMethod hj c method hv
      | _ => exact halt _

end Tended

end Lox
