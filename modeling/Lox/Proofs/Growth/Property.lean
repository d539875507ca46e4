/-
Properties follow the receiver. What an object has in a field of its own it
answers with; otherwise the nearest method on the chain of its class is attached
to it, as a function of its own that means the object by `this` and shares all
other names with the method. Where a method mentions `this`, the object is the
one it was attached to, so `this.x()` starts from the class of that object again,
however far above it the method was found.

No run takes a field away from an object, changes a method, or has a class call
another method by a name: fields come from `this.x = v` and its like, one at a
time, and methods from the statement of the class.
-/
import Lox.Proofs.Growth.Fields
import Lox.Proofs.Construct.Constructor

namespace Lox

open Lockstep (run_bind_ok run_bind_error)
open Machine

-- ================================================================ vocabulary

/-- A method was taken from an object. What it yields is a new function, with the code of the method;
it means the object by `this`, now and later, and by every other name what the method means by it.
Nothing that there was has changed. -/
structure Machine.Attaches (k : Machine) (f : FunctionId) (o : ObjectId) (g : FunctionId)
    (k' : Machine) : Prop where
  binds : k.Binds f o g k'
  fresh : k.heap.functions[g]? = none
  this : ∀ later, k'.Persists later →
    later.heap.scopes.local? k.heap.scopes.next "this" = some (.object o)
  captured : ∀ later code, k'.Persists later → later.heap.Grounded →
    k.heap.functions[f]? = some code → ∀ name, name ≠ "this" →
      later.heap.scopes.get? k.heap.scopes.next name = later.heap.scopes.get? code.scope name
  frames : ∀ frame, frame < k.heap.scopes.next →
    k'.heap.scopes.bindings frame = k.heap.scopes.bindings frame
      ∧ k'.heap.scopes.enclosing? frame = k.heap.scopes.enclosing? frame
  functions : ∀ (f : FunctionId) (code : Closure), k.heap.functions[f]? = some code →
    k'.heap.functions[f]? = some code
  classes : k'.heap.classes = k.heap.classes
  objects : k'.heap.objects = k.heap.objects
  machine : k' = { k with heap := k'.heap }

/-- What comes of reading a property of an object of a class: its own field, or else the nearest
method of the class, or else the fault of the name. -/
structure Machine.Answers (m : Machine) (o : ObjectId) (c : ClassId) (name : Token)
    (r : EStateM.Result Stop Machine Value) : Prop where
  field : ∀ value, m.heap.field? o name.lexeme = some value → r = .ok value m
  method : ∀ f, m.heap.field? o name.lexeme = none → m.heap.Nearest name.lexeme c f →
    ∃ g m', r = .ok (.function g) m' ∧ m.Attaches f o g m'
  missing : m.heap.field? o name.lexeme = none → (∀ f, ¬ m.heap.Nearest name.lexeme c f) →
    ∃ fault, r = .error (.fault fault) m ∧ fault.token = some name
      ∧ fault.cause.message = "Undefined property '" ++ name.lexeme ++ "'."

/-- `this` means an object at a place: the place lies in a frame that was made when a method was
bound to the object. -/
structure Machine.Serves (k : Machine) (id : NodeId) (keyword : Token) (o : ObjectId)
    (data : ObjectData) : Prop where
  there : k.heap.objects[o]? = some data
  bound : ∃ distance frame, k.heap.scopes.ancestor? k.scope distance = some frame
    ∧ k.heap.scopes.bindings frame = Bindings.empty.set "this" (.object o)
    ∧ k.BoundTo Session.Reached frame o
  evaluated : ∀ fuel room, Eval.evaluate (fuel + 1) room (.this id keyword) k = .ok (.object o) k

/-- Whatever may run from a machine on, and the machines that it comes to or leaves behind. -/
inductive Machine.Leads (k : Machine) : Machine → Prop
  | evaluated (host : Host) (fuel room : Nat) (e : Expr) :
      k.Leads (((Eval.hostedRunner host fuel).evaluate room e).left k)
  | executed (host : Host) (fuel room : Nat) (s : Stmt) :
      k.Leads (((Eval.hostedRunner host fuel).execute room s).left k)
  | interpreted (host : Host) (fuel room : Nat) (body : List Stmt) :
      k.Leads ((Eval.interpretOn host fuel room body).left k)
  | passed {host : Host} {fuel room : Nat} {body : List Stmt} {node : Node} {k' : Machine}
      (passes : Passes host fuel room body k node k') : k.Leads k'

variable {w : Chronicle} {origin : Heap} {k k' m m' : Machine} {o : ObjectId} {data : ObjectData}
  {name : Token} {f : FunctionId} {code : Closure} {id : NodeId} {keyword : Token}
  {fuel room : Nat} {object value : Expr}

-- =================================================================== reading

/-- A method that is attached lies in a frame of its own, inside the frame of the method. -/
theorem Machine.attaches_binding (hcode : k.heap.functions[f]? = some code) (o : ObjectId) :
    k.Attaches f o k.heap.functions.size (k.binding code o) := by
  have henclosing := enclosing?_addFrame k code.scope (Bindings.empty.set "this" (.object o))
  have hbindings := bindings_addFrame k code.scope (Bindings.empty.set "this" (.object o))
  have hthis : ((k.binding code o).heap.scopes.local? k.heap.scopes.next "this").isSome := by
    rw [local?_of_bindings hbindings]
    rfl
  have hlater : ∀ later, (k.binding code o).Persists later →
      later.heap.scopes.bindings k.heap.scopes.next = Bindings.empty.set "this" (.object o) :=
    fun later hp => (hp.special _ "this" (.inl rfl) hthis).trans hbindings
  constructor
  case binds => exact ⟨code, hcode, Array.getElem?_push_size, henclosing, hbindings⟩
  case fresh => exact Array.getElem?_eq_none (Nat.le_refl _)
  case this => exact fun later hp => local?_of_bindings (hlater later hp)
  case captured =>
    intro later code' hp hg hcode' name hname
    obtain rfl : code' = code := Option.some.inj (hcode'.symm.trans hcode)
    have hlacks : later.heap.scopes.local? k.heap.scopes.next name = none := by
      rw [Forest.local?, hlater later hp, Bindings.find?_set_of_ne _ (Ne.symm hname)]
      rfl
    rw [hg.scopes_layered.get?_of_enclosed (hp.enclosing_some henclosing), hlacks, Option.none_or]
  case frames =>
    intro frame hframe
    refine ⟨Forest.bindings_grow_of_lt _ _ hframe, ?_⟩
    show (k.heap.scopes.grow _ _).enclosing? frame = _
    rw [Forest.enclosing?_grow, if_neg (Nat.ne_of_lt hframe)]
  case functions => exact fun f code hf => getElem?_push_of_some hf
  case classes => rfl
  case objects => rfl
  case machine => rfl

/-- The field comes first. -/
theorem Eval.getProperty_of_field {v : Value} (ho : m.heap.objects[o]? = some data)
    (hfield : m.heap.field? o name.lexeme = some v) :
    Eval.getProperty (.object o) name m = .ok v m := by
  rw [Heap.field?, ho, Option.bind_some] at hfield
  unfold Eval.getProperty
  dsimp only
  rw [run_bind_ok (objectData_eq ho), hfield]
  rfl

/-- What is no field is looked for in the class. -/
theorem Eval.getProperty_of_lacks (ho : m.heap.objects[o]? = some data)
    (hlacks : m.heap.field? o name.lexeme = none) :
    Eval.getProperty (.object o) name m = Eval.boundMethod data.cls name (.object o) m := by
  rw [Heap.field?, ho, Option.bind_some] at hlacks
  unfold Eval.getProperty
  dsimp only
  rw [run_bind_ok (objectData_eq ho), hlacks]

/-- The nearest method is attached to the object. -/
theorem Machine.CameFrom.getProperty_eq (hm : m.CameFrom origin)
    (ho : m.heap.objects[o]? = some data) (hlacks : m.heap.field? o name.lexeme = none)
    (hf : m.heap.Nearest name.lexeme data.cls f) (hcode : m.heap.functions[f]? = some code) :
    Eval.getProperty (.object o) name m
      = .ok (.function m.heap.functions.size) (m.binding code o) := by
  rw [Eval.getProperty_of_lacks ho hlacks]
  exact Eval.boundMethod_eq hm.grounded.layered hf hcode (.object o)

theorem Machine.CameFrom.answers (hm : m.CameFrom origin) (ho : m.heap.objects[o]? = some data)
    (name : Token) : m.Answers o data.cls name (Eval.getProperty (.object o) name m) := by
  constructor
  case field => exact fun value hfield => Eval.getProperty_of_field ho hfield
  case method =>
    intro f hlacks hf
    have hfind := (Heap.findMethod?_eq_some_iff hm.grounded.layered data.cls).2 hf
    obtain ⟨code, hcode⟩ := hm.grounded.exists_code hfind
    exact ⟨_, _, hm.getProperty_eq ho hlacks hf hcode, attaches_binding hcode o⟩
  case missing =>
    intro hlacks hnone
    rw [Eval.getProperty_of_lacks ho hlacks,
      Eval.boundMethod_eq_error hm.grounded.layered hnone (.object o)]
    exact ⟨_, rfl, rfl, rfl⟩

-- ================================================================ evaluation

/-- What is evaluated is on the heap that evaluation leaves behind. -/
theorem Machine.CameFrom.evaluate (hm : m.CameFrom origin) {e : Expr} {v : Value}
    (evaluated : Eval.evaluate fuel room e m = .ok v m') : m.Grows m' ∧ m'.heap.Has v :=
  ((Tends.runner origin fuel).evaluate room e hm).of_ok evaluated

theorem Machine.CameFrom.evaluateAll (hm : m.CameFrom origin) {es : List Expr} {vs : List Value}
    (evaluated : Eval.evaluateAll (Eval.runner fuel) room es m = .ok vs m') : m.Grows m' :=
  (((Tends.runner origin fuel).evaluateAll hm es).of_ok evaluated).1

/-- A property of an object is read where evaluation of the object ends. -/
theorem Machine.CameFrom.answers_get (hk : k.CameFrom origin) (id : NodeId) (name : Token)
    (evaluated : Eval.evaluate fuel room object k = .ok (.object o) m) :
    ∃ data, m.heap.objects[o]? = some data
      ∧ m.Answers o data.cls name (Eval.evaluate (fuel + 1) room (.get id object name) k) := by
  obtain ⟨hgrows, ho⟩ := hk.evaluate evaluated
  have hm := hk.later hgrows
  have hread : Eval.evaluate (fuel + 1) room (.get id object name) k
      = Eval.getProperty (.object o) name m := run_bind_ok evaluated
  rw [hread]
  exact ⟨_, Array.getElem?_eq_getElem ho, hm.answers (Array.getElem?_eq_getElem ho) name⟩

/-- A property is set where evaluation of its value ends, and nothing else is. -/
theorem Machine.CameFrom.sets (hk : k.CameFrom origin) (id : NodeId) (name : Token) {v : Value}
    (evaluated : Eval.evaluate fuel room object k = .ok (.object o) m)
    (given : Eval.evaluate fuel room value m = .ok v m') :
    ∃ after, Eval.evaluate (fuel + 1) room (.set id object name value) k = .ok v after
      ∧ after = { m' with heap := after.heap }
      ∧ after.heap = m'.heap.apply (.field o name.lexeme v)
      ∧ m'.heap.OnlySets o name.lexeme v after.heap := by
  obtain ⟨hgrows, ho⟩ := hk.evaluate evaluated
  obtain ⟨hgrows', -⟩ := (hk.later hgrows).evaluate given
  have ho' : o < m'.heap.objects.size := hgrows'.kept.lt_objects ho
  refine ⟨{ m' with heap := m'.heap.setField o name.lexeme v }, ?_, rfl, rfl,
    Heap.onlySets_setField ho' name.lexeme v⟩
  have hset : Eval.evaluate (fuel + 1) room (.set id object name value) k = (do
      let v ← Eval.evaluate fuel room value
      Eval.setProperty o name v
      pure v) m := run_bind_ok evaluated
  rw [hset, run_bind_ok given]
  rfl

/-- Whatever runs makes the heap grow. -/
theorem Machine.Leads.becomes (h : k.Leads k') (hk : k.CameFrom origin) :
    ∃ changes, k.heap.Becomes changes k'.heap := by
  cases h with
  | evaluated host fuel room e =>
      exact ((Tends.hosted origin host fuel).evaluate room e hk).grows.2
  | executed host fuel room s =>
      exact ((Tends.hosted origin host fuel).execute room s hk).grows.2
  | interpreted host fuel room body => exact (grows_interpretOn hk host fuel room body).2
  | passed passes => exact (passes.cameFrom ⟨hk.grounded, ⟨[], .still⟩, hk.inside⟩).became

-- ================================================================== receivers

/-- The frame at the distance of `this` binds it. -/
theorem Chain.receiver {past : Node → Machine → Prop} {frame : FrameId} {scopes : Scopes}
    {cls : Option ClassDecl} {distance : Nat} (h : Chain past m frame scopes cls)
    (hthis : scopes.distance? "this" = some distance) :
    ∃ inside, m.heap.scopes.ancestor? frame distance = some inside
      ∧ (m.heap.scopes.local? inside "this").isSome := by
  induction h generalizing distance with
  | top => cases hthis
  | @inner frame outer scope scopes cls around enclosed ordinary free ih =>
      rw [Scopes.distance?_cons, free "this" (.inl rfl), if_neg nofun] at hthis
      obtain ⟨d, hd, rfl⟩ := Option.map_eq_some_iff.1 hthis
      obtain ⟨inside, hinside, hbound⟩ := ih hd
      refine ⟨inside, ?_, hbound⟩
      show (m.heap.scopes.enclosing? frame).bind _ = some inside
      rw [enclosed]
      exact hinside
  | method around alone enclosed bound | submethod around between above made enclosed bound =>
      rw [Scopes.distance?_cons, if_pos (by decide)] at hthis
      cases hthis
      exact ⟨_, rfl, bound⟩

/-- At a moment of a session the machine is in order. -/
theorem Session.Reached.exists_meets {node : Node} (h : Session.Reached node k) :
    ∃ bodies, (Session.chronicle bodies).Meets node k := by
  obtain ⟨bodies, s, s', text, label, body, fuel, room, before, accepted, henters⟩ := h
  exact ⟨body :: bodies,
    ((run_of_prepares (framed_of_history before) before accepted fuel room).2 _ _ henters).1⟩

/-- Where `this` is mentioned it means an object. -/
theorem Machine.Framed.exists_serves {bodies : List (List Stmt)} {cls : Option ClassDecl}
    {visit : Visit} (hk : k.Framed (Session.chronicle bodies))
    (ha : k.Place (Session.chronicle bodies) visit.scopes cls)
    (hvisited : (Session.chronicle bodies).Visited visit)
    (hthis : visit.node = .expression (.this id keyword)) :
    ∃ o data, k.Serves id keyword o data := by
  obtain ⟨v, hv, hnode, hscopes⟩ := hvisited
  rw [hthis] at hnode
  rw [← hscopes] at ha
  have hsound := hk.sound v hv
  obtain ⟨distance, hthis⟩ := Option.isSome_iff_exists.1 (hsound.this_bound hnode)
  have hlinked : k.distances[id]? = some distance := by
    have hall := hsound.linked "this" (by rw [hnode]; rfl)
    rw [hnode, hthis] at hall
    exact hall
  have hkeyword : keyword.lexeme = "this" := by
    have hproper := hsound.proper
    rw [hnode] at hproper
    exact hproper
  obtain ⟨frame, hframe, hbound⟩ := ha.chain.receiver hthis
  obtain ⟨o, ho, hreceiver, hboundTo⟩ := hk.receivers frame hbound
  refine ⟨o, k.heap.objects[o], Array.getElem?_eq_getElem ho,
    ⟨distance, frame, hframe, hreceiver, hboundTo⟩, ?_⟩
  exact evaluate_this hkeyword hlinked (Lockstep.getAt_eq hframe (local?_of_bindings hreceiver))

/-- A property of `this` is a property of the object. -/
theorem Machine.Serves.evaluate_get (h : k.Serves id keyword o data) (id' : NodeId) (name : Token)
    (fuel room : Nat) :
    Eval.evaluate (fuel + 2) room (.get id' (.this id keyword) name) k
      = Eval.getProperty (.object o) name k :=
  run_bind_ok (h.evaluated fuel room)

/-- A call of a method of `this` is a call of the nearest method of the object's own class. -/
theorem Machine.Serves.calls {bodies : List (List Stmt)} {call get : NodeId} {paren : Token}
    {arguments : List Expr} {values : List Value} {given : Machine} (hk : k.CameFrom origin)
    (hmeets : (Session.chronicle bodies).Meets
      (.expression (.call call (.get get (.this id keyword) name) paren arguments)) k)
    (h : k.Serves id keyword o data) (hlacks : k.heap.field? o name.lexeme = none)
    (hf : k.heap.Nearest name.lexeme data.cls f) (hcode : k.heap.functions[f]? = some code)
    (supplied : Eval.evaluateAll (Eval.runner (fuel + 2)) room arguments (k.binding code o)
      = .ok values given) :
    given.CallsFunction (fuel + 2) room k.heap.functions.size
      ⟨code.declaration, k.heap.scopes.next, code.isInitializer⟩ values paren
      (Eval.evaluate (fuel + 3) room
        (.call call (.get get (.this id keyword) name) paren arguments) k) := by
  have hget : Eval.evaluate (fuel + 2) room (.get get (.this id keyword) name) k
      = .ok (.function k.heap.functions.size) (k.binding code o) := by
    rw [h.evaluate_get get name]
    exact hk.getProperty_eq h.there hlacks hf hcode
  obtain ⟨own, hcalls⟩ := hmeets.callsFunction hget supplied
  -- The copy is what it was when the arguments have been evaluated.
  have hbound : (k.binding code o).CameFrom origin := hk.later (hk.evaluate hget).1
  have hown := (hbound.evaluateAll supplied).kept.functions _ _ Array.getElem?_push_size
  obtain rfl := Option.some.inj (hcalls.there.symm.trans hown)
  exact hcalls

-- ================================================================== sessions

/-- **Properties follow the receiver.** In whatever state a session of accepted programs is, or one
of its programs while it runs, an object answers with its own field if it was ever set, with the value
set last; otherwise with the nearest method on the chain of its class, attached to it; otherwise with
the fault of the name. To set a property changes that field of that object and nothing else. Nothing
that runs takes a field away or changes what a class calls by a name. And a property of `this`, read or
called, is one of the object that the method was attached to, and is looked for from its class on. -/
theorem property_follows_receiver (h : Session.Reachable k) :
    (∀ (o : ObjectId) data name, k.heap.objects[o]? = some data →
        k.Answers o data.cls name (Eval.getProperty (.object o) name k))
      ∧ (∃ changes, Heap.initial.Becomes changes k.heap)
      ∧ (∀ changes, Heap.initial.Becomes changes k.heap → ∀ o name,
          k.heap.field? o name = changes.reverse.findSome? (Heap.Change.sets? o name))
      ∧ (∀ fuel room id object name o m,
          Eval.evaluate fuel room object k = .ok (.object o) m →
          ∃ data, m.heap.objects[o]? = some data
            ∧ m.Answers o data.cls name (Eval.evaluate (fuel + 1) room (.get id object name) k))
      ∧ (∀ fuel room id object name value o m v m',
          Eval.evaluate fuel room object k = .ok (.object o) m →
          Eval.evaluate fuel room value m = .ok v m' →
          ∃ after, Eval.evaluate (fuel + 1) room (.set id object name value) k = .ok v after
            ∧ after = { m' with heap := after.heap }
            ∧ after.heap = m'.heap.apply (.field o name.lexeme v)
            ∧ m'.heap.OnlySets o name.lexeme v after.heap)
      ∧ (∀ k', k.Leads k' → k.heap.Extends k'.heap
          ∧ (∀ o name, (k.heap.field? o name).isSome → (k'.heap.field? o name).isSome)
          ∧ ∀ c name, c < k.heap.classes.size →
              k'.heap.findMethod? c name = k.heap.findMethod? c name)
      ∧ (∀ id this keyword name,
          Session.Reached (.expression (.get id (.this this keyword) name)) k →
          ∃ o data, k.Serves this keyword o data ∧ ∀ fuel room,
            k.Answers o data.cls name
              (Eval.evaluate (fuel + 2) room (.get id (.this this keyword) name) k))
      ∧ ∀ call id this keyword name paren arguments,
          Session.Reached
            (.expression (.call call (.get id (.this this keyword) name) paren arguments)) k →
          ∃ o data, k.Serves this keyword o data ∧ ∀ f code,
            k.heap.field? o name.lexeme = none → k.heap.Nearest name.lexeme data.cls f →
            k.heap.functions[f]? = some code → ∀ fuel room values given,
              Eval.evaluateAll (Eval.runner (fuel + 2)) room arguments (k.binding code o)
                = .ok values given →
              given.CallsFunction (fuel + 2) room k.heap.functions.size
                ⟨code.declaration, k.heap.scopes.next, code.isInitializer⟩ values paren
                (Eval.evaluate (fuel + 3) room
                  (.call call (.get id (.this this keyword) name) paren arguments) k) := by
  have hk := h.cameFrom
  refine ⟨?_, hk.became, ?_, ?_, ?_, ?_, ?_, ?_⟩
  · exact fun o data name ho => hk.answers ho name
  · exact fun changes hb o name => hb.field?_of_initial o name
  · exact fun fuel room id object name o m evaluated => hk.answers_get id name evaluated
  · exact fun fuel room id object name value o m v m' evaluated given =>
      hk.sets id name evaluated given
  · intro k' hleads
    obtain ⟨changes, hb⟩ := hleads.becomes hk
    refine ⟨hb.kept, fun o name hsome => hb.isSome_field? hsome, fun c name hc => ?_⟩
    exact hb.kept.findMethod?_eq hk.grounded hc name
  · intro id this keyword name hreached
    obtain ⟨bodies, hframed, around, scopes, cls, hplace, hknown⟩ := hreached.exists_meets
    obtain ⟨o, data, hserves⟩ := hframed.exists_serves hplace hknown.tail.head.1 rfl
    refine ⟨o, data, hserves, fun fuel room => ?_⟩
    rw [hserves.evaluate_get id name]
    exact hk.answers hserves.there name
  · intro call id this keyword name paren arguments hreached
    obtain ⟨bodies, hmeets⟩ := hreached.exists_meets
    have hplaced := hmeets
    obtain ⟨hframed, around, scopes, cls, hplace, hknown⟩ := hplaced
    obtain ⟨o, data, hserves⟩ := hframed.exists_serves hplace hknown.tail.first.tail.head.1 rfl
    refine ⟨o, data, hserves, fun f code hlacks hf hcode fuel room values given supplied => ?_⟩
    exact hserves.calls hk hmeets hlacks hf hcode supplied

/-- A program with an object of a subclass, one of whose methods is hidden by a field. -/
def overridingFieldText : List Char :=
  ("class A \x7b m() \x7b return this.x(); \x7d x() \x7b \x7d \x7d "
    ++ "class B < A \x7b x() \x7b \x7d y() \x7b \x7d \x7d var b = B(); b.y = nil;").toList

/-- Whether a run leaves an object of the second class that has `nil` in its field `y` and none of the
other fields, and for which `x` is a method of its own class, `m` one of the class above, and `z`
none. -/
def leavesOverriding (fuel room : Nat) (body : List Stmt) (s : Session) : Bool :=
  match Eval.interpret fuel room body s.machine with
  | .ok _ m =>
    m.heap.objects[0]?.any (fun data => data.cls == 1)
      && (match m.heap.field? 0 "y" with
        | some .nil => true
        | _ => false)
      && ["x", "m", "z"].all (fun name => (m.heap.field? 0 name).isNone)
      && m.heap.findMethod? 1 "x" == some 2 && m.heap.findMethod? 1 "m" == some 0
      && m.heap.findMethod? 1 "z" == none
  | _ => false

theorem property_follows_receiver_overriding :
    ∃ body s' m, (Session.start false 0).Prepares overridingFieldText "" body s'
      ∧ Eval.interpret 60 9 body s'.machine = .ok () m
      ∧ ∀ name : Token,
        (name.lexeme = "y" → Eval.getProperty (.object 0) name m = .ok .nil m)
          ∧ (name.lexeme = "x" → ∃ g k,
            Eval.getProperty (.object 0) name m = .ok (.function g) k ∧ m.Attaches 2 0 g k)
          ∧ (name.lexeme = "m" → ∃ g k,
            Eval.getProperty (.object 0) name m = .ok (.function g) k ∧ m.Attaches 0 0 g k)
          ∧ (name.lexeme = "z" → ∃ fault,
            Eval.getProperty (.object 0) name m = .error (.fault fault) m) := by
  have hcheck : (Session.start false 0).accepting overridingFieldText (leavesOverriding 60 9)
      = true := by decide +kernel
  obtain ⟨body, s', accepted, hleaves⟩ := Session.exists_of_accepting hcheck
  unfold leavesOverriding at hleaves
  split at hleaves
  · rename_i m hran
    simp only [Bool.and_eq_true, beq_iff_eq, List.all_cons, List.all_nil, Option.isNone_iff_eq_none,
      and_true] at hleaves
    obtain ⟨⟨⟨⟨⟨hobject, hnil⟩, hx, hm, hz⟩, hmethodx⟩, hmethodm⟩, hmethodz⟩ := hleaves
    have hreachable := Session.Reachable.left
      ((Session.Lived.start false 0).interpreted accepted 60 9)
    rw [Intact.left_of_ok hran] at hreachable
    have hiff : ∀ name f, m.heap.findMethod? 1 name = some f ↔ m.heap.Nearest name 1 f :=
      fun _ _ => Heap.findMethod?_eq_some_iff hreachable.cameFrom.grounded.layered 1
    obtain ⟨data, ho, hcls⟩ := Option.any_eq_true .. |>.1 hobject
    have hanswers := (property_follows_receiver hreachable).1 0 data
    rw [beq_iff_eq.1 hcls] at hanswers
    refine ⟨body, s', m, accepted, hran, fun name => ⟨?_, ?_, ?_, ?_⟩⟩
    · intro hname
      apply (hanswers name ho).field
      rw [hname]
      split at hnil
      · assumption
      · cases hnil
    · intro hname
      apply (hanswers name ho).method
      · rw [hname, hx]
      · rw [hname]
        exact (hiff "x" 2).1 hmethodx
    · intro hname
      apply (hanswers name ho).method
      · rw [hname, hm]
      · rw [hname]
        exact (hiff "m" 0).1 hmethodm
    · intro hname
      have hmissing : ∀ f, ¬ m.heap.Nearest name.lexeme 1 f := by
        rw [hname]
        intro f hf
        rw [(hiff "z" f).2 hf] at hmethodz
        cases hmethodz
      obtain ⟨fault, hfault, -⟩ := (hanswers name ho).missing (by rw [hname, hz]) hmissing
      exact ⟨fault, hfault⟩
  · cases hleaves

end Lox
