/-
The frames of `this` and `super`. No program can name them, so whatever runs
leaves them as they were made (`Machine.Persists`). They lie on a chain of
frames where the resolver has the scopes that hold these two names, and each of
them knows the class it was made for (`Chain`): the frame of `super` was made
when the statement of that class ran (`ClassDecl.Ran`), and holds the class that
the name of the superclass meant then.

What a class was made by is an event of the past. Which moments there have been
is left open here (`past`); all that counts is that what is on a machine was
made by one of them.
-/
import Lox.Proofs.Super.Site
import Lox.Proofs.Binding.Scopes
import Lox.Proofs.Store.Forest
import Lox.Eval.Evaluate

namespace Lox

/-- A name that no program can declare. -/
def Special (name : String) : Prop := name = "this" ∨ name = "super"

theorem Token.Free.not_special {token : Token} (h : token.Free) : ¬ Special token.lexeme := by
  rintro (he | he)
  · exact h.ne_this he
  · exact h.ne_super he

namespace Machine

/-- A frame that binds neither `this` nor `super`. -/
def Ordinary (m : Machine) (frame : FrameId) : Prop :=
  ∀ name, Special name → m.heap.scopes.local? frame name = none

/-- What is settled on one machine is so on a later one: where a frame lies, the frames of `this` and
`super` with all they bind, functions, classes, and of which class an object is. -/
structure Persists (m m' : Machine) : Prop where
  next : m.heap.scopes.next ≤ m'.heap.scopes.next
  enclosing : ∀ frame, frame < m.heap.scopes.next →
    m'.heap.scopes.enclosing? frame = m.heap.scopes.enclosing? frame
  special : ∀ frame name, Special name → (m.heap.scopes.local? frame name).isSome →
    m'.heap.scopes.bindings frame = m.heap.scopes.bindings frame
  ordinary : ∀ frame, frame < m.heap.scopes.next → m.Ordinary frame → m'.Ordinary frame
  functions : ∀ (f : FunctionId) (c : Closure), m.heap.functions[f]? = some c →
    m'.heap.functions[f]? = some c
  classes : ∀ (c : ClassId) (data : ClassData), m.heap.classes[c]? = some data →
    m'.heap.classes[c]? = some data
  objects : ∀ (o : ObjectId) (data : ObjectData), m.heap.objects[o]? = some data →
    ∃ data', m'.heap.objects[o]? = some data' ∧ data'.cls = data.cls

namespace Persists

variable {a b c : Machine}

/-- Nothing but the heap counts. -/
theorem of_heap (h : b.heap = a.heap) : a.Persists b where
  next := Nat.le_of_eq (by rw [h])
  enclosing _ _ := by rw [h]
  special _ _ _ _ := by rw [h]
  ordinary _ _ ho name hname := by
    rw [h]
    exact ho name hname
  functions _ _ hf := by rwa [h]
  classes _ _ hc := by rwa [h]
  objects _ data ho := ⟨data, by rwa [h], rfl⟩

theorem refl (a : Machine) : a.Persists a := of_heap rfl

/-- A frame that binds a special name binds what it did. -/
theorem local?_eq (h : a.Persists b) {frame : FrameId} {name : String} (hname : Special name)
    (hsome : (a.heap.scopes.local? frame name).isSome) :
    b.heap.scopes.local? frame name = a.heap.scopes.local? frame name := by
  unfold Forest.local?
  rw [h.special frame name hname hsome]

theorem trans (h : a.Persists b) (h' : b.Persists c) : a.Persists c where
  next := Nat.le_trans h.next h'.next
  enclosing frame hlt := by
    rw [h'.enclosing frame (Nat.lt_of_lt_of_le hlt h.next), h.enclosing frame hlt]
  special frame name hname hsome := by
    have hthen : (b.heap.scopes.local? frame name).isSome := by rwa [h.local?_eq hname hsome]
    rw [h'.special frame name hname hthen, h.special frame name hname hsome]
  ordinary frame hlt ho :=
    h'.ordinary frame (Nat.lt_of_lt_of_le hlt h.next) (h.ordinary frame hlt ho)
  functions f k hf := h'.functions f k (h.functions f k hf)
  classes k data hk := h'.classes k data (h.classes k data hk)
  objects o data ho := by
    obtain ⟨then', hthen, he⟩ := h.objects o data ho
    obtain ⟨last, hlast, he'⟩ := h'.objects o then' hthen
    exact ⟨last, hlast, he'.trans he⟩

theorem enclosing_some (h : a.Persists b) {frame outer : FrameId}
    (he : a.heap.scopes.enclosing? frame = some outer) :
    b.heap.scopes.enclosing? frame = some outer := by
  rw [h.enclosing frame (Forest.lt_next_of_enclosing? he), he]

theorem lt_objects (h : a.Persists b) {o : ObjectId} (hlt : o < a.heap.objects.size) :
    o < b.heap.objects.size := by
  obtain ⟨data, hdata, -⟩ := h.objects o _ (Array.getElem?_eq_getElem hlt)
  exact (Array.getElem?_eq_some_iff.1 hdata).1

theorem lt_classes (h : a.Persists b) {k : ClassId} (hlt : k < a.heap.classes.size) :
    k < b.heap.classes.size :=
  (Array.getElem?_eq_some_iff.1 (h.classes k _ (Array.getElem?_eq_getElem hlt))).1

end Persists

end Machine

-- ================================================================== the past

/-- The statement of a class ran from one machine to another. The name of the superclass was
evaluated first and meant a class; the frame of the methods was the next to be made. -/
inductive ClassDecl.Ran (S : ClassDecl) (start : Machine) : FrameId → ClassId → Machine → Prop
  | intro {fuel room : Nat} {parent : NameRef} {c : ClassId} {between after : Machine}
      (named : S.superclass = some parent)
      (evaluated : (do
        Eval.noteStatement S.statement
        Eval.superclassValue (Eval.runner fuel) room parent) start = .ok c between)
      (executed : Eval.execute (fuel + 1) room S.statement start = .ok .normal after) :
      S.Ran start between.heap.scopes.next c after

section

variable (past : Node → Machine → Prop)

/-- An expression of the past had come to the object to which a method was to be bound: it read a
property of the object, it mentioned `super` where `this` was the object, or it called a class and the
object was new. -/
inductive Receives (o : ObjectId) : Machine → Prop
  | property {id : NodeId} {object : Expr} {name : Token} {k start : Machine} {fuel room : Nat}
      (entered : past (.expression (.get id object name)) k)
      (evaluated : (Eval.runner fuel).evaluate room object k = .ok (.object o) start) :
      Receives o start
  | super {id : NodeId} {keyword method : Token} {start : Machine} {distance : Nat}
      (entered : past (.expression (.super id keyword method)) start)
      (linked : start.distances[id]? = some distance)
      (held : Eval.getAt start.scope (distance - 1) "this" start = .ok (.object o) start) :
      Receives o start
  | fresh {id : NodeId} {callee : Expr} {paren : Token} {arguments : List Expr}
      {k called given start : Machine} {c : ClassId} {values : List Value} {fuel room : Nat}
      (entered : past (.expression (.call id callee paren arguments)) k)
      (evaluated : (Eval.runner fuel).evaluate room callee k = .ok (.cls c) called)
      (supplied : Eval.evaluateAll (Eval.runner fuel) room arguments called = .ok values given)
      (made : Eval.newObject ⟨c, .empty⟩ given = .ok o start) : Receives o start

/-- A frame was made when a method was bound to an object, at some moment of the past. -/
def Machine.BoundTo (m : Machine) (frame : FrameId) (o : ObjectId) : Prop :=
  ∃ (start after : Machine) (method f : FunctionId), Receives past o start
    ∧ Eval.bindMethod method (.object o) start = .ok f after ∧ frame = start.heap.scopes.next
    ∧ after.Persists m

/-- A frame was made for the methods of a class by its statement, at some moment of the past, and the
superclass was evaluated to a class then. -/
def ClassDecl.Made (S : ClassDecl) (m : Machine) (frame : FrameId) (c : ClassId) : Prop :=
  ∃ start after, past (.statement S.statement) start ∧ S.Ran start frame c after
    ∧ after.Persists m

/-- A frame that binds `this` binds nothing else; it was made for a method, and what it binds is the
object to which the method was bound. A frame that binds `super` binds nothing else; it was made for
the methods of a class, and what it binds is the superclass. -/
structure Machine.Tidy (m : Machine) : Prop where
  receivers : ∀ frame, (m.heap.scopes.local? frame "this").isSome →
    ∃ o, o < m.heap.objects.size
      ∧ m.heap.scopes.bindings frame = Bindings.empty.set "this" (.object o)
      ∧ m.BoundTo past frame o
  parents : ∀ frame, (m.heap.scopes.local? frame "super").isSome →
    ∃ (S : ClassDecl) (c : ClassId), c < m.heap.classes.size
      ∧ m.heap.scopes.bindings frame = Bindings.empty.set "super" (.cls c)
      ∧ S.Made past m frame c

/-- The frame in which the methods of a class lie, inside the frame of the class. -/
inductive Home (m : Machine) (S : ClassDecl) (outer : FrameId) : FrameId → Prop
  | plain (alone : S.superclass = none) : Home m S outer outer
  | below {base : FrameId} {c : ClassId} {parent : NameRef} (named : S.superclass = some parent)
      (enclosed : m.heap.scopes.enclosing? base = some outer)
      (bound : m.heap.scopes.bindings base = Bindings.empty.set "super" (.cls c))
      (made : S.Made past m base c) : Home m S outer base

/-- The scopes of the resolver along a chain of frames, with the innermost class around. The scopes
of `this` and `super` have frames that were made for that class. -/
inductive Chain (m : Machine) : FrameId → Scopes → Option ClassDecl → Prop
  | top : Chain m globalFrame [] none
  | inner {frame outer : FrameId} {scope : Scope} {scopes : Scopes} {cls : Option ClassDecl}
      (around : Chain m outer scopes cls) (enclosed : m.heap.scopes.enclosing? frame = some outer)
      (ordinary : m.Ordinary frame)
      (free : ∀ name, Special name → scope.binds name = false) :
      Chain m frame (scope :: scopes) cls
  | method {frame outer : FrameId} {scopes : Scopes} {cls : Option ClassDecl} {S : ClassDecl}
      (around : Chain m outer scopes cls) (alone : S.superclass = none)
      (enclosed : m.heap.scopes.enclosing? frame = some outer)
      (bound : (m.heap.scopes.local? frame "this").isSome) :
      Chain m frame (.holding "this" :: scopes) (some S)
  | submethod {frame base outer : FrameId} {scopes : Scopes} {cls : Option ClassDecl}
      {S : ClassDecl} {c : ClassId}
      (around : Chain m outer scopes cls) (between : m.heap.scopes.enclosing? base = some outer)
      (above : m.heap.scopes.bindings base = Bindings.empty.set "super" (.cls c))
      (made : S.Made past m base c)
      (enclosed : m.heap.scopes.enclosing? frame = some base)
      (bound : (m.heap.scopes.local? frame "this").isSome) :
      Chain m frame (.holding "this" :: .holding "super" :: scopes) (some S)

end

variable {past : Node → Machine → Prop} {m m' : Machine} {frame outer base : FrameId}
  {scope : Scope} {scopes : Scopes} {cls : Option ClassDecl} {S : ClassDecl} {name : String}
  {distance : Nat}

theorem local?_of_bindings {name : String} {value : Value}
    (h : m.heap.scopes.bindings frame = Bindings.empty.set name value) :
    m.heap.scopes.local? frame name = some value := by
  unfold Forest.local?
  rw [h]
  exact Bindings.find?_set_self _ _ _

-- ==================================================== what stays as it was

theorem ClassDecl.Made.mono {c : ClassId} (h : S.Made past m frame c) (hm : m.Persists m') :
    S.Made past m' frame c := by
  obtain ⟨start, after, hpast, hran, hafter⟩ := h
  exact ⟨start, after, hpast, hran, hafter.trans hm⟩

theorem Machine.BoundTo.mono {o : ObjectId} (h : m.BoundTo past frame o) (hm : m.Persists m') :
    m'.BoundTo past frame o := by
  obtain ⟨start, after, method, f, hreceives, hbind, hframe, hafter⟩ := h
  exact ⟨start, after, method, f, hreceives, hbind, hframe, hafter.trans hm⟩

/-- A frame that holds `super` holds it ever after. -/
theorem Machine.Persists.parent (hm : m.Persists m') {c : ClassId}
    (h : m.heap.scopes.bindings frame = Bindings.empty.set "super" (.cls c)) :
    m'.heap.scopes.bindings frame = Bindings.empty.set "super" (.cls c) := by
  have hsome : (m.heap.scopes.local? frame "super").isSome := by rw [local?_of_bindings h]; rfl
  rw [hm.special frame "super" (.inr rfl) hsome, h]

theorem Machine.Persists.receiver (hm : m.Persists m')
    (h : (m.heap.scopes.local? frame "this").isSome) :
    (m'.heap.scopes.local? frame "this").isSome := by
  rwa [hm.local?_eq (.inl rfl) h]

theorem Home.mono (h : Home past m S outer base) (hm : m.Persists m') :
    Home past m' S outer base := by
  cases h with
  | plain alone => exact .plain alone
  | below named enclosed bound made =>
      exact .below named (hm.enclosing_some enclosed) (hm.parent bound) (made.mono hm)

theorem Chain.mono (h : Chain past m frame scopes cls) (hm : m.Persists m') :
    Chain past m' frame scopes cls := by
  induction h with
  | top => exact .top
  | inner _ enclosed ordinary free ih =>
      exact .inner ih (hm.enclosing_some enclosed)
        (hm.ordinary _ (Forest.lt_next_of_enclosing? enclosed) ordinary) free
  | method _ alone enclosed bound ih =>
      exact .method ih alone (hm.enclosing_some enclosed) (hm.receiver bound)
  | submethod _ between above made enclosed bound ih =>
      exact .submethod ih (hm.enclosing_some between) (hm.parent above) (made.mono hm)
        (hm.enclosing_some enclosed) (hm.receiver bound)

/-- Inside of the frame of the methods lies the frame of `this`. -/
theorem Home.chain (h : Home past m S outer base) (ha : Chain past m outer scopes cls)
    (enclosed : m.heap.scopes.enclosing? frame = some base)
    (bound : (m.heap.scopes.local? frame "this").isSome) :
    Chain past m frame (scopes.ofMethods S.superclass) (some S) := by
  cases h with
  | plain alone =>
      rw [alone]
      exact .method ha alone enclosed bound
  | below named between above made =>
      rw [named]
      exact .submethod ha between above made enclosed bound

theorem Chain.lt_next (h : Chain past m frame scopes cls)
    (hroot : globalFrame < m.heap.scopes.next) : frame < m.heap.scopes.next := by
  cases h with
  | top => exact hroot
  | inner _ enclosed | method _ _ enclosed | submethod _ _ _ _ enclosed =>
      exact Forest.lt_next_of_enclosing? enclosed

-- ============================================================== a longer past

section

variable {past' : Node → Machine → Prop} (hpast : ∀ node k, past node k → past' node k)
include hpast

theorem Receives.relax {o : ObjectId} (h : Receives past o m) : Receives past' o m := by
  cases h with
  | property entered evaluated => exact .property (hpast _ _ entered) evaluated
  | super entered linked held => exact .super (hpast _ _ entered) linked held
  | fresh entered evaluated supplied made =>
      exact .fresh (hpast _ _ entered) evaluated supplied made

theorem Machine.BoundTo.relax {o : ObjectId} (h : m.BoundTo past frame o) :
    m.BoundTo past' frame o := by
  obtain ⟨start, after, method, f, hreceives, hrest⟩ := h
  exact ⟨start, after, method, f, hreceives.relax hpast, hrest⟩

theorem ClassDecl.Made.relax {c : ClassId} (h : S.Made past m frame c) :
    S.Made past' m frame c := by
  obtain ⟨start, after, hentered, hrest⟩ := h
  exact ⟨start, after, hpast _ _ hentered, hrest⟩

theorem Home.relax (h : Home past m S outer base) : Home past' m S outer base := by
  cases h with
  | plain alone => exact .plain alone
  | below named enclosed bound made => exact .below named enclosed bound (made.relax hpast)

theorem Chain.relax (h : Chain past m frame scopes cls) : Chain past' m frame scopes cls := by
  induction h with
  | top => exact .top
  | inner _ enclosed ordinary free ih => exact .inner ih enclosed ordinary free
  | method _ alone enclosed bound ih => exact .method ih alone enclosed bound
  | submethod _ between above made enclosed bound ih =>
      exact .submethod ih between above (made.relax hpast) enclosed bound

end

-- ================================================================ declaring

/-- A scope that gains a name of the program holds no special one. -/
theorem Scope.free_set {name : Token} (hname : name.Free) (ready : Bool)
    (h : ∀ other, Special other → scope.binds other = false) {other : String}
    (hother : Special other) : Bindings.binds (scope.set name.lexeme ready) other = false := by
  unfold Bindings.binds
  rw [Bindings.find?_set_of_ne]
  · exact h other hother
  · rintro rfl
    exact hname.not_special hother

/-- At a place where the frame is an ordinary one, a name can be declared. -/
theorem Chain.declare (h : Chain past m frame scopes cls) (ho : m.Ordinary frame) {name : Token}
    (hname : name.Free) : Chain past m frame (scopes.declare name).1 cls := by
  have hthis : (m.heap.scopes.local? frame "this").isSome ≠ true := by
    rw [ho "this" (.inl rfl)]
    nofun
  cases h with
  | top => exact .top
  | inner around enclosed ordinary free =>
      exact .inner around enclosed ordinary fun _ => Scope.free_set hname false free
  | method _ _ _ bound => exact absurd bound hthis
  | submethod _ _ _ _ _ bound => exact absurd bound hthis

theorem Chain.introduce (h : Chain past m frame scopes cls) (ho : m.Ordinary frame) {name : Token}
    (hname : name.Free) : Chain past m frame (scopes.introduce name).1 cls := by
  cases scopes with
  | nil => exact h
  | cons scope outer =>
      have hthis : (m.heap.scopes.local? frame "this").isSome ≠ true := by
        rw [ho "this" (.inl rfl)]
        nofun
      cases h with
      | inner around enclosed ordinary free =>
          exact .inner around enclosed ordinary fun _ hother =>
            Scope.free_set hname true (fun _ => Scope.free_set hname false free) hother
      | method _ _ _ bound => exact absurd bound hthis
      | submethod _ _ _ _ _ bound => exact absurd bound hthis

theorem Chain.introduceAll (h : Chain past m frame scopes cls) (ho : m.Ordinary frame)
    {params : List Token} (hparams : ∀ param ∈ params, param.Free) :
    Chain past m frame (scopes.introduceAll params).1 cls := by
  induction params generalizing scopes with
  | nil => exact h
  | cons name rest ih =>
      exact ih (h.introduce ho (hparams name List.mem_cons_self))
        fun param hp => hparams param (List.mem_cons_of_mem _ hp)

-- ================================================================== finding

/-- A name of the program is held by ordinary frames only. -/
theorem Chain.ancestor (h : Chain past m frame scopes cls) (hname : ¬ Special name)
    (hd : scopes.distance? name = some distance) :
    ∃ holder, m.heap.scopes.ancestor? frame distance = some holder
      ∧ holder < m.heap.scopes.next ∧ m.Ordinary holder := by
  -- One frame outwards is one scope outwards.
  have houtwards : ∀ {frame outer : FrameId} {d : Nat} {holder : FrameId},
      m.heap.scopes.enclosing? frame = some outer →
      m.heap.scopes.ancestor? outer d = some holder →
      m.heap.scopes.ancestor? frame (d + 1) = some holder := by
    intro frame outer d holder he ha
    show (m.heap.scopes.enclosing? frame).bind _ = some holder
    rw [he]
    exact ha
  have hholding : ∀ special, Special special → Bindings.binds (Scope.holding special) name = false := by
    intro special hs
    unfold Bindings.binds Scope.holding
    rw [Bindings.find?_set_of_ne]
    · rfl
    · rintro rfl
      exact hname hs
  induction h generalizing distance with
  | top => cases hd
  | @inner frame outer scope scopes cls around enclosed ordinary free ih =>
      rw [Scopes.distance?_cons] at hd
      by_cases hb : scope.binds name = true
      · rw [if_pos hb] at hd
        cases hd
        exact ⟨frame, rfl, Forest.lt_next_of_enclosing? enclosed, ordinary⟩
      · rw [if_neg hb] at hd
        obtain ⟨d, hd', rfl⟩ := Option.map_eq_some_iff.1 hd
        obtain ⟨holder, ha, ho⟩ := ih hd'
        exact ⟨holder, houtwards enclosed ha, ho⟩
  | @method frame outer scopes cls S around alone enclosed bound ih =>
      rw [Scopes.distance?_cons, hholding "this" (.inl rfl), if_neg nofun] at hd
      obtain ⟨d, hd', rfl⟩ := Option.map_eq_some_iff.1 hd
      obtain ⟨holder, ha, ho⟩ := ih hd'
      exact ⟨holder, houtwards enclosed ha, ho⟩
  | @submethod frame base outer scopes cls S c around between above made enclosed bound ih =>
      rw [Scopes.distance?_cons, hholding "this" (.inl rfl), if_neg nofun,
        Scopes.distance?_cons, hholding "super" (.inr rfl), if_neg nofun] at hd
      obtain ⟨d, hd', rfl⟩ := Option.map_eq_some_iff.1 hd
      obtain ⟨e, he, rfl⟩ := Option.map_eq_some_iff.1 hd'
      obtain ⟨holder, ha, ho⟩ := ih he
      exact ⟨holder, houtwards enclosed (houtwards between ha), ho⟩

/-- No chain begins with the frame of `super`. -/
theorem Chain.super_ne_zero (h : Chain past m frame scopes cls) :
    scopes.distance? "super" ≠ some 0 := by
  intro hd
  cases h with
  | top => cases hd
  | inner around enclosed ordinary free =>
      rw [Scopes.distance?_cons, free "super" (.inr rfl), if_neg nofun] at hd
      obtain ⟨d, -, hd'⟩ := Option.map_eq_some_iff.1 hd
      cases hd'
  | method | submethod =>
      rw [Scopes.distance?_cons, if_neg (by decide)] at hd
      obtain ⟨d, -, hd'⟩ := Option.map_eq_some_iff.1 hd
      cases hd'

/-- **The frame of `super` belongs to the innermost class.** Where `super` is one scope further out
than `this`, the frames are those that were made for the innermost class around. -/
theorem Chain.innermost (h : Chain past m frame scopes cls)
    (hsuper : scopes.distance? "super" = some (distance + 1))
    (hthis : scopes.distance? "this" = some distance) :
    ∃ (S : ClassDecl) (inside base : FrameId) (c : ClassId), cls = some S
      ∧ m.heap.scopes.ancestor? frame distance = some inside
      ∧ (m.heap.scopes.local? inside "this").isSome
      ∧ m.heap.scopes.ancestor? frame (distance + 1) = some base
      ∧ m.heap.scopes.bindings base = Bindings.empty.set "super" (.cls c)
      ∧ S.Made past m base c := by
  induction h generalizing distance with
  | top => cases hthis
  | @inner frame outer scope scopes cls around enclosed ordinary free ih =>
      rw [Scopes.distance?_cons, free "super" (.inr rfl), if_neg nofun] at hsuper
      rw [Scopes.distance?_cons, free "this" (.inl rfl), if_neg nofun] at hthis
      obtain ⟨d, hd, rfl⟩ := Option.map_eq_some_iff.1 hthis
      obtain ⟨e, he, hde⟩ := Option.map_eq_some_iff.1 hsuper
      cases hde
      obtain ⟨S, inside, base, c, hcls, hinside, hbound, hbase, hrest⟩ := ih he hd
      refine ⟨S, inside, base, c, hcls, ?_, hbound, ?_, hrest⟩
      · show (m.heap.scopes.enclosing? frame).bind _ = some inside
        rw [enclosed]
        exact hinside
      · show (m.heap.scopes.enclosing? frame).bind _ = some base
        rw [enclosed]
        exact hbase
  | @method frame outer scopes cls S around alone enclosed bound ih =>
      rw [Scopes.distance?_cons, if_pos (by decide)] at hthis
      cases hthis
      rw [Scopes.distance?_cons, if_neg (by decide)] at hsuper
      obtain ⟨e, he, hde⟩ := Option.map_eq_some_iff.1 hsuper
      cases hde
      exact absurd he around.super_ne_zero
  | @submethod frame base outer scopes cls S c around between above made enclosed bound ih =>
      rw [Scopes.distance?_cons, if_pos (by decide)] at hthis
      cases hthis
      refine ⟨S, frame, base, c, rfl, rfl, bound, ?_, above, made⟩
      show (m.heap.scopes.enclosing? frame).bind _ = some base
      rw [enclosed]
      rfl

end Lox
