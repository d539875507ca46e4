/-
`super` is static, and `this` is the receiver. In whatever session of accepted
programs, a mention of `super` searches the class that the statement of the
innermost class around it found above itself when it ran, and binds what it finds
to the object that `this` means at the same place.
-/
import Lox.Proofs.Super.Tree
import Lox.Proofs.Lockstep.Accepted

namespace Lox

open Session (Prepares History)
open Lockstep (run_bind_ok run_bind_error)
open Machine

variable {α β : Type} {w : Chronicle} {bodies : List (List Stmt)} {body : List Stmt}
  {s s' : Session} {text : List Char} {label : String} {fuel room : Nat} {node : Node}
  {m m' moment : Machine}

-- ================================================================== moments

/-- Two observers of one moment, the second with an alarm that nothing else raises: they notice
alike. -/
def Alarmed (o : Watch) (x y : Eval α) : Prop :=
  ∀ m, x m = y m ∨ ∃ m', y m = .error o.alarm m'

namespace Alarmed

variable {o : Watch}

theorem same (x : Eval α) : Alarmed o x x := fun _ => .inl rfl

theorem bind {x y : Eval α} {f g : α → Eval β} (first : Alarmed o x y)
    (rest : ∀ a, Alarmed o (f a) (g a)) : Alarmed o (x >>= f) (y >>= g) := by
  intro m
  rcases first m with he | ⟨m', he⟩
  · cases hy : y m with
    | ok a m' =>
        rw [run_bind_ok (he.trans hy), run_bind_ok hy]
        exact rest a m'
    | error s m' =>
        rw [run_bind_error (he.trans hy), run_bind_error hy]
        exact .inl rfl
  · exact .inr ⟨m', run_bind_error he⟩

theorem congruence (o : Watch) :
    Congruence (fun _ => True) (fun {_} x y => Alarmed o x y) where
  pure _ := same _
  bind := bind
  stop _ := same _
  anchored token inner m := by
    unfold Eval.anchored
    rcases inner m with he | ⟨m', he⟩
    · rw [he]
      exact .inl rfl
    · rw [he]
      rcases o.alarm_cases with ha | ha
      · rw [ha]
        exact .inr ⟨m', rfl⟩
      · rw [ha]
        exact .inr ⟨m', rfl⟩
  inScope frame inner m := by
    unfold Eval.inScope
    dsimp only
    rcases inner { m with scope := frame } with he | ⟨m', he⟩
    · rw [he]
      exact .inl rfl
    · rw [he]
      exact .inr ⟨_, rfl⟩
  heap := same _
  scope := same _
  distance _ := same _
  closure rest := bind (same _) fun c => rest c fun _ _ => trivial
  noteStatement _ := same _
  print _ := same _
  readClock := same _
  define _ _ := same _
  bindAt _ _ _ := same _
  setField _ _ _ := same _
  newFrame _ _ := same _
  newFunction _ := same _
  newClass _ := same _
  newObject _ := same _

/-- Any observer of a moment can be replaced. -/
theorem watchedRunner {check : Check} (alarm : Stop)
    (honly : ∀ n k, check n k = false → n = o.node ∧ k = o.moment) (fuel : Nat) :
    Runner.Alike (fun _ => True) (fun {_} x y => Alarmed o x y)
      (Eval.watchedRunner check alarm fuel) (Eval.watchedRunner o.check o.alarm fuel) := by
  have hwatch : ∀ {α : Type} (n : Node) {x y : Eval α}, Alarmed o x y →
      Alarmed o (fun m => if check n m then x m else .error alarm m)
        (fun m => if o.check n m then y m else .error o.alarm m) := by
    intro α n x y h m
    dsimp only
    by_cases ho : o.check n m = true
    · have hc : check n m = true := by
        rw [← Bool.not_eq_false]
        intro hc
        rw [o.check_eq_false_iff.2 (honly n m hc)] at ho
        cases ho
      rw [if_pos hc, if_pos ho]
      exact h m
    · rw [if_neg ho]
      exact .inr ⟨m, rfl⟩
  induction fuel with
  | zero => exact (congruence o).exhausted
  | succ fuel ih =>
      have hdeep := (congruence o).deepen ih
      exact ⟨fun room e he => hwatch (.expression e) (hdeep.evaluate room he),
        fun room s hs => hwatch (.statement s) (hdeep.execute room hs), hdeep.loop⟩

end Alarmed

/-- A run ends with one of two alarms at most. -/
theorem Watch.exists_alarm (x : Eval α) (m : Machine) (node : Node) (moment : Machine) :
    ∃ late, ∀ m', x m ≠ .error (Watch.mk late node moment).alarm m' := by
  by_cases hexhausted : ∃ m', x m = .error .exhausted m'
  · obtain ⟨m', he⟩ := hexhausted
    refine ⟨false, fun k hk => ?_⟩
    rw [he] at hk
    cases hk
  · exact ⟨true, fun k hk => hexhausted ⟨k, hk⟩⟩

/-- A moment that a run comes to is noticed by one of its two watches. -/
theorem Enters.exists_watch (h : Enters fuel room body m node moment) :
    ∃ late, Eval.interpretWith (Eval.watchedRunner (Watch.mk late node moment).check
        (Watch.mk late node moment).alarm fuel) room body m
      ≠ Eval.interpret fuel room body m := by
  obtain ⟨check, alarm, honly, hne⟩ := h
  obtain ⟨late, hlate⟩ := Watch.exists_alarm (Eval.interpret fuel room body) m node moment
  refine ⟨late, fun hsame => ?_⟩
  have hruns : Alarmed ⟨late, node, moment⟩
      (Eval.interpretWith (Eval.watchedRunner check alarm fuel) room body)
      (Eval.interpretWith (Eval.watchedRunner (Watch.mk late node moment).check
        (Watch.mk late node moment).alarm fuel) room body) :=
    (Alarmed.congruence ⟨late, node, moment⟩).interpretWith
      (Alarmed.watchedRunner alarm honly fuel) fun _ _ => trivial
  rcases hruns m with he | ⟨m', he⟩
  · exact hne (he.trans hsame)
  · exact hlate m' (hsame.symm.trans he)

/-- A moment that all watches notice is one that the run comes to. -/
theorem enters_of_noticed
    (h : Noticed (fun o => Eval.interpretWith (Eval.watchedRunner o.check o.alarm fuel) room body)
      m node moment) : Enters fuel room body m node moment := by
  obtain ⟨late, hlate⟩ := Watch.exists_alarm (Eval.interpret fuel room body) m node moment
  obtain ⟨m', hm'⟩ := h late
  refine ⟨(Watch.mk late node moment).check, (Watch.mk late node moment).alarm,
    fun n k hc => (Watch.check_eq_false_iff _).1 hc, fun he => hlate m' (he.symm.trans hm')⟩

-- ================================================================= sessions

/-- The sites of all programs of a session. -/
def Session.sites (bodies : List (List Stmt)) : List Site := bodies.flatMap programSites

/-- Some accepted program, in some session of accepted programs, enters a node on a machine. -/
def Session.Reached (node : Node) (moment : Machine) : Prop :=
  ∃ (bodies : List (List Stmt)) (s s' : Session) (text : List Char) (label : String)
    (body : List Stmt) (fuel room : Nat), History bodies s ∧ s.Prepares text label body s'
      ∧ Enters fuel room body s'.machine node moment

/-- What there has been in a session of accepted programs. -/
def Session.chronicle (bodies : List (List Stmt)) : Chronicle :=
  ⟨Session.Reached, Session.visits bodies, Session.sites bodies⟩

/-- One chronicle tells more than another. -/
structure Chronicle.Grows (w more : Chronicle) : Prop where
  past : ∀ node k, w.past node k → more.past node k
  visits : ∀ v ∈ w.visits, v ∈ more.visits
  sites : ∀ t ∈ w.sites, t ∈ more.sites

section Grown

variable {more : Chronicle} (hw : w.Grows more)
include hw

theorem FunDecl.Placed.grow {around : Surroundings} {scopes : Scopes} {cls : Option ClassDecl}
    {f : FunDecl} (h : f.Placed w around scopes cls) : f.Placed more around scopes cls where
  known :=
    { visited := fun v hv => by
        obtain ⟨u, hu, hrest⟩ := h.known.visited v hv
        exact ⟨u, hw.visits u hu, hrest⟩
      sited := fun t ht => hw.sites t (h.known.sited t ht) }
  free := h.free

theorem Machine.Callable.grow {f : FunctionId} (h : m.Callable w f) : m.Callable more f := by
  obtain ⟨c, around, scopes, cls, hc, hchain, hk, hmarked⟩ := h
  exact ⟨c, around, scopes, cls, hc, hchain.relax hw.past, hk.grow hw, hmarked⟩

theorem Machine.Method.grow {name : String} {f : FunctionId} (h : m.Method w name f) :
    m.Method more name f := by
  obtain ⟨c, around, scopes, cls, S, outer, hc, hchain, hhome, hk, htitled⟩ := h
  exact ⟨c, around, scopes, cls, S, outer, hc, hchain.relax hw.past, hhome.relax hw.past,
    hk.grow hw, htitled⟩

theorem Machine.Sane.grow {value : Value} (h : m.Sane w value) : m.Sane more value := by
  cases value with
  | function f => exact Machine.Callable.grow hw h
  | cls c => exact h
  | object o => exact h
  | nil | boolean | number | string | native => trivial

/-- What is in order stays so when more is known, under distances for which all of it is sound. -/
theorem Machine.Framed.grow (hm : m.Framed w) (hheap : m'.heap = m.heap)
    (hsound : ∀ v ∈ more.visits, v.Sound m'.distances) : m'.Framed more := by
  have hp : m.Persists m' := .of_heap hheap
  have hsane : ∀ {value : Value}, m.Sane w value → m'.Sane more value := fun h =>
    (h.mono hp).grow hw
  constructor
  · constructor
    · intro frame h
      rw [hheap] at h ⊢
      obtain ⟨o, ho, hb, hbound⟩ := hm.receivers frame h
      exact ⟨o, ho, hb, (hbound.relax hw.past).mono hp⟩
    · intro frame h
      rw [hheap] at h ⊢
      obtain ⟨S, c, hc, hb, hmade⟩ := hm.parents frame h
      exact ⟨S, c, hc, hb, (hmade.relax hw.past).mono hp⟩
  · rw [hheap]
    exact hm.root
  · rw [hheap]
    exact hm.rooted
  · exact hp.ordinary _ hm.rooted hm.top
  · intro frame name value h
    rw [hheap] at h
    exact hsane (hm.sane frame name value h)
  · intro o data name value ho h
    rw [hheap] at ho
    exact hsane (hm.fields o data name value ho h)
  · intro c data name f hc h
    rw [hheap] at hc
    exact ((hm.methods c data name f hc h).mono hp).grow hw
  · rw [hheap]
    exact hm.layered
  · exact hsound

end Grown

/-- A machine on which nothing has run is in order. -/
theorem framed_start (tracing : Bool) (clock : Float) :
    (Machine.start tracing clock).Framed (Session.chronicle []) := by
  have hnone : ∀ frame name, Special name →
      (Machine.start tracing clock).heap.scopes.local? frame name = none := by
    intro frame name hs
    cases h : (Machine.start tracing clock).heap.scopes.local? frame name with
    | none => rfl
    | some value =>
        obtain ⟨rfl, hne, -⟩ := Lockstep.native_of_start h
        rcases hs with rfl | rfl
        · have hthis : (Heap.initial.scopes.local? globalFrame "this").isSome = false := by decide
          rw [Option.isSome_eq_false_iff, Option.isNone_iff_eq_none] at hthis
          exact h.symm.trans hthis
        · exact absurd rfl hne
  exact {
    receivers := fun frame h => by
      rw [hnone frame "this" (.inl rfl)] at h
      cases h
    parents := fun frame h => by
      rw [hnone frame "super" (.inr rfl)] at h
      cases h
    root := rfl
    rooted := Nat.zero_lt_one
    top := hnone globalFrame
    sane := fun frame name value h => by
      obtain ⟨-, -, native, rfl⟩ := Lockstep.native_of_start h
      trivial
    fields := fun o data name value ho => by cases ho
    methods := fun c data name f hc => by cases hc
    layered := fun c data parent hc => by cases hc
    sound := nofun }

/-- A run of a program whose visits and sites are known, from a machine on which nothing is
running. -/
theorem Machine.Framed.run (hm : m.Framed w) (htop : m.scope = globalFrame)
    (hk : w.Knows (programVisits body) (programSites body))
    (hpast : ∀ node moment, Enters fuel room body m node moment → w.past node moment) :
    Ends w m (fun _ _ => True) (Eval.interpret fuel room body m)
      ∧ ∀ node moment, Enters fuel room body m node moment → w.Meets node moment
        ∧ m.Persists moment ∧ moment.Persists ((Eval.interpret fuel room body).left m) := by
  obtain ⟨hends, hspots⟩ := (follows_watchedRunner w fuel).interpretWith hm
    (hm.place htop) hk fun node moment hn => hpast node moment (enters_of_noticed hn)
  refine ⟨hends, fun node moment henters => ?_⟩
  obtain ⟨late, hne⟩ := henters.exists_watch
  exact ((hspots ⟨late, node, moment⟩).resolve_left hne).2

theorem Session.knows_cons (body : List Stmt) (bodies : List (List Stmt)) :
    (Session.chronicle (body :: bodies)).Knows (programVisits body) (programSites body) where
  visited v hv := ⟨v, List.mem_append_left _ hv, rfl, rfl⟩
  sited _ ht := List.mem_append_left _ ht

/-- A program that is accepted finds a machine that is in order. -/
theorem framed_of_prepares (hm : s.machine.Framed (Session.chronicle bodies))
    (before : History bodies s) (accepted : s.Prepares text label body s') :
    s'.machine.Framed (Session.chronicle (body :: bodies)) := by
  obtain ⟨p, hp⟩ := Lockstep.exists_steady_of_prepares before accepted
  obtain ⟨-, -, trace, hmachine⟩ := Lockstep.prepares_cases accepted
  have hgrows : (Session.chronicle bodies).Grows (Session.chronicle (body :: bodies)) :=
    ⟨fun _ _ => id, fun v hv => List.mem_append_right _ hv,
      fun t ht => List.mem_append_right _ ht⟩
  refine hm.grow hgrows (by rw [hmachine]) fun v hv => ?_
  rw [← hp.machine]
  exact hp.ok.sound v hv

/-- Between two programs nothing is running. -/
theorem scope_of_prepares (before : History bodies s)
    (accepted : s.Prepares text label body s') : s'.machine.scope = globalFrame := by
  obtain ⟨p, hp⟩ := Lockstep.exists_steady_of_prepares before accepted
  exact hp.top

/-- What a run does that starts after accepted programs. -/
theorem run_of_prepares (hm : s.machine.Framed (Session.chronicle bodies))
    (before : History bodies s) (accepted : s.Prepares text label body s') (fuel room : Nat) :
    Ends (Session.chronicle (body :: bodies)) s'.machine (fun _ _ => True)
        (Eval.interpret fuel room body s'.machine)
      ∧ ∀ node moment, Enters fuel room body s'.machine node moment →
        (Session.chronicle (body :: bodies)).Meets node moment
          ∧ s'.machine.Persists moment
          ∧ moment.Persists ((Eval.interpret fuel room body).left s'.machine) :=
  (framed_of_prepares hm before accepted).run (scope_of_prepares before accepted)
    (Session.knows_cons body bodies) fun _ _ henters =>
      ⟨bodies, s, s', text, label, body, fuel, room, before, accepted, henters⟩

/-- Accepted programs leave a machine behind that is in order. -/
theorem framed_of_history (h : History bodies s) :
    s.machine.Framed (Session.chronicle bodies) := by
  induction h with
  | start tracing clock => exact framed_start tracing clock
  | @completed bodies s s' text label body fuel room m before accepted ran ih =>
      have hends := (run_of_prepares ih before accepted fuel room).1
      rw [ran] at hends
      exact hends.1
  | @stopped bodies s s' text label body fuel room stop m before accepted ran ih =>
      have hends := (run_of_prepares ih before accepted fuel room).1
      rw [ran] at hends
      exact hends.1
  | hushed before ih => exact ih.of_heap rfl rfl

-- ==================================================================== super

/-- The scope at the distance of a name binds it. -/
theorem Scopes.exists_of_distance? {scopes : Scopes} {name : String} {distance : Nat}
    (h : scopes.distance? name = some distance) :
    ∃ scope, scopes[distance]? = some scope ∧ scope.binds name = true := by
  obtain ⟨hlt, hbinds, -⟩ := List.findIdx?_eq_some_iff_getElem.1 h
  exact ⟨_, List.getElem?_eq_getElem hlt, hbinds⟩

/-- On a later machine there is a copy of a function, in a frame of its own that holds nothing but an
object. -/
def Machine.Binds (m : Machine) (f : FunctionId) (o : ObjectId) (g : FunctionId) (m' : Machine) :
    Prop :=
  ∃ c : Closure, m.heap.functions[f]? = some c
    ∧ m'.heap.functions[g]? = some ⟨c.declaration, m.heap.scopes.next, c.isInitializer⟩
    ∧ m'.heap.scopes.enclosing? m.heap.scopes.next = some c.scope
    ∧ m'.heap.scopes.bindings m.heap.scopes.next = Bindings.empty.set "this" (.object o)

/-- A mention of `super` is evaluated by its place: in a frame that was made for a class `S`, whose
superclass meant the class `c` then, the nearest method of `c` is bound to the object that `this`
means. -/
structure Machine.Searches (k : Machine) (v : Visit) (S : ClassDecl) (c : ClassId) (o : ObjectId)
    (id : NodeId) (keyword method : Token) : Prop where
  origin : ∃ distance base, k.distances[id]? = some (distance + 1)
    ∧ v.scopes.distance? "this" = some distance
    ∧ k.heap.scopes.ancestor? k.scope (distance + 1) = some base
    ∧ S.Made Session.Reached k base c
  this : ∀ (fuel room : Nat) (id' : NodeId) (keyword' : Token), keyword'.lexeme = "this" →
    k.distances[id']? = v.scopes.distance? "this" →
    Eval.evaluate (fuel + 1) room (.this id' keyword') k = .ok (.object o) k
  found : ∀ (fuel room : Nat) (f : FunctionId), k.heap.Nearest method.lexeme c f →
    ∃ g k', Eval.evaluate (fuel + 1) room (.super id keyword method) k = .ok (.function g) k'
      ∧ k.Binds f o g k'
  missing : ∀ fuel room : Nat, (∀ f, ¬ k.heap.Nearest method.lexeme c f) →
    Eval.evaluate (fuel + 1) room (.super id keyword method) k
      = .error (.fault ⟨some method, .undefinedProperty method.lexeme⟩) k

/-- A function of a class is a function that there is. -/
theorem Machine.Framed.exists_function (hm : m.Framed w) {c : ClassId} {name : String}
    {f : FunctionId} (hf : m.heap.findMethod? c name = some f) :
    ∃ code, m.heap.functions[f]? = some code := by
  obtain ⟨d, data, hd, hmethod⟩ := Heap.exists_method_of_findMethod? hf
  obtain ⟨code, _, _, _, _, _, hcode, -⟩ := hm.methods d data name f hd hmethod
  exact ⟨code, hcode⟩

/-- `this` means what the scope at its distance binds. -/
theorem evaluate_this {id : NodeId} {keyword : Token} {distance : Nat} {value : Value}
    (hkeyword : keyword.lexeme = "this") (hid : m.distances[id]? = some distance)
    (hvalue : Eval.getAt m.scope distance "this" m = .ok value m) (fuel room : Nat) :
    Eval.evaluate (fuel + 1) room (.this id keyword) m = .ok value m := by
  have hdistance : Eval.distance? id m = .ok (some distance) m := by
    unfold Eval.distance?
    rw [hid]
  show Eval.lookUp id keyword m = _
  unfold Eval.lookUp
  rw [run_bind_ok hdistance]
  dsimp only
  rw [run_bind_ok (show Eval.scope m = .ok m.scope m from rfl), hkeyword]
  exact hvalue

/-- `super` comes down to a search in the class that the scope at its distance binds. -/
theorem evaluate_super {id : NodeId} {keyword method : Token} {distance : Nat} {c : ClassId}
    {o : ObjectId} (hid : m.distances[id]? = some (distance + 1))
    (hparent : Eval.getAt m.scope (distance + 1) "super" m = .ok (.cls c) m)
    (hobject : Eval.getAt m.scope distance "this" m = .ok (.object o) m) (fuel room : Nat) :
    Eval.evaluate (fuel + 1) room (.super id keyword method) m
      = Eval.boundMethod c method (.object o) m := by
  have hdistance : Eval.distance? id m = .ok (some (distance + 1)) m := by
    unfold Eval.distance?
    rw [hid]
  show Eval.superMethod id method m = _
  unfold Eval.superMethod
  rw [run_bind_ok hdistance]
  dsimp only
  rw [run_bind_ok (show Eval.scope m = .ok m.scope m from rfl), run_bind_ok hparent,
    Nat.add_sub_cancel, run_bind_ok hobject]

/-- The nearest method is what is bound. -/
theorem Eval.boundMethod_eq (hl : m.heap.Layered) {c : ClassId} {method : Token} {f : FunctionId}
    {code : Closure} (hf : m.heap.Nearest method.lexeme c f)
    (hcode : m.heap.functions[f]? = some code) (receiver : Value) :
    Eval.boundMethod c method receiver m = .ok (.function m.heap.functions.size) { m with
      heap := Heap.addFunction (m.heap.addFrame code.scope (Bindings.empty.set "this" receiver))
        ⟨code.declaration, m.heap.scopes.next, code.isInitializer⟩ } := by
  have hfind := (Heap.findMethod?_eq_some_iff hl c).2 hf
  unfold Eval.boundMethod
  rw [run_bind_ok (show Eval.heap m = .ok m.heap m from rfl), hfind]
  dsimp only
  rw [run_bind_ok (Runs.bindMethod_eq hcode receiver)]
  rfl

theorem Eval.boundMethod_eq_error (hl : m.heap.Layered) {c : ClassId} {method : Token}
    (hnone : ∀ f, ¬ m.heap.Nearest method.lexeme c f) (receiver : Value) :
    Eval.boundMethod c method receiver m
      = .error (.fault ⟨some method, .undefinedProperty method.lexeme⟩) m := by
  have hf : m.heap.findMethod? c method.lexeme = none := by
    rw [Option.eq_none_iff_forall_ne_some]
    intro f hf
    exact hnone f ((Heap.findMethod?_eq_some_iff hl c).1 hf)
  unfold Eval.boundMethod
  rw [run_bind_ok (show Eval.heap m = .ok m.heap m from rfl), hf]
  rfl

theorem Machine.Framed.exists_boundMethod (hm : m.Framed w) {c : ClassId} {method : Token}
    {f : FunctionId} (hf : m.heap.Nearest method.lexeme c f) (o : ObjectId) :
    ∃ g k, Eval.boundMethod c method (.object o) m = .ok (.function g) k ∧ m.Binds f o g k := by
  obtain ⟨code, hcode⟩ := hm.exists_function ((Heap.findMethod?_eq_some_iff hm.layered c).2 hf)
  exact ⟨_, _, Eval.boundMethod_eq hm.layered hf hcode _, code, hcode, Array.getElem?_push_size,
    enclosing?_addFrame m code.scope _, bindings_addFrame m code.scope _⟩

/-- Where `super` is met it is evaluated by its place. -/
theorem Chronicle.Meets.searches {id : NodeId} {keyword method : Token}
    (h : (Session.chronicle bodies).Meets (.expression (.super id keyword method)) m) :
    ∃ v ∈ Session.visits bodies, ∃ (S : ClassDecl) (c : ClassId) (o : ObjectId),
      v.node = .expression (.super id keyword method)
        ∧ (⟨.expression (.super id keyword method), some S⟩ : Site) ∈ Session.sites bodies
        ∧ m.Searches v S c o id keyword method := by
  obtain ⟨hm, around, scopes, cls, hplace, hk⟩ := h
  obtain ⟨⟨v, hv, hnode, rfl⟩, ht⟩ := hk.head
  have hchain := hplace.chain
  have hsound := hm.sound v hv
  obtain ⟨distance, hsuper, hthis⟩ := hsound.super_bound hnode
  have hlinked : m.distances[id]? = some (distance + 1) := by
    have hall := hsound.linked "super" (by rw [hnode]; rfl)
    rw [hnode, hsuper] at hall
    exact hall
  -- The chain of frames agrees with the scopes of the visit, as far out as `super`.
  obtain ⟨S, inside, base, c, hcls, hinside, hbound, hbase, habove, hmade⟩ :=
    hchain.innermost hsuper hthis
  obtain ⟨o, -, hreceiver, -⟩ := hm.receivers inside hbound
  have hparent : Eval.getAt m.scope (distance + 1) "super" m = .ok (.cls c) m :=
    Lockstep.getAt_eq hbase (local?_of_bindings habove)
  have hobject : Eval.getAt m.scope distance "this" m = .ok (.object o) m :=
    Lockstep.getAt_eq hinside (local?_of_bindings hreceiver)
  replace hcls : cls = some S := hcls
  subst hcls
  refine ⟨v, hv, S, c, o, hnode, ht, ⟨distance, base, hlinked, hthis, hbase, hmade⟩, ?_, ?_, ?_⟩
  · intro fuel room id' keyword' hkeyword hid
    exact evaluate_this hkeyword (hid.trans hthis) hobject fuel room
  · intro fuel room f hf
    rw [evaluate_super hlinked hparent hobject]
    exact hm.exists_boundMethod hf o
  · intro fuel room hnone
    rw [evaluate_super hlinked hparent hobject]
    exact Eval.boundMethod_eq_error hm.layered hnone _

/-- Two sites of nodes of one number are one site. -/
theorem Session.site_unique (before : History bodies s)
    (accepted : s.Prepares text label body s') {t u : Site}
    (ht : t ∈ Session.sites (body :: bodies)) (hu : u ∈ Session.sites (body :: bodies))
    (he : u.node.id = t.node.id) : u = t := by
  obtain ⟨p, hp⟩ := Lockstep.exists_steady_of_prepares before accepted
  have hnodes : ∀ bodies, (Session.sites bodies).map (fun t => t.node.id)
      = (Session.visits bodies).map fun v => v.node.id := by
    intro bodies
    induction bodies with
    | nil => rfl
    | cons body rest ih =>
        show (programSites body ++ Session.sites rest).map _
          = (programVisits body ++ Session.visits rest).map _
        rw [List.map_append, List.map_append, ih, Lockstep.map_id_programVisits, Stmt.idsAll,
          ← Stmt.map_node_sitesAll none body, List.map_map]
        rfl
  have hdistinct := hp.distinct
  rw [← hnodes] at hdistinct
  exact List.inj_on_of_nodup_map hdistinct hu ht he

/-- **`super` is static and `this` is the receiver.** A distance of `super` is one more than that of
the scope that binds `this`. Whatever runs, a frame of `this` or `super` holds nothing but the object
to which its method was bound, or the superclass of the class it was made for, from when it was made
to the end. And a mention of `super` searches the class that the statement of the innermost class
around it evaluated its superclass to, and binds what it finds to the object that `this` means there. -/
theorem super_static (before : History bodies s) (accepted : s.Prepares text label body s')
    (fuel room : Nat) :
    (∀ v ∈ Session.visits (body :: bodies), ∀ id keyword method,
        v.node = .expression (.super id keyword method) →
        ∀ distance, s'.machine.distances[id]? = some distance →
          ∃ d scope, distance = d + 1 ∧ v.scopes[d]? = some scope ∧ scope.binds "this" = true)
      ∧ (∀ k, k = s'.machine ∨ k = (Eval.interpret fuel room body).left s'.machine
            ∨ (∃ node, Enters fuel room body s'.machine node k) →
          k.Tidy Session.Reached ∧ s.machine.Persists k
            ∧ k.Persists ((Eval.interpret fuel room body).left s'.machine))
      ∧ ∀ id keyword method k,
          Enters fuel room body s'.machine (.expression (.super id keyword method)) k →
          ∃ v ∈ Session.visits (body :: bodies), ∃ (S : ClassDecl) (c : ClassId) (o : ObjectId),
            v.node = .expression (.super id keyword method)
              ∧ (⟨.expression (.super id keyword method), some S⟩ : Site)
                ∈ Session.sites (body :: bodies)
              ∧ (∀ t ∈ Session.sites (body :: bodies), t.node.id = id → t.cls = some S)
              ∧ k.Searches v S c o id keyword method := by
  have hm := framed_of_history before
  have hstart := framed_of_prepares hm before accepted
  obtain ⟨hends, hmoments⟩ := run_of_prepares hm before accepted fuel room
  have hfirst : s.machine.Persists s'.machine := by
    obtain ⟨-, -, trace, hmachine⟩ := Lockstep.prepares_cases accepted
    exact .of_heap (by rw [hmachine])
  refine ⟨?_, ?_, ?_⟩
  · intro v hv id keyword method hnode distance hdistance
    have hsound := hstart.sound v hv
    obtain ⟨d, hsuper, hthis⟩ := hsound.super_bound hnode
    have hlinked := hsound.linked "super" (by rw [hnode]; rfl)
    rw [hnode, hsuper] at hlinked
    obtain ⟨scope, hscope, hbinds⟩ := Scopes.exists_of_distance? hthis
    exact ⟨d, scope, Option.some.inj (hdistance.symm.trans hlinked), hscope, hbinds⟩
  · have hlast : s'.machine.Persists ((Eval.interpret fuel room body).left s'.machine) :=
      hends.persists
    rintro k (rfl | rfl | ⟨node, henters⟩)
    · exact ⟨hstart.toTidy, hfirst, hlast⟩
    · refine ⟨?_, hfirst.trans hlast, .refl _⟩
      unfold Eval.left
      cases hrun : Eval.interpret fuel room body s'.machine with
      | ok u m' =>
          rw [hrun] at hends
          exact hends.1.toTidy
      | error stop m' =>
          rw [hrun] at hends
          exact hends.1.toTidy
    · obtain ⟨hmeets, hbegin, hend⟩ := hmoments node k henters
      exact ⟨hmeets.1.toTidy, hfirst.trans hbegin, hend⟩
  · intro id keyword method k henters
    obtain ⟨v, hv, S, c, o, hnode, hsite, hsearches⟩ := (hmoments _ k henters).1.searches
    refine ⟨v, hv, S, c, o, hnode, hsite, fun t ht hid => ?_, hsearches⟩
    rw [Session.site_unique before accepted hsite ht hid]

/-- A program in which a method calls the one that it overrides. -/
def overridingText : List Char :=
  "class A \x7b m() \x7b print 1; \x7d \x7d class B < A \x7b m() \x7b super.m(); \x7d \x7d B().m();".toList

/-- Whether `super` is mentioned in a program, and in the methods of classes of one name only. -/
def mentionsIn (name : String) (body : List Stmt) : Bool :=
  let mentions := (programSites body).filter fun t =>
    match t.node with
    | .expression (.super ..) => true
    | _ => false
  !mentions.isEmpty && mentions.all fun t => t.cls.any fun S => S.name.lexeme == name

theorem super_static_overriding :
    ∃ body s', (Session.start false 0).Prepares overridingText "" body s'
      ∧ mentionsIn "B" body = true
      ∧ ((Eval.interpret 60 9 body).left s'.machine).Tidy Session.Reached
      ∧ ∀ id keyword method k,
          Enters 60 9 body s'.machine (.expression (.super id keyword method)) k →
          ∃ v S c o, S.name.lexeme = "B" ∧ k.Searches v S c o id keyword method := by
  have hcheck : (readProgram overridingText 1).program.toOption.any (fun body =>
      (resolveProgram body).faults.isEmpty && mentionsIn "B" body) = true := by decide +kernel
  cases hprogram : (readProgram overridingText 1).program with
  | error faults =>
      rw [hprogram] at hcheck
      cases hcheck
  | ok body =>
      rw [hprogram] at hcheck
      obtain ⟨hclear, hmentions⟩ := Bool.and_eq_true_iff.mp hcheck
      obtain ⟨s', accepted⟩ := Session.exists_prepares (s := Session.start false 0)
        hprogram (List.isEmpty_iff.mp hclear) ""
      obtain ⟨-, hsteady, hsuper⟩ := super_static (.start false 0) accepted 60 9
      refine ⟨body, s', accepted, hmentions, (hsteady _ (.inr (.inl rfl))).1, ?_⟩
      intro id keyword method k henters
      obtain ⟨v, -, S, c, o, -, hsite, -, hsearches⟩ := hsuper id keyword method k henters
      refine ⟨v, S, c, o, ?_, hsearches⟩
      have hall := (Bool.and_eq_true_iff.mp hmentions).2
      rw [List.all_eq_true] at hall
      have hsite' : (⟨.expression (.super id keyword method), some S⟩ : Site)
          ∈ programSites body := by
        simpa [Session.sites] using hsite
      simpa using hall _ (List.mem_filter.2 ⟨hsite', rfl⟩)

end Lox
