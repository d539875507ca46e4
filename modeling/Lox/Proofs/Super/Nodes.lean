/-
Evaluation of whole nodes, on machines whose frames of `this` and `super` are in
order, given that parts can be run (`Follows`). A call opens a frame inside that
of the function, which is the place at which the resolver went through the body.
A class statement makes the frame of `super`, and that frame remembers it.
-/
import Lox.Proofs.Super.Steps

namespace Lox

open Lockstep (run_bind_ok run_bind_error)
open Machine

variable {w : Chronicle} {fuel room : Nat} {run : Watch → Runner} {m m' : Machine}
  {scopes : Scopes} {around : Surroundings} {cls : Option ClassDecl}

/-- Watched runners whose runs are in order on every node that is known, at its place. -/
structure Follows (w : Chronicle) (fuel : Nat) (run : Watch → Runner) : Prop where
  evaluate {m : Machine} (room : Nat) {around : Surroundings} {scopes : Scopes}
    {cls : Option ClassDecl} {e : Expr} (framed : m.Framed w) (place : m.Place w scopes cls)
    (known : w.Knows (e.visits around scopes) (Site.within cls e.nodes)) :
    Runs w m (fun o => (run o).evaluate room e) ((Eval.runner fuel).evaluate room e)
      fun v k => k.Sane w v
  execute {m : Machine} (room : Nat) {around : Surroundings} {scopes : Scopes}
    {cls : Option ClassDecl} {s : Stmt} (framed : m.Framed w) (place : m.Place w scopes cls)
    (known : w.Knows (s.visits around scopes) (s.sites cls)) :
    Runs w m (fun o => (run o).execute room s) ((Eval.runner fuel).execute room s)
      fun c k => k.Sane w c.value
  loop {m : Machine} (room : Nat) {around : Surroundings} {scopes : Scopes}
    {cls : Option ClassDecl} {condition : Expr} {body : Stmt} (framed : m.Framed w)
    (place : m.Place w scopes cls)
    (first : w.Knows (condition.visits around scopes) (Site.within cls condition.nodes))
    (rest : w.Knows (body.visits around scopes) (body.sites cls)) :
    Runs w m (fun o => (run o).loop room condition body)
      ((Eval.runner fuel).loop room condition body) fun c k => k.Sane w c.value

-- ============================================================ places of nodes

/-- A visit that is known is sound. -/
theorem Machine.Framed.visit (hm : m.Framed w) {v : Visit} (hv : w.Visited v) :
    ∃ u ∈ w.visits, u.node = v.node ∧ u.scopes = v.scopes ∧ u.Sound m.distances := by
  obtain ⟨u, hu, hnode, hscopes⟩ := hv
  exact ⟨u, hu, hnode, hscopes, hm.sound u hu⟩

/-- The nodes of a statement that is known are proper. -/
theorem Machine.Framed.proper (hm : m.Framed w) {s : Stmt} {sites : List Site}
    (hk : w.Knows (s.visits around scopes) sites) : ∀ n ∈ s.nodes, n.Proper := by
  intro n hn
  rw [← s.map_node_visits around scopes] at hn
  obtain ⟨v, hv, rfl⟩ := List.mem_map.1 hn
  obtain ⟨u, -, hnode, -, hsound⟩ := hm.visit (hk.visited v hv)
  exact hnode ▸ hsound.proper

/-- Behind a statement its name is in scope. -/
theorem Machine.Place.behind (ha : m.Place w scopes cls) {s : Stmt}
    (hproper : ∀ n ∈ s.nodes, n.Proper) : m.Place w (s.resolve around scopes).1 cls := by
  rw [s.scopes_resolve around scopes hproper]
  unfold Scopes.behind
  cases hd : s.declares with
  | none => exact ha
  | some name => exact ha.introduce (Stmt.free_of_declares (hproper _ s.mem_nodes) hd)

/-- The methods of a class are known one by one. -/
theorem Chronicle.Knows.method {inClass : ClassKind} {methods : List FunDecl}
    (h : w.Knows (FunDecl.visitsAll inClass scopes methods) (FunDecl.sitesAll cls methods))
    {d : FunDecl} (hd : d ∈ methods) :
    w.Knows (d.visits ⟨d.methodKind, inClass⟩ scopes) (d.sites cls) := by
  induction methods with
  | nil => cases hd
  | cons f rest ih =>
      rcases List.mem_cons.1 hd with rfl | hd
      · exact h.left
      · exact ih h.right hd

namespace Follows

-- =================================================================== lists

/-- Behind an expression the place is the same. -/
theorem after (hr : Follows w fuel run) (hm : m.Framed w) (ha : m.Place w scopes cls) {e : Expr}
    (hk : w.Knows (e.visits around scopes) (Site.within cls e.nodes)) {α : Type}
    {f : Watch → Value → Eval α} {g : Value → Eval α} {post : α → Machine → Prop}
    (rest : ∀ v k, k.Framed w → k.Place w scopes cls → k.Sane w v →
      Runs w k (fun o => f o v) (g v) post) :
    Runs w m (fun o => (run o).evaluate room e >>= f o)
      ((Eval.runner fuel).evaluate room e >>= g) post :=
  (hr.evaluate room hm ha hk).bind fun v k _ hk hl hv => rest v k hk (ha.later hm hl) hv

theorem evaluateAll (hr : Follows w fuel run) (hm : m.Framed w) (ha : m.Place w scopes cls)
    {es : List Expr}
    (hk : w.Knows (Expr.visitsAll around scopes es) (Site.within cls (Expr.nodesAll es))) :
    Runs w m (fun o => Eval.evaluateAll (run o) room es)
      (Eval.evaluateAll (Eval.runner fuel) room es) fun vs k => ∀ v ∈ vs, k.Sane w v := by
  induction es generalizing m with
  | nil => exact .done hm fun v hv => by cases hv
  | cons e rest ih =>
      refine hr.after hm ha hk.first fun v k hk' ha' hv => ?_
      refine (ih hk' ha' hk.second).bind fun vs k' _ hk'' hl hvs => .done hk'' fun x hx => ?_
      rcases List.mem_cons.1 hx with rfl | hx
      · exact hv.mono hl.toPersists
      · exact hvs x hx

theorem executeAll (hr : Follows w fuel run) (hm : m.Framed w) (ha : m.Place w scopes cls)
    {body : List Stmt}
    (hk : w.Knows (Stmt.visitsAll around scopes body) (Stmt.sitesAll cls body)) :
    Runs w m (fun o => Eval.executeAll (run o) room body)
      (Eval.executeAll (Eval.runner fuel) room body) fun c k => k.Sane w c.value := by
  induction body generalizing m scopes with
  | nil => exact .done hm trivial
  | cons s rest ih =>
      refine (hr.execute room hm ha hk.left).bind fun c k _ hk' hl hc => ?_
      cases c with
      | normal => exact ih hk' ((ha.later hm hl).behind (hm.proper hk.left)) hk.right
      | returned v => exact .done hk' hc

/-- The statements of a program. -/
theorem interpretWith (hr : Follows w fuel run) (hm : m.Framed w) (ha : m.Place w scopes cls)
    {body : List Stmt}
    (hk : w.Knows (Stmt.visitsAll around scopes body) (Stmt.sitesAll cls body)) :
    Runs w m (fun o => Eval.interpretWith (run o) room body)
      (Eval.interpretWith (Eval.runner fuel) room body) fun _ _ => True := by
  induction body generalizing m scopes with
  | nil => exact .done hm trivial
  | cons s rest ih =>
      refine (hr.execute room hm ha hk.left).bind fun c k _ hk' hl _ => ?_
      exact ih hk' ((ha.later hm hl).behind (hm.proper hk.left)) hk.right

-- =================================================================== calls

/-- Parameters bind arguments, and nothing else. -/
theorem find?_bindParameters {params : List Token} {arguments : List Value} {b : Bindings Value}
    {name : String} {value : Value}
    (h : (Eval.bindParameters params arguments b).find? name = some value) :
    b.find? name = some value
      ∨ value ∈ arguments ∧ ∃ param ∈ params, param.lexeme = name := by
  induction params generalizing arguments b with
  | nil => exact .inl h
  | cons param rest ih =>
      cases arguments with
      | nil => exact .inl h
      | cons x xs =>
          rcases ih h with hold | ⟨hx, other, ho, he⟩
          · rw [Bindings.find?_set] at hold
            split at hold
            · rename_i he
              cases hold
              exact .inr ⟨List.mem_cons_self, param, List.mem_cons_self, he⟩
            · exact .inl hold
          · exact .inr ⟨List.mem_cons_of_mem _ hx, other, List.mem_cons_of_mem _ ho, he⟩

/-- A body runs in a new frame with names of the program. -/
theorem inNewFrame {α : Type} {observed : Watch → Eval α} {plain : Eval α} {outer : FrameId}
    {b : Bindings Value} {value : α → Value} (hm : m.Framed w)
    (hchain : Chain w.past m outer scopes cls)
    (hb : ∀ name, Special name → b.find? name = none)
    (hv : ∀ name value, b.find? name = some value → m.Sane w value)
    (h : ∀ k : Machine, k.Framed w → k.Place w (.empty :: scopes) cls →
      Runs w k observed plain fun a k => k.Sane w (value a)) :
    Runs w m (fun o => Eval.inNewFrame outer b (observed o)) (Eval.inNewFrame outer b plain)
      fun a k => k.Sane w (value a) := by
  let opened : Machine := { m with heap := m.heap.addFrame outer b }
  have hopened : opened.Framed w := hm.addFrame outer hb hv
  have hp : m.Persists opened := persists_addFrame m outer b
  have hordinary : opened.Ordinary m.heap.scopes.next := by
    intro name hs
    show (m.heap.addFrame outer b).scopes.local? m.heap.scopes.next name = none
    rw [local?_addFrame, if_pos rfl]
    exact hb name hs
  let inside : Machine := { opened with scope := m.heap.scopes.next }
  have hinside : inside.Place w (.empty :: scopes) cls :=
    have hto : opened.Persists inside := .of_heap rfl
    ⟨.inner ((hchain.mono hp).mono hto) (enclosing?_addFrame m outer b) hordinary
      fun _ _ => rfl, hordinary⟩
  refine Runs.step (a := m.heap.scopes.next) rfl hopened (hp.later rfl rfl) ?_
  refine Runs.inScope (h inside (hopened.of_heap rfl rfl) hinside) fun a k hk => ?_
  exact hk.mono (.of_heap rfl)

/-- The body of a function runs in a frame that holds its arguments. -/
theorem runBody (hr : Follows w fuel run) (hm : m.Framed w) {f : FunctionId} {c : Closure}
    (hf : m.Callable w f) (hc : m.heap.functions[f]? = some c) {arguments : List Value}
    (hargs : ∀ v ∈ arguments, m.Sane w v) :
    Runs w m
      (fun o => Eval.inNewFrame c.scope (Eval.bindParameters c.declaration.params arguments .empty)
        (Eval.executeAll (run o) room c.declaration.body))
      (Eval.inNewFrame c.scope (Eval.bindParameters c.declaration.params arguments .empty)
        (Eval.executeAll (Eval.runner fuel) room c.declaration.body))
      fun completion k => k.Sane w completion.value := by
  obtain ⟨d, around, scopes, cls, hd, hchain, hplaced, -⟩ := hf
  obtain rfl : d = c := Option.some.inj (hd.symm.trans hc)
  have hbody : w.Knows
      (Stmt.visitsAll around (Scopes.introduceAll (.empty :: scopes) d.declaration.params).1
        d.declaration.body)
      (Stmt.sitesAll cls d.declaration.body) := by
    have hknown := hplaced.known
    cases hdecl : d.declaration with
    | mk id name params body =>
        rw [hdecl] at hknown
        exact hknown
  refine inNewFrame hm hchain (fun name hs => ?_) (fun name value hv => ?_) fun k hk ha => ?_
  · cases hfind : (Eval.bindParameters d.declaration.params arguments .empty).find? name with
    | none => rfl
    | some value =>
        rcases find?_bindParameters hfind with hold | ⟨-, param, hparam, rfl⟩
        · cases hold
        · exact absurd hs (hplaced.free param hparam).not_special
  · rcases find?_bindParameters hv with hold | ⟨hvalue, -⟩
    · cases hold
    · exact hargs value hvalue
  · exact hr.executeAll hk ⟨ha.chain.introduceAll ha.ordinary hplaced.free, ha.ordinary⟩ hbody

theorem callFunction (hr : Follows w fuel run) (hm : m.Framed w) {f : FunctionId}
    (hf : m.Callable w f) {arguments : List Value} (hargs : ∀ v ∈ arguments, m.Sane w v) :
    Runs w m (fun o => Eval.callFunction (run o) room f arguments)
      (Eval.callFunction (Eval.runner fuel) room f arguments) fun v k => k.Sane w v := by
  cases room with
  | zero => exact .halt hm .overflow
  | succ room =>
      obtain ⟨c, -, -, -, hc, -⟩ := id hf
      refine .look (Lockstep.closure_eq hc) hm ?_
      refine (hr.runBody hm hf hc hargs).bind fun completion k _ hk _ hvalue => ?_
      cases c.isInitializer with
      | false => exact .done hk hvalue
      | true =>
          refine (Runs.getAt hk c.scope 0 "this").weaken fun v k' _ _ h => ?_
          obtain ⟨rfl, holder, hv⟩ := h
          exact hk.sane holder _ v hv

theorem construct (hr : Follows w fuel run) (hm : m.Framed w) (c : ClassId)
    (hreceives : ∀ o start, Eval.newObject ⟨c, .empty⟩ m = .ok o start → Receives w.past o start)
    {arguments : List Value} (hargs : ∀ v ∈ arguments, m.Sane w v) :
    Runs w m (fun o => Eval.construct (run o) room c arguments)
      (Eval.construct (Eval.runner fuel) room c arguments) fun v k => k.Sane w v := by
  let made : Machine := { m with heap := m.heap.addObject ⟨c, .empty⟩ }
  have hmade : made.Framed w := hm.addObject c
  have hp : m.Persists made := persists_addObject m ⟨c, .empty⟩
  have ho : m.heap.objects.size < made.heap.objects.size := by
    show m.heap.objects.size < (m.heap.objects.push _).size
    rw [Array.size_push]
    exact Nat.lt_succ_self _
  refine .step (a := m.heap.objects.size) rfl hmade (hp.later rfl rfl) ?_
  refine .look (a := made.heap) rfl hmade ?_
  cases hfind : made.heap.findMethod? c initializerName with
  | none => exact .done hmade ho
  | some method =>
      obtain ⟨d, data, hd, hmethod⟩ := Heap.exists_method_of_findMethod? hfind
      refine (Runs.bindMethod hmade (hmade.methods d data _ method hd hmethod) ho
        (hreceives _ _ rfl)).bind fun f k _ hk hl hf => ?_
      refine (hr.callFunction hk hf fun v hv =>
        ((hargs v hv).mono hp).mono hl.toPersists).bind fun _ k' _ hk' hl' _ => ?_
      exact .done hk' (hl'.lt_objects (hl.lt_objects ho))

theorem invoke (hr : Follows w fuel run) (hm : m.Framed w) {callee : Value}
    (hc : m.Sane w callee)
    (hreceives : ∀ c o start, callee = .cls c → Eval.newObject ⟨c, .empty⟩ m = .ok o start →
      Receives w.past o start)
    {arguments : List Value} (hargs : ∀ v ∈ arguments, m.Sane w v) :
    Runs w m (fun o => Eval.invoke (run o) room callee arguments)
      (Eval.invoke (Eval.runner fuel) room callee arguments) fun v k => k.Sane w v := by
  cases callee with
  | native f => exact Runs.callNative hm f arguments
  | function f => exact hr.callFunction hm hc hargs
  | cls c => exact hr.construct hm c (fun o start => hreceives c o start rfl) hargs
  | _ => exact .halt hm _

-- =================================================================== classes

/-- Making the methods of a class adds functions, and each of them lies in the same frame. -/
theorem exists_newMethods (m : Machine) (frame : FrameId) (methods : List FunDecl)
    (own : Bindings FunctionId) :
    ∃ own' functions,
      Eval.newMethods frame methods own m
          = .ok own' { m with heap := { m.heap with functions } }
        ∧ (∀ (f : FunctionId) (c : Closure), m.heap.functions[f]? = some c →
          functions[f]? = some c)
        ∧ ∀ name f, own'.find? name = some f → own.find? name = some f
          ∨ ∃ d ∈ methods, d.name.lexeme = name
            ∧ functions[f]? = some ⟨d, frame, d.name.lexeme == initializerName⟩ := by
  induction methods generalizing m own with
  | nil => exact ⟨own, m.heap.functions, rfl, fun _ _ h => h, fun _ _ h => .inl h⟩
  | cons d rest ih =>
      let c : Closure := ⟨d, frame, d.name.lexeme == initializerName⟩
      obtain ⟨own', functions, hrun, hkept, hfound⟩ :=
        ih { m with heap := m.heap.addFunction c } (own.set d.name.lexeme m.heap.functions.size)
      refine ⟨own', functions, hrun, fun f e hf => hkept f e (getElem?_push_of_some hf),
        fun name f hf => ?_⟩
      rcases hfound name f hf with hold | ⟨e, he, hnew⟩
      · rw [Bindings.find?_set] at hold
        split at hold
        · rename_i he
          cases hold
          exact .inr ⟨d, List.mem_cons_self, he, hkept _ c Array.getElem?_push_size⟩
        · exact .inl hold
      · exact .inr ⟨e, List.mem_cons_of_mem _ he, hnew⟩

/-- A name that its frame binds is assigned to there. -/
theorem assignNamed_eq {frame : FrameId} {name : Token}
    (h : (m.heap.scopes.local? frame name.lexeme).isSome) (value : Value) :
    Eval.assignNamed frame name value m
      = .ok () { m with heap := m.heap.define frame name.lexeme value } := by
  unfold Eval.assignNamed
  rw [run_bind_ok (show Eval.heap m = .ok m.heap m from rfl), Forest.holder?_of_local? h]
  rfl

/-- A class without a superclass. -/
theorem declareAlone (hm : m.Framed w) (ha : m.Place w scopes cls) {S : ClassDecl}
    (halone : S.superclass = none) (hname : S.name.Free)
    (hfree : ∀ d ∈ S.methods, ∀ param ∈ d.params, param.Free)
    (hk : w.Knows
      (FunDecl.visitsAll .plain (Scopes.ofMethods (scopes.introduce S.name).1 none) S.methods)
      (FunDecl.sitesAll (some S) S.methods)) :
    Runs w m (fun o => Eval.declareClass (run o) room S.name none S.methods)
      (Eval.declareClass (Eval.runner fuel) room S.name none S.methods) fun _ _ => True := by
  have hlt := ha.lt_next hm
  let named : Machine := { m with heap := m.heap.define m.scope S.name.lexeme .nil }
  have hnamed : named.Framed w := hm.define hlt ha.ordinary hname.not_special trivial
  have hto : m.Later named := (persists_define hlt ha.ordinary hname.not_special).later rfl rfl
  have hplace : named.Place w (scopes.introduce S.name).1 cls :=
    (ha.later hm hto).introduce hname
  refine .step (a := ()) rfl hnamed hto ?_
  refine .look (a := m.scope) rfl hnamed ?_
  obtain ⟨own, functions, hrun, hkept, hfound⟩ := exists_newMethods named m.scope S.methods .empty
  let filled : Machine := { named with heap := { named.heap with functions } }
  have hfilled : filled.Framed w := hnamed.functions hkept
  have hfill : named.Later filled := (persists_functions hkept).later rfl rfl
  refine .step hrun hfilled hfill ?_
  let data : ClassData := ⟨S.name.lexeme, none, own⟩
  let made : Machine := { filled with heap := filled.heap.addClass data }
  have hmethods : ∀ name f, own.find? name = some f → filled.Method w name f := by
    intro name f hf
    rcases hfound name f hf with hold | ⟨d, hd, htitle, hfunction⟩
    · cases hold
    · have hplaced : d.Placed w ⟨d.methodKind, .plain⟩
          (Scopes.ofMethods (scopes.introduce S.name).1 S.superclass) (some S) := by
        rw [halone]
        exact ⟨hk.method hd, hfree d hd⟩
      exact ⟨_, _, _, cls, S, m.scope, hfunction, hplace.chain.mono hfill.toPersists,
        .plain halone, hplaced, htitle, rfl⟩
  have hmade : made.Framed w := hfilled.addClass hmethods fun _ h => by cases h
  have hmake : filled.Later made := (persists_addClass filled data).later rfl rfl
  refine .step (a := filled.heap.classes.size) rfl hmade hmake ?_
  have hplace' : made.Place w (scopes.introduce S.name).1 cls :=
    (hplace.later hnamed hfill).later hfilled hmake
  have hbound : (made.heap.scopes.local? m.scope S.name.lexeme).isSome := by
    show ((m.heap.scopes.define m.scope S.name.lexeme .nil).local? m.scope S.name.lexeme).isSome
    rw [Forest.local?_define hlt, if_pos ⟨rfl, rfl⟩]
    rfl
  have hclass : made.Sane w (.cls filled.heap.classes.size) := by
    show filled.heap.classes.size < (filled.heap.classes.push data).size
    rw [Array.size_push]
    exact Nat.lt_succ_self _
  have hlt' : m.scope < made.heap.scopes.next := hplace'.lt_next hmade
  refine .act (assignNamed_eq hbound _) ?_ ?_ trivial
  · exact hmade.define hlt' hplace'.ordinary hname.not_special hclass
  · exact (persists_define hlt' hplace'.ordinary hname.not_special).later rfl rfl

/-- The name of a superclass is read with the class in scope. -/
theorem superclassValue (hr : Follows w fuel run) (hm : m.Framed w) (ha : m.Place w scopes cls)
    {parent : NameRef} {naming : Option String}
    (hk : w.Knows [⟨.expression parent.asExpr, around, scopes, naming⟩]
      (Site.within cls [.expression parent.asExpr])) :
    Runs w m (fun o => Eval.superclassValue (run o) room parent)
      (Eval.superclassValue (Eval.runner fuel) room parent)
      fun c k => c < k.heap.classes.size := by
  have hvisit : w.Knows (parent.asExpr.visits around scopes)
      (Site.within cls parent.asExpr.nodes) := by
    refine ⟨fun v hv => ?_, hk.sited⟩
    have hone : v = ⟨.expression parent.asExpr, around, scopes, none⟩ := List.mem_singleton.1 hv
    rw [hone]
    exact hk.head.1
  refine hr.after hm ha hvisit fun v k hk' _ hv => ?_
  cases v with
  | cls c => exact .done hk' hv
  | _ => exact .halt hk' _

/-- What a class statement leaves once it has its superclass: its name is bound to the new class where
the statement stands, and the methods lie in a new frame inside, of `super` alone. -/
structure DeclaredBelow (m : Machine) (S : ClassDecl) (above : ClassId)
    (own : Bindings FunctionId) (m' : Machine) : Prop extends m.Later m' where
  locals : ∀ frame x, m'.heap.scopes.local? frame x
    = if frame = m.scope ∧ x = S.name.lexeme then some (.cls m.heap.classes.size)
      else if frame = m.heap.scopes.next then (Bindings.empty.set "super" (.cls above)).find? x
      else m.heap.scopes.local? frame x
  base : m'.heap.scopes.bindings m.heap.scopes.next = Bindings.empty.set "super" (.cls above)
  outside : m'.heap.scopes.enclosing? m.heap.scopes.next = some m.scope
  added : m'.heap.classes = m.heap.classes.push ⟨S.name.lexeme, some above, own⟩
  fields : m'.heap.objects = m.heap.objects
  made : ∀ name f, own.find? name = some f → ∃ d ∈ S.methods, d.name.lexeme = name
    ∧ m'.heap.functions[f]? = some ⟨d, m.heap.scopes.next, d.name.lexeme == initializerName⟩

/-- With its superclass at hand a class statement cannot fail. -/
theorem exists_declaredBelow {S : ClassDecl} (hlt : m.scope < m.heap.scopes.next)
    (ho : m.Ordinary m.scope) (hname : ¬ Special S.name.lexeme) (above : ClassId) :
    ∃ own m', DeclaredBelow m S above own m' ∧
      (do
        Eval.define S.name.lexeme .nil
        let frame ← Eval.scope
        let inner ← Eval.newFrame frame (Bindings.empty.set "super" (.cls above))
        let own ← Eval.newMethods inner S.methods .empty
        let c ← Eval.newClass ⟨S.name.lexeme, some above, own⟩
        Eval.assignNamed frame S.name (.cls c)) m = .ok () m' := by
  let b : Bindings Value := Bindings.empty.set "super" (.cls above)
  let named : Machine := { m with heap := m.heap.define m.scope S.name.lexeme .nil }
  have hnext : named.heap.scopes.next = m.heap.scopes.next := Forest.next_define
  have hto : m.Persists named := persists_define hlt ho hname
  let opened : Machine := { named with heap := named.heap.addFrame m.scope b }
  have hopen : named.Persists opened := persists_addFrame named m.scope b
  obtain ⟨own, functions, hrun, hkept, hfound⟩ :=
    exists_newMethods opened named.heap.scopes.next S.methods .empty
  let filled : Machine := { opened with heap := { opened.heap with functions } }
  have hfill : opened.Persists filled := persists_functions hkept
  let data : ClassData := ⟨S.name.lexeme, some above, own⟩
  let made : Machine := { filled with heap := filled.heap.addClass data }
  have hmid : m.Persists made :=
    ((hto.trans hopen).trans hfill).trans (persists_addClass filled data)
  have hltmade : m.scope < made.heap.scopes.next := Nat.lt_of_lt_of_le hlt hmid.next
  let after : Machine := { made with
    heap := made.heap.define m.scope S.name.lexeme (.cls filled.heap.classes.size) }
  have hassign : made.Persists after :=
    persists_define hltmade (hmid.ordinary _ hlt ho) hname
  have hne : m.heap.scopes.next ≠ m.scope := Nat.ne_of_gt hlt
  have hlocals : ∀ frame x, made.heap.scopes.local? frame x
      = if frame = m.heap.scopes.next then b.find? x
        else if frame = m.scope ∧ x = S.name.lexeme then some .nil
        else m.heap.scopes.local? frame x := by
    intro frame x
    rw [← hnext, ← show named.heap.scopes.local? frame x = _ from Forest.local?_define hlt]
    exact local?_addFrame named m.scope b frame x
  have hbound : (made.heap.scopes.local? m.scope S.name.lexeme).isSome := by
    rw [hlocals, if_neg hne.symm, if_pos ⟨rfl, rfl⟩]
    rfl
  refine ⟨own, after, ⟨(hmid.trans hassign).later rfl rfl, fun frame x => ?_, ?_, ?_, rfl, rfl,
    fun name f hf => ?_⟩, ?_⟩
  · rw [show after.heap.scopes.local? frame x = _ from Forest.local?_define hltmade, hlocals]
    split
    · rfl
    · rfl
  · have hframe : made.heap.scopes.bindings m.heap.scopes.next = b := by
      rw [← hnext]
      exact bindings_addFrame named m.scope b
    exact (bindings_define_of_ne hltmade hne).trans hframe
  · have hframe : made.heap.scopes.enclosing? m.heap.scopes.next = some m.scope := by
      rw [← hnext]
      exact enclosing?_addFrame named m.scope b
    exact Forest.enclosing?_define.trans hframe
  · rw [← hnext]
    exact (hfound name f hf).resolve_left nofun
  · rw [run_bind_ok (show Eval.define S.name.lexeme .nil m = .ok () named from rfl),
      run_bind_ok (show Eval.scope named = .ok m.scope named from rfl),
      run_bind_ok (show Eval.newFrame m.scope b named = .ok named.heap.scopes.next opened from rfl),
      run_bind_ok hrun,
      run_bind_ok (show Eval.newClass data filled = .ok filled.heap.classes.size made from rfl)]
    exact assignNamed_eq hbound _

/-- Frames are in order behind a class statement: the one frame that binds `super` anew was made for
its class. -/
theorem DeclaredBelow.framed {S : ClassDecl} {above : ClassId} {own : Bindings FunctionId}
    (h : DeclaredBelow m S above own m') (hm : m.Framed w) (hname : S.name.Free)
    (habove : above < m.heap.classes.size)
    (hmade : S.Made w.past m' m.heap.scopes.next above)
    (hmethods : ∀ name f, own.find? name = some f → m'.Method w name f) : m'.Framed w := by
  have habove' : above < m'.heap.classes.size := h.lt_classes habove
  refine hm.move h.toPersists h.distances (fun frame hf => .inl ?_) (fun frame hf => ?_)
    (fun frame x v hv => ?_) (fun _ data _ _ ho hv => .inl ⟨data, h.fields ▸ ho, hv⟩)
    fun κ d hd => ?_
  · rw [h.locals, if_neg fun he => hname.ne_this he.2.symm] at hf
    split at hf
    · cases hf
    · exact hf
  · rw [h.locals, if_neg fun he => hname.ne_super he.2.symm] at hf
    split at hf
    · rename_i hframe
      subst hframe
      exact .inr ⟨S, above, habove', h.base, hmade⟩
    · exact .inl hf
  · rw [h.locals] at hv
    split at hv
    · cases hv
      refine .inr ?_
      show m.heap.classes.size < m'.heap.classes.size
      rw [h.added, Array.size_push]
      exact Nat.lt_succ_self _
    · split at hv
      · rw [Bindings.find?_set] at hv
        split at hv
        · cases hv
          exact .inr habove'
        · cases hv
      · exact .inl hv
  · rw [h.added, Array.getElem?_push] at hd
    split at hd
    · rename_i hκ
      cases hd
      refine .inr ⟨hmethods, fun parent hparent => ?_⟩
      cases hparent
      rw [hκ]
      exact habove
    · exact .inl hd

/-- **A class with a superclass** makes the frame of `super`. The class statement that was entered is
what this frame was made by. -/
theorem declareBelow (hr : Follows w fuel run) (hm : m.Framed w) (ha : m.Place w scopes cls)
    {S : ClassDecl} {parent : NameRef} {naming : Option String}
    (hparent : S.superclass = some parent) (hname : S.name.Free)
    (hfree : ∀ d ∈ S.methods, ∀ param ∈ d.params, param.Free)
    (hsuper : w.Knows [⟨.expression parent.asExpr, around, (scopes.introduce S.name).1, naming⟩]
      (Site.within cls [.expression parent.asExpr]))
    (hk : w.Knows
      (FunDecl.visitsAll .subclass (Scopes.ofMethods (scopes.introduce S.name).1 (some parent))
        S.methods)
      (FunDecl.sitesAll (some S) S.methods))
    {start : Machine} (hpast : w.past (.statement S.statement) start)
    (hnote : Eval.noteStatement S.statement start = .ok () m) :
    Runs w m (fun o => Eval.declareClass (run o) room S.name (some parent) S.methods)
      (Eval.declareClass (Eval.runner fuel) room S.name (some parent) S.methods)
      fun _ _ => True := by
  refine (hr.superclassValue hm (ha.introduce hname) hsuper).bind
    fun c k hevaluated hk' hl hc => ?_
  have hak : k.Place w scopes cls := ha.later hm hl
  obtain ⟨own, after, hdone, htail⟩ :=
    exists_declaredBelow (hak.lt_next hk') hak.ordinary hname.not_special c
  have hran : S.Ran start k.heap.scopes.next c after := by
    refine @ClassDecl.Ran.intro S start fuel room parent c k after hparent ?_ ?_
    · rw [run_bind_ok hnote]
      exact hevaluated
    · have hdeclare : Eval.declareClass (Eval.runner fuel) room S.name (some parent) S.methods m
          = .ok () after := (run_bind_ok hevaluated).trans htail
      have hperform : Eval.performNode (Eval.runner fuel) room S.statement m
          = .ok .normal after := by
        unfold ClassDecl.statement
        rw [hparent]
        exact run_bind_ok hdeclare
      exact (run_bind_ok hnote).trans hperform
  have hmade : S.Made w.past after k.heap.scopes.next c :=
    ⟨start, after, hpast, hran, .refl after⟩
  -- Both chains, of the class and of its methods, go through the name's own frame.
  have hchain : Chain w.past after k.scope (scopes.introduce S.name).1 cls := by
    have hplace := ((hak.later hk' hdone.toLater).introduce hname).chain
    rwa [hdone.scope] at hplace
  have hmethods : ∀ name f, own.find? name = some f → after.Method w name f := by
    intro name f hf
    obtain ⟨d, hd, htitle, hfunction⟩ := hdone.made name f hf
    have hplaced : d.Placed w ⟨d.methodKind, .subclass⟩
        (Scopes.ofMethods (scopes.introduce S.name).1 S.superclass) (some S) := by
      rw [hparent]
      exact ⟨hk.method hd, hfree d hd⟩
    exact ⟨_, _, _, cls, S, k.scope, hfunction, hchain,
      .below hparent hdone.outside hdone.base hmade, hplaced, htitle, rfl⟩
  exact .act htail (hdone.framed hk' hname hc hmade hmethods) hdone.toLater trivial

end Follows

end Lox
