/-
What holds of accepted programs, in whatever session of accepted programs they
run: wherever the evaluator enters a node it is in step with the resolver's visit
to that node, what the node needs is there, nothing ever breaks, and the run is
the one that lexical scoping prescribes.
-/
import Lox.Proofs.Lockstep.Session

namespace Lox

open Session (Prepares History Alongside)

variable {visits : List Visit} {bodies : List (List Stmt)} {body : List Stmt} {s s' : Session}
  {text : List Char} {label : String} {fuel room : Nat} {node : Node} {m : Machine}

-- ================================================================== accepting

/-- A session accepts a text that can be read and resolved. -/
theorem Session.exists_prepares (hprogram : (readProgram text s.nextId).program = .ok body)
    (hclear : (resolveProgram body).faults = []) (label : String) :
    ∃ s', s.Prepares text label body s' := by
  have hread : s.read text label = (.ok body, (s.read text label).2) := by
    unfold Session.read
    dsimp only
    rw [hprogram]
  have hresolve : (s.read text label).2.resolve body
      = (.ok (resolveProgram body), ((s.read text label).2.resolve body).2) := by
    unfold Session.resolve
    dsimp only
    rw [hclear]
    rfl
  exact ⟨_, .intro hread hresolve⟩

/-- Whether a fresh session accepts a text, with something to run in it. -/
def acceptsSome (text : List Char) : Bool :=
  (readProgram text 1).program.toOption.any fun body =>
    (resolveProgram body).faults.isEmpty && !body.isEmpty

theorem Session.exists_prepares_start (h : acceptsSome text = true) (tracing : Bool)
    (clock : Float) (label : String) :
    ∃ first rest s', (Session.start tracing clock).Prepares text label (first :: rest) s' := by
  unfold acceptsSome at h
  cases hprogram : (readProgram text 1).program with
  | error faults =>
      rw [hprogram] at h
      cases h
  | ok body =>
      rw [hprogram] at h
      have hboth : (resolveProgram body).faults.isEmpty = true ∧ (!body.isEmpty) = true :=
        Bool.and_eq_true_iff.mp h
      cases body with
      | nil => cases hboth.2
      | cons first rest =>
          obtain ⟨s', accepted⟩ := Session.exists_prepares (s := Session.start tracing clock)
            hprogram (List.isEmpty_iff.mp hboth.1) label
          exact ⟨first, rest, s', accepted⟩

/-- Whether a session accepts a text, and what can be said of the program then. -/
def Session.accepting (s : Session) (text : List Char) (test : List Stmt → Session → Bool) : Bool :=
  match s.read text "" with
  | (.ok body, read) =>
    match read.resolve body with
    | (.ok survey, resolved) => test body (resolved.link survey)
    | _ => false
  | _ => false

theorem Session.exists_of_accepting {test : List Stmt → Session → Bool}
    (h : s.accepting text test = true) :
    ∃ body s', s.Prepares text "" body s' ∧ test body s' = true := by
  unfold Session.accepting at h
  split at h
  · rename_i body read hread
    split at h
    · rename_i survey resolved hresolve
      exact ⟨body, _, .intro hread hresolve, h⟩
    · cases h
  · cases h

/-- A program in which a function outlives the call that it was made in. -/
def counterText : List Char :=
  "fun f() \x7b var a = nil; fun g() \x7b print a; a = true; \x7d return g; \x7d var h = f(); h();".toList

theorem acceptsSome_counterText : acceptsSome counterText = true := by decide +kernel

-- ================================================================ entering

/-- A moment is come to when a check that fails there alone is noticed with every alarm. -/
theorem enters_of_noticed_always {check : Check} {moment : Machine}
    (honly : ∀ n k, check n k = false → n = node ∧ k = moment)
    (hnoticed : ∀ alarm, Eval.interpretWith (Eval.watchedRunner check alarm fuel) room body m
      = .error alarm moment) : Enters fuel room body m node moment := by
  -- One of two alarms is not how the plain run ends.
  by_cases h : Eval.interpret fuel room body m = .error .overflow moment
  · refine ⟨check, .exhausted, honly, ?_⟩
    rw [hnoticed, h]
    nofun
  · refine ⟨check, .overflow, honly, ?_⟩
    rw [hnoticed]
    exact fun he => h he.symm

/-- A run enters the first statement of a program where it starts. -/
theorem enters_first (fuel room : Nat) (first : Stmt) (rest : List Stmt) (m : Machine) :
    Enters (fuel + 1) room (first :: rest) m (.statement first) m := by
  classical
  let check : Check := fun n k => !decide (n = .statement first ∧ k = m)
  have honly : ∀ n k, check n k = false → n = .statement first ∧ k = m := by
    intro n k h
    simpa [check] using h
  have hcheck : check (.statement first) m = false := by simp [check]
  refine enters_of_noticed_always honly fun alarm => ?_
  have hfirst : (Eval.watchedRunner check alarm (fuel + 1)).execute room first m
      = .error alarm m := by
    show (if check (.statement first) m then _ else _) = _
    rw [hcheck]
    rfl
  unfold Eval.interpretWith
  exact Lockstep.run_bind_error hfirst

/-- Where nothing is traced, it enters the expression of an expression statement there as well. -/
theorem enters_expression (fuel room : Nat) (id : NodeId) (e : Expr) (rest : List Stmt) (m : Machine)
    (untraced : m.tracing = false) :
    Enters (fuel + 2) room (.expression id e :: rest) m (.expression e) m := by
  classical
  let check : Check := fun n k => !decide (n = .expression e ∧ k = m)
  have honly : ∀ n k, check n k = false → n = .expression e ∧ k = m := by
    intro n k h
    simpa [check] using h
  have hpass : check (.statement (.expression id e)) m = true := by simp [check]
  have hcheck : check (.expression e) m = false := by simp [check]
  have hnote : Eval.noteStatement (.expression id e) m = .ok () m := by
    unfold Eval.noteStatement
    rw [untraced]
    rfl
  refine enters_of_noticed_always honly fun alarm => ?_
  have hinner : (Eval.watchedRunner check alarm (fuel + 1)).evaluate room e m = .error alarm m := by
    show (if check (.expression e) m then _ else _) = _
    rw [hcheck]
    rfl
  have hfirst : (Eval.watchedRunner check alarm (fuel + 2)).execute room (.expression id e) m
      = .error alarm m := by
    show (if check (.statement (.expression id e)) m then _ else _) = _
    rw [hpass, if_pos rfl]
    exact (Lockstep.run_bind_ok hnote).trans (Lockstep.run_bind_error hinner)
  unfold Eval.interpretWith
  exact Lockstep.run_bind_error hfirst

-- ================================================================= in step

namespace Lockstep

variable {p q : Pair} {scopes : Scopes}

theorem Pair.Meets.inStep (hp : p.Ok visits) {v : Visit} (h : p.Meets v) : v.InStep p.machine := by
  cases h with
  | here place =>
      refine ⟨place.tied.depth hp, fun i scope hi => ?_⟩
      obtain ⟨frame, ha, hready⟩ := place.tied.ancestor hi
      exact ⟨frame, ha, fun name hname => .inl (hready name hname)⟩
  | @naming around scopes names name parent place settled other =>
      cases scopes with
      | nil =>
          have hdepth : p.frames.depth p.machine.scope = 0 := place.tied.depth hp
          exact ⟨hdepth, nofun⟩
      | cons innermost outer =>
          have hdepth : p.frames.depth p.machine.scope = (innermost :: outer).length :=
            place.tied.depth hp
          refine ⟨hdepth, fun i scope hi => ?_⟩
          replace hi : (((innermost.set name.lexeme false).set name.lexeme true) :: outer)[i]?
              = some scope := hi
          cases i with
          | zero =>
              obtain ⟨frame, ha, hready⟩ := place.tied.ancestor (i := 0) rfl
              refine ⟨frame, ha, fun other hother => ?_⟩
              rw [List.getElem?_cons_zero, Option.some.injEq] at hi
              subst hi
              by_cases he : name.lexeme = other
              · exact .inr ⟨rfl, congrArg some he⟩
              · rw [Bindings.find?_set_of_ne _ he, Bindings.find?_set_of_ne _ he] at hother
                exact .inl (hready other hother)
          | succ i =>
              rw [List.getElem?_cons_succ] at hi
              obtain ⟨frame, ha, hready⟩ := place.tied.ancestor (i := i + 1) hi
              exact ⟨frame, ha, fun other hother => .inl (hready other hother)⟩

end Lockstep

/-- Two visits to nodes of one number are one visit. -/
theorem Lockstep.Steady.eq_of_id {p : Lockstep.Pair} (h : Lockstep.Steady visits s p) {v w : Visit}
    (hv : v ∈ visits) (hw : w ∈ visits) (he : w.node.id = v.node.id) : w = v :=
  List.inj_on_of_nodup_map h.distinct hw hv he

/-- **Resolver and evaluator open scopes in lockstep.** Whenever a run of an accepted program enters
a node, of this program or of one that left a function behind, the machine is in step with the
resolver's visit to this node, of which there is only one. -/
theorem exists_visit_inStep (before : History bodies s)
    (accepted : s.Prepares text label body s') (h : Enters fuel room body s'.machine node m) :
    ∃ v ∈ Session.visits (body :: bodies), v.node = node ∧ v.InStep m
      ∧ ∀ w ∈ Session.visits (body :: bodies), w.node.id = node.id → w = v := by
  obtain ⟨p, hp⟩ := Lockstep.exists_steady_of_prepares before accepted
  rw [← hp.machine] at h
  obtain ⟨v, hv, rfl, q, rfl, hq, hmeets⟩ := Lockstep.exists_meets hp.ok hp.at
    (fun v hv => Lockstep.mem_visits_cons body bodies hv) h
  exact ⟨v, hv, rfl, hmeets.inStep hq, fun w hw he => hp.eq_of_id hv hw he⟩

theorem exists_visit_inStep_counter :
    ∃ body s' node m, (Session.start false 0).Prepares counterText "" body s'
      ∧ Enters 1 0 body s'.machine node m
      ∧ ∃ v ∈ Session.visits [body], v.node = node ∧ v.InStep m
        ∧ ∀ w ∈ Session.visits [body], w.node.id = node.id → w = v := by
  obtain ⟨first, rest, s', accepted⟩ := Session.exists_prepares_start
    acceptsSome_counterText false 0 ""
  have henters := enters_first 0 0 first rest s'.machine
  exact ⟨_, s', _, _, accepted, henters,
    exists_visit_inStep (.start false 0) accepted henters⟩

-- ============================================================ what is needed

/-- What a node needs when it is entered. A variable that a scope binds is in the table, and a value
lies where the table says; `this` and `super` are in the table whatever else, and with `super` lie
a class and, one step further in, the object at hand. -/
def Visit.Served (v : Visit) (m : Machine) : Prop :=
  match v.node with
  | .expression (.var id name) =>
    ∀ distance, v.scopes.distance? name.lexeme = some distance →
      m.distances[id]? = some distance
        ∧ ∃ value, Eval.getAt m.scope distance name.lexeme m = .ok value m
  | .expression (.assign id name _) =>
    ∀ distance, v.scopes.distance? name.lexeme = some distance →
      m.distances[id]? = some distance ∧ ∃ holder, Eval.ancestor m.scope distance m = .ok holder m
  | .expression (.this id _) =>
    ∃ distance value, m.distances[id]? = some distance
      ∧ Eval.getAt m.scope distance "this" m = .ok value m
  | .expression (.super id _ _) =>
    ∃ distance c value, m.distances[id]? = some (distance + 1)
      ∧ Eval.getAt m.scope (distance + 1) "super" m = .ok (.cls c) m
      ∧ Eval.getAt m.scope distance "this" m = .ok value m
  | _ => True

namespace Lockstep

variable {p q : Pair} {scopes : Scopes} {names : Reference.Names} {name : String} {distance : Nat}

/-- A reserved name is ready wherever it is bound. -/
theorem special_ready (hs : scopes.Settled) (hname : name = "this" ∨ name = "super")
    {bound : Scope} (hb : scopes[distance]? = some bound) (hbinds : bound.binds name = true) :
    bound.find? name = some true := by
  refine hs.ready ?_ hb hbinds
  cases hp : scopes.isPending name with
  | false => rfl
  | true =>
      obtain ⟨hthis, hsuper⟩ := hs.special name hp
      rcases hname with he | he
      · exact absurd he hthis
      · exact absurd he hsuper

theorem Pair.Meets.served (hp : p.Ok visits) {v : Visit} (hv : v ∈ visits) (h : p.Meets v) :
    v.Served p.machine := by
  have hsound := hp.sound v hv
  cases h with
  | @here node around scopes names place =>
      cases node with
      | statement s => trivial
      | expression e =>
          cases e with
          | var id name =>
              intro distance hd
              refine ⟨(hsound.linked _ rfl).trans hd, ?_⟩
              obtain ⟨value, _, _, _, hget, _⟩ := exists_value hp place.tied hd
                fun _ hb hbinds => hsound.settled.ready (hsound.not_pending rfl) hb hbinds
              exact ⟨value, hget⟩
          | assign id name value =>
              intro distance hd
              refine ⟨(hsound.linked _ rfl).trans hd, ?_⟩
              obtain ⟨holder, _, _, ha, _⟩ := place.tied.lookUp hd
              exact ⟨holder, ancestor_eq ha⟩
          | this id keyword =>
              obtain ⟨distance, hd⟩ := Option.isSome_iff_exists.1 (hsound.this_bound rfl)
              obtain ⟨value, _, _, _, hget, _⟩ := exists_value hp place.tied hd
                fun _ hb hbinds => special_ready hsound.settled (.inl rfl) hb hbinds
              exact ⟨distance, value, (hsound.linked _ rfl).trans hd, hget⟩
          | super id keyword method =>
              obtain ⟨distance, hsuper, hthis⟩ := hsound.super_bound rfl
              obtain ⟨value, _, _, _, hget, _⟩ := exists_value hp place.tied hthis
                fun _ hb hbinds => special_ready hsound.settled (.inl rfl) hb hbinds
              obtain ⟨parent, holder, _, hlocal, hget', _⟩ := exists_value hp place.tied hsuper
                fun _ hb hbinds => special_ready hsound.settled (.inr rfl) hb hbinds
              obtain ⟨c, rfl⟩ := hp.parents holder parent hlocal
              exact ⟨distance, c, value, (hsound.linked _ rfl).trans hsuper, hget', hget⟩
          | _ => trivial
  | @naming around scopes names name parent place settled other =>
      intro distance hd
      refine ⟨(hsound.linked _ rfl).trans hd, ?_⟩
      have hpending : (scopes.introduce name).1.isPending parent.name.lexeme = false :=
        hsound.not_pending rfl
      rw [Scopes.isPending_introduce_of_ne other.symm] at hpending
      replace hd : (scopes.introduce name).1.distance? parent.name.lexeme = some distance := hd
      rw [Scopes.distance?_introduce_of_ne _ other.symm] at hd
      obtain ⟨value, _, _, _, hget, _⟩ := exists_value hp place.tied hd
        fun _ hb hbinds => settled.ready hpending hb hbinds
      exact ⟨value, hget⟩

end Lockstep

/-- **Accepted programs never fail inside.** In whatever session of accepted programs, a run of one
more is stopped by no broken link, and every node that it enters is served. What it calls undefined
is a variable that the resolver found in no scope. -/
theorem run_stop_genuine (before : History bodies s) (accepted : s.Prepares text label body s')
    (fuel room : Nat) :
    (∀ stop m, Eval.interpret fuel room body s'.machine = .error stop m →
        stop.Genuine (Session.visits (body :: bodies)))
      ∧ ∀ node m, Enters fuel room body s'.machine node m →
        ∃ v ∈ Session.visits (body :: bodies), v.node = node ∧ v.Served m := by
  obtain ⟨p, hp⟩ := Lockstep.exists_steady_of_prepares before accepted
  constructor
  · intro stop m hstop
    have hends := hp.ends (fun v hv => Lockstep.mem_visits_cons body bodies hv) fuel room
    rw [hstop] at hends
    cases hr : Reference.interpret fuel room body p.state with
    | ok u r =>
        rw [hr] at hends
        cases hends
    | error stop' r =>
        rw [hr] at hends
        cases hends with
        | error _ _ real => exact real
  · intro node m henters
    rw [← hp.machine] at henters
    obtain ⟨v, hv, hnode, q, rfl, hq, hmeets⟩ := Lockstep.exists_meets hp.ok hp.at
      (fun v hv => Lockstep.mem_visits_cons body bodies hv) henters
    exact ⟨v, hv, hnode, hmeets.served hq hv⟩

theorem run_stop_genuine_counter :
    ∃ body s', (Session.start false 0).Prepares counterText "" body s'
      ∧ (∀ stop m, Eval.interpret 60 9 body s'.machine = .error stop m →
        stop.Genuine (Session.visits [body]))
      ∧ ∀ node m, Enters 60 9 body s'.machine node m →
        ∃ v ∈ Session.visits [body], v.node = node ∧ v.Served m := by
  obtain ⟨first, rest, s', accepted⟩ := Session.exists_prepares_start
    acceptsSome_counterText false 0 ""
  exact ⟨_, s', accepted, run_stop_genuine (.start false 0) accepted 60 9⟩

-- ========================================================= lexical scoping

/-- A variable holds a function. -/
def Machine.Holds (m : Machine) (f : FunctionId) : Prop :=
  ∃ frame name, m.heap.scopes.local? frame name = some (.function f)

/-- Two functions that were made at some places, in the scopes of which the resolver went through
them, share a variable of their places on the machine exactly when they share its location in the
reference. -/
def SharedAlike (visits : List Visit) (m : Machine) (r : Reference.State) : Prop :=
  ∀ f g, m.Holds f → m.Holds g →
    ∃ (c d : Closure) (c' d' : Reference.Closure) (around around' : Surroundings)
      (scopes scopes' : Scopes),
      m.heap.functions[f]? = some c ∧ m.heap.functions[g]? = some d
        ∧ r.functions[f]? = some c' ∧ r.functions[g]? = some d'
        ∧ (∀ v ∈ c.declaration.visits around scopes, v ∈ visits)
        ∧ (∀ v ∈ d.declaration.visits around' scopes', v ∈ visits)
        ∧ ∀ name i j, scopes.distance? name = some i → scopes'.distance? name = some j →
          (m.heap.scopes.ancestor? c.scope i = m.heap.scopes.ancestor? d.scope j
            ↔ c'.names.find? name = d'.names.find? name)

/-- How a run and its reference end: both at the end of the program, or both with the same stop, at
the same token, and with the same output. -/
inductive EndAlike (visits : List Visit) :
    EStateM.Result Stop Machine Unit → EStateM.Result Stop Reference.State Unit → Prop
  | completed {m : Machine} {r : Reference.State} (output : m.output = r.output)
      (shared : SharedAlike visits m r) : EndAlike visits (.ok () m) (.ok () r)
  | stopped {stop : Stop} {m : Machine} {r : Reference.State} (output : m.output = r.output)
      (shared : SharedAlike visits m r) : EndAlike visits (.error stop m) (.error stop r)

namespace Lockstep

variable {p : Pair} {scopes : Scopes} {names : Reference.Names}

/-- A name means one variable at two places exactly when it means one location there. -/
theorem Tied.ancestor_eq_iff (hp : p.Ok visits) {frame frame' : FrameId} {scopes' : Scopes}
    {names' : Reference.Names} (h : Tied p.homes p.frames frame scopes names)
    (h' : Tied p.homes p.frames frame' scopes' names') {name : String} {i j : Nat}
    (hi : scopes.distance? name = some i) (hj : scopes'.distance? name = some j) :
    p.frames.ancestor? frame i = p.frames.ancestor? frame' j
      ↔ names.find? name = names'.find? name := by
  obtain ⟨holder, _, location, ha, _, hn, hh, _⟩ := h.lookUp hi
  obtain ⟨holder', _, location', ha', _, hn', hh', _⟩ := h'.lookUp hj
  rw [ha, ha', hn, hn', Option.some.injEq, Option.some.injEq]
  constructor
  · intro he
    rw [he, hh', Option.some.injEq] at hh
    exact hh.symm
  · intro he
    rw [← he] at hh'
    exact (hp.apart holder name holder' name location hh hh').1

theorem Pair.Ok.sharedAlike (hp : p.Ok visits) : SharedAlike visits p.machine p.state := by
  intro f g ⟨frame, name, hf⟩ ⟨frame', name', hg⟩
  have hcallable : p.Callable visits f := hp.sane frame name _ hf
  have hcallable' : p.Callable visits g := hp.sane frame' name' _ hg
  obtain ⟨c, c', around, scopes, hc, hc', ht, hk, _⟩ := hcallable
  obtain ⟨d, d', around', scopes', hd, hd', ht', hk', _⟩ := hcallable'
  refine ⟨c, d, c', d', around, around', scopes, scopes', hc, hd, hc', hd', hk.visited,
    hk'.visited, ?_⟩
  intro x i j hi hj
  exact ht.ancestor_eq_iff hp ht' hi hj

end Lockstep

/-- **Distances implement lexical scoping.** However many programs ran before on both sides, a run
on the machine, with frames and distances, and one of the reference, with neither, end alike. -/
theorem run_endAlike {r : Reference.State} (before : Alongside bodies s r)
    (accepted : s.Prepares text label body s') (fuel room : Nat) :
    EndAlike (Session.visits (body :: bodies)) (Eval.interpret fuel room body s'.machine)
      (Reference.interpret fuel room body r) := by
  obtain ⟨p, rfl, hp⟩ := Lockstep.exists_steady before
  have hends := (hp.prepare accepted).ends (fun v hv => Lockstep.mem_visits_cons body bodies hv)
    fuel room
  generalize Eval.interpret fuel room body s'.machine = run at hends ⊢
  generalize Reference.interpret fuel room body p.state = meant at hends ⊢
  cases hends with
  | ok fine later holds => exact .completed fine.output fine.sharedAlike
  | error fine later real => exact .stopped fine.output fine.sharedAlike

theorem run_endAlike_counter :
    ∃ body s', (Session.start false 0).Prepares counterText "" body s'
      ∧ EndAlike (Session.visits [body]) (Eval.interpret 60 9 body s'.machine)
        (Reference.interpret 60 9 body (.start 0)) := by
  obtain ⟨first, rest, s', accepted⟩ := Session.exists_prepares_start
    acceptsSome_counterText false 0 ""
  exact ⟨_, s', accepted, run_endAlike (.start false 0) accepted 60 9⟩

end Lox
