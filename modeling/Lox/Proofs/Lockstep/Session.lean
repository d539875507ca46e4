/-
Sessions: accepted programs that run one after another on one machine, and on
one state of the reference. Between two programs nothing is running, the nodes of
all programs so far have numbers of their own, and the distance table knows the
links of all of them (`Steady`). Preparing a program and running it keep this.
-/
import Lox.Proofs.Lockstep.Run
import Lox.Proofs.Reading.Program
import Lox.Session

namespace Lox

namespace Session

/-- A text is accepted by the reader and by the resolver as a program, which the session is then
ready to run. -/
inductive Prepares (s : Session) (text : List Char) (label : String) (body : List Stmt) :
    Session → Prop
  | intro {read resolved : Session} {survey : Survey}
      (reads : s.read text label = (.ok body, read))
      (resolves : read.resolve body = (.ok survey, resolved)) :
      Prepares s text label body (resolved.link survey)

/-- A session in which only accepted programs have run, the latest first, however they ended. What
was printed may have been taken away between two of them. -/
inductive History : List (List Stmt) → Session → Prop
  | start (tracing : Bool) (clock : Float) : History [] (start tracing clock)
  | completed {bodies : List (List Stmt)} {s s' : Session} {text : List Char} {label : String}
      {body : List Stmt} {fuel room : Nat} {m : Machine} (before : History bodies s)
      (accepted : s.Prepares text label body s')
      (ran : Eval.interpret fuel room body s'.machine = .ok () m) :
      History (body :: bodies) { s' with machine := m }
  | stopped {bodies : List (List Stmt)} {s s' : Session} {text : List Char} {label : String}
      {body : List Stmt} {fuel room : Nat} {stop : Stop} {m : Machine} (before : History bodies s)
      (accepted : s.Prepares text label body s')
      (ran : Eval.interpret fuel room body s'.machine = .error stop m) :
      History (body :: bodies) { s' with machine := m }
  | hushed {bodies : List (List Stmt)} {s : Session} (before : History bodies s) :
      History bodies s.hush

/-- The same of a session and a state of the reference: the same programs ran on both. -/
inductive Alongside : List (List Stmt) → Session → Reference.State → Prop
  | start (tracing : Bool) (clock : Float) : Alongside [] (start tracing clock) (.start clock)
  | completed {bodies : List (List Stmt)} {s s' : Session} {r r' : Reference.State}
      {text : List Char} {label : String} {body : List Stmt} {fuel room : Nat} {m : Machine}
      (before : Alongside bodies s r) (accepted : s.Prepares text label body s')
      (ran : Eval.interpret fuel room body s'.machine = .ok () m)
      (meant : Reference.interpret fuel room body r = .ok () r') :
      Alongside (body :: bodies) { s' with machine := m } r'
  | stopped {bodies : List (List Stmt)} {s s' : Session} {r r' : Reference.State}
      {text : List Char} {label : String} {body : List Stmt} {fuel room : Nat}
      {stop stop' : Stop} {m : Machine}
      (before : Alongside bodies s r) (accepted : s.Prepares text label body s')
      (ran : Eval.interpret fuel room body s'.machine = .error stop m)
      (meant : Reference.interpret fuel room body r = .error stop' r') :
      Alongside (body :: bodies) { s' with machine := m } r'
  | hushed {bodies : List (List Stmt)} {s : Session} {r : Reference.State}
      (before : Alongside bodies s r) : Alongside bodies s.hush { r with output := "" }

/-- The resolver's visits to all programs of a session. -/
def visits (bodies : List (List Stmt)) : List Visit := bodies.flatMap programVisits

/-- What a session does with an accepted program is what a history says. -/
theorem History.run {bodies : List (List Stmt)} {s s' : Session} {text : List Char}
    {label : String} {body : List Stmt} (h : History bodies s)
    (accepted : s.Prepares text label body s') :
    History (body :: bodies) (s.run text label).2 := by
  have haccepted := accepted
  cases accepted with
  | @intro read resolved survey reads resolves =>
      have hrun : (s.run text label).2 = ((resolved.link survey).perform body).2 := by
        unfold Session.run Session.runTree
        rw [reads]
        dsimp only
        rw [resolves]
      rw [hrun]
      unfold Session.perform
      cases hm : Eval.interpret stepLimit callLimit body (resolved.link survey).machine with
      | ok u m => exact .completed h haccepted hm
      | error stop m => exact .stopped h haccepted hm

end Session

namespace Lockstep

open Session (Prepares History Alongside)

variable {visits more : List Visit} {p q : Pair} {s s' : Session}

-- ================================================================== a start

/-- Only native functions are bound when nothing has run. -/
theorem native_of_start {tracing : Bool} {clock : Float} {frame : FrameId} {name : String}
    {value : Value}
    (h : (Machine.start tracing clock).heap.scopes.local? frame name = some value) :
    frame = globalFrame ∧ name ≠ "super" ∧ ∃ native, value = .native native := by
  have hframes : (Machine.start tracing clock).heap.scopes.frames
      = #[⟨none, Native.all.foldl (fun b f => b.set f.name (Value.native f)) .empty⟩] := rfl
  unfold Forest.local? Forest.bindings at h
  rw [hframes] at h
  by_cases hframe : frame = 0
  · refine ⟨hframe, ?_⟩
    rw [hframe] at h
    simp only [List.getElem?_toArray, List.getElem?_cons_zero, Native.all, List.foldl_cons,
      List.foldl_nil, Bindings.find?_set, Native.name, Bindings.find?_empty] at h
    split at h
    · rename_i he
      cases h
      exact ⟨by rw [← he]; decide, _, rfl⟩
    · split at h
      · rename_i he
        cases h
        exact ⟨by rw [← he]; decide, _, rfl⟩
      · cases h
  · have hnone : (#[Frame.mk none (Native.all.foldl (fun b f => b.set f.name (Value.native f))
        Bindings.empty)] : Array (Frame Value))[frame]? = none := by
      simp
      omega
    rw [hnone] at h
    cases h

/-- The reference of a machine on which nothing has run. -/
theorem ok_start (tracing : Bool) (clock : Float) :
    (Pair.mk (fun _ _ => none) (.start tracing clock) (.start clock)).Ok [] where
  output := rfl
  clock := rfl
  heap := by simp [Heap.bare, Reference.State.heap, Machine.start, Reference.State.start,
    Heap.initial]
  globals := rfl
  root := rfl
  rooted := Nat.zero_lt_one
  inside := nofun
  apart := nofun
  housed frame name value hframe h := absurd (native_of_start h).1 hframe
  sane frame name value h := by
    obtain ⟨-, -, native, rfl⟩ := native_of_start h
    trivial
  parents frame value h := absurd rfl (native_of_start h).2.1
  fields o data name value h := by cases h
  methods c data name f h := by cases h
  sound := nofun

-- ============================================================== more programs

theorem Known.widen {around : Surroundings} {scopes : Scopes} {f : FunDecl}
    (h : Known visits around scopes f) (hsub : ∀ v ∈ visits, v ∈ more) :
    Known more around scopes f where
  visited v hv := hsub v (h.visited v hv)
  distinct := h.distinct
  free := h.free

theorem Pair.Function.widen {inside : Scopes → Scopes} {f : FunctionId}
    {holds : Bool → Scopes → Prop} (h : p.Function visits inside f holds)
    (hsub : ∀ v ∈ visits, v ∈ more) : p.Function more inside f holds := by
  obtain ⟨c, c', around, scopes, hc, hc', ht, hk, hi⟩ := h
  exact ⟨c, c', around, scopes, hc, hc', ht, hk.widen hsub, hi⟩

theorem Pair.Sane.widen {value : Value} (h : p.Sane visits value)
    (hsub : ∀ v ∈ visits, v ∈ more) : p.Sane more value := by
  cases value with
  | function f =>
      have hf : p.Callable visits f := h
      exact Pair.Function.widen hf hsub
  | object o => exact h
  | nil | boolean | number | string | native | cls => trivial

/-- A machine with another table that serves more visits. -/
theorem Pair.Ok.relink (hp : p.Ok visits) {table : Distances} (trace : String)
    (hsub : ∀ v ∈ visits, v ∈ more) (hsound : ∀ v ∈ more, v.Sound table) :
    (Pair.mk p.homes { p.machine with distances := table, trace } p.state).Ok more :=
  { hp with
    sane := fun frame name value h => Pair.Sane.widen (hp.sane frame name value h) hsub
    fields := fun o data name value ho hf =>
      Pair.Sane.widen (hp.fields o data name value ho hf) hsub
    methods := fun c data name f hc hf =>
      Pair.Function.widen (hp.methods c data name f hc hf) hsub
    sound := hsound }

/-- What was printed may be taken away on both sides. -/
theorem Pair.Ok.hush (hp : p.Ok visits) (trace : String) :
    (Pair.mk p.homes { p.machine with output := "", trace } { p.state with output := "" }).Ok
      visits :=
  { hp with output := rfl }

-- ================================================================== sessions

/-- A session between two programs, with a reference beside it. -/
structure Steady (visits : List Visit) (s : Session) (p : Pair) : Prop where
  machine : p.machine = s.machine
  ok : p.Ok visits
  top : s.machine.scope = globalFrame
  numbered : ∀ v ∈ visits, v.node.id < s.nextId
  known : ∀ id distance, s.machine.distances[id]? = some distance → id < s.nextId
  distinct : (visits.map fun v => v.node.id).Nodup

theorem Steady.at (h : Steady visits s p) : p.At [] .empty where
  tied := by
    rw [h.machine, h.top]
    exact .top
  own := nofun

theorem noteAll_eq (m : Machine) (lines : List String) :
    ∃ trace, m.noteAll lines = { m with trace } := by
  have hfold : ∀ m : Machine, ∃ trace, lines.foldl Machine.note m = { m with trace } := by
    induction lines with
    | nil => exact fun m => ⟨m.trace, rfl⟩
    | cons line rest ih =>
        intro m
        obtain ⟨trace, h⟩ := ih (m.note line)
        exact ⟨trace, h⟩
  unfold Machine.noteAll
  split
  · exact hfold m
  · exact ⟨m.trace, rfl⟩

theorem getElem?_addLinks_cases {table : Distances} {links : List Link} {id : NodeId}
    {distance : Nat} (h : (table.addLinks links)[id]? = some distance) :
    table[id]? = some distance ∨ ∃ link ∈ links, link.id = id := by
  by_cases hex : ∃ link ∈ links, link.id = id
  · exact .inr hex
  · rw [Distances.getElem?_addLinks_of_ne fun link hl he => hex ⟨link, hl, he⟩] at h
    exact .inl h

/-- What preparing a program does. -/
theorem prepares_cases {text : List Char} {label : String} {body : List Stmt}
    (h : s.Prepares text label body s') :
    ReadAs text s.nextId s'.nextId body ∧ (resolveProgram body).faults = []
      ∧ ∃ trace, s'.machine = { s.machine with
          distances := s.machine.distances.addLinks (resolveProgram body).links, trace } := by
  cases h with
  | @intro read resolved survey reads resolves =>
      unfold Session.read at reads
      dsimp only at reads
      split at reads
      · rename_i found hprogram
        cases reads
        unfold Session.resolve at resolves
        dsimp only at resolves
        split at resolves
        · rename_i hclear
          cases resolves
          obtain ⟨trace, htrace⟩ := noteAll_eq s.machine
            ((readProgram text s.nextId).trace text label)
          obtain ⟨trace', htrace'⟩ := noteAll_eq ({ s.machine with trace } : Machine)
            (resolveProgram body).trace
          refine ⟨readAs_of_program hprogram, List.isEmpty_iff.mp hclear, trace', ?_⟩
          unfold Session.link
          rw [htrace]
          dsimp only
          rw [htrace']
        · cases resolves
      · cases reads

/-- The nodes that a program is made of are visited once each. -/
theorem map_id_programVisits (body : List Stmt) :
    (programVisits body).map (fun v => v.node.id) = Stmt.idsAll body := by
  rw [Stmt.idsAll, ← Stmt.map_node_visitsAll .topLevel [] body, List.map_map]
  rfl

/-- A session that is steady can prepare for a program, and is steady then. -/
theorem Steady.prepare (h : Steady visits s p) {text : List Char} {label : String}
    {body : List Stmt} (ha : s.Prepares text label body s') :
    Steady (programVisits body ++ visits) s' ⟨p.homes, s'.machine, p.state⟩ := by
  obtain ⟨hread, hclear, trace, hmachine⟩ := prepares_cases ha
  have hids : ∀ v ∈ programVisits body, s.nextId ≤ v.node.id ∧ v.node.id < s'.nextId := by
    intro v hv
    refine hread.numbers.range _ ?_
    rw [← map_id_programVisits]
    exact List.mem_map_of_mem hv
  have hnodes : ∀ n ∈ Stmt.nodesAll body, s.nextId ≤ n.id ∧ n.id < s'.nextId := fun n hn =>
    hread.numbers.range _ (List.mem_map_of_mem hn)
  have hlinks : ∀ link ∈ (resolveProgram body).links, s.nextId ≤ link.id ∧ link.id < s'.nextId := by
    intro link hl
    obtain ⟨n, hn, he⟩ := id_mem_of_mem_links hl
    exact he ▸ hnodes n hn
  have hsound : ∀ v ∈ programVisits body ++ visits,
      v.Sound (s.machine.distances.addLinks (resolveProgram body).links) := by
    intro v hv
    rcases List.mem_append.mp hv with hv | hv
    · refine programVisits_sound hread.proper hread.numbers.distinct (fun n hn => ?_) hclear v hv
      cases hd : s.machine.distances[n.id]? with
      | none => rfl
      | some distance => exact absurd (h.known _ _ hd) (Nat.not_lt.mpr (hnodes n hn).1)
    · have hold := h.ok.sound v hv
      rw [h.machine] at hold
      refine hold.addLinks fun link hl he => ?_
      have hlt := h.numbered v hv
      rw [← he] at hlt
      exact absurd hlt (Nat.not_lt.mpr (hlinks link hl).1)
  refine ⟨rfl, ?_, ?_, ?_, ?_, ?_⟩
  · have hok := h.ok.relink trace (fun v hv => List.mem_append_right (programVisits body) hv) hsound
    rw [h.machine, ← hmachine] at hok
    exact hok
  · rw [hmachine]
    exact h.top
  · intro v hv
    rcases List.mem_append.mp hv with hv | hv
    · exact (hids v hv).2
    · exact Nat.lt_of_lt_of_le (h.numbered v hv) hread.low_le
  · intro id distance hd
    rw [hmachine] at hd
    rcases getElem?_addLinks_cases hd with hd | ⟨link, hl, rfl⟩
    · exact Nat.lt_of_lt_of_le (h.known _ _ hd) hread.low_le
    · exact (hlinks link hl).2
  · rw [List.map_append, List.nodup_append]
    refine ⟨?_, h.distinct, fun a ha b hb he => ?_⟩
    · rw [map_id_programVisits]
      exact hread.numbers.distinct
    · obtain ⟨v, hv, rfl⟩ := List.mem_map.mp ha
      obtain ⟨w, hw, rfl⟩ := List.mem_map.mp hb
      have hlow := (hids v hv).1
      rw [he] at hlow
      exact absurd (h.numbered w hw) (Nat.not_lt.mpr hlow)

/-- Nothing has run. -/
theorem steady_start (tracing : Bool) (clock : Float) :
    Steady [] (Session.start tracing clock)
      ⟨fun _ _ => none, Machine.start tracing clock, .start clock⟩ where
  machine := rfl
  ok := ok_start tracing clock
  top := rfl
  numbered := nofun
  known id distance hd := by cases hd
  distinct := List.nodup_nil

theorem Steady.hush (h : Steady visits s p) :
    Steady visits s.hush ⟨p.homes, s.hush.machine, { p.state with output := "" }⟩ where
  machine := rfl
  ok := by
    have hok := h.ok.hush ""
    rw [h.machine] at hok
    exact hok
  top := h.top
  numbered := h.numbered
  known := h.known
  distinct := h.distinct

/-- A run leaves a steady session behind. -/
theorem Steady.ran (h : Steady visits s p) (hq : q.Ok visits) (hl : Later false p q) :
    Steady visits { s with machine := q.machine } q where
  machine := rfl
  ok := hq
  top := by
    show q.machine.scope = _
    rw [hl.scope, h.machine, h.top]
  numbered := h.numbered
  known id distance hd := by
    replace hd : q.machine.distances[id]? = some distance := hd
    rw [hl.distances, h.machine] at hd
    exact h.known id distance hd
  distinct := h.distinct

/-- A program and its reference end alike. -/
theorem Steady.ends (h : Steady visits s p) {body : List Stmt}
    (hv : ∀ v ∈ programVisits body, v ∈ visits) (fuel room : Nat) :
    Ends visits false p (fun _ _ _ => True) (Eval.interpret fuel room body s.machine)
      (Reference.interpret fuel room body p.state) := by
  have hpassing : Passing visits fun _ _ => true := fun _ _ _ _ _ => rfl
  rw [← h.machine]
  exact (sim_interpret h.ok h.at hv hpassing .exhausted fuel).ends

-- ================================================================== histories

/-- The visits to a program come before those to the programs before it. -/
theorem mem_visits_cons (body : List Stmt) (bodies : List (List Stmt)) {v : Visit}
    (h : v ∈ programVisits body) : v ∈ Session.visits (body :: bodies) :=
  List.mem_append_left _ h

/-- Whatever ran on both sides, the two fit together. -/
theorem exists_steady {bodies : List (List Stmt)} {r : Reference.State}
    (h : Alongside bodies s r) :
    ∃ p : Pair, p.state = r ∧ Steady (Session.visits bodies) s p := by
  induction h with
  | start tracing clock => exact ⟨_, rfl, steady_start tracing clock⟩
  | @completed bodies s s' r r' text label body fuel room m before accepted ran meant ih =>
      obtain ⟨p, rfl, hp⟩ := ih
      have hprepared := hp.prepare accepted
      have hends := hprepared.ends (fun v hv => mem_visits_cons body bodies hv) fuel room
      rw [ran, meant] at hends
      cases hends with
      | ok fine later => exact ⟨_, rfl, hprepared.ran fine later⟩
  | @stopped bodies s s' r r' text label body fuel room stop stop' m before accepted ran meant ih =>
      obtain ⟨p, rfl, hp⟩ := ih
      have hprepared := hp.prepare accepted
      have hends := hprepared.ends (fun v hv => mem_visits_cons body bodies hv) fuel room
      rw [ran, meant] at hends
      cases hends with
      | error fine later => exact ⟨_, rfl, hprepared.ran fine later⟩
  | hushed before ih =>
      obtain ⟨p, rfl, hp⟩ := ih
      exact ⟨_, rfl, hp.hush⟩

/-- The reference can go along with any history. -/
theorem exists_alongside {bodies : List (List Stmt)} (h : History bodies s) :
    ∃ r : Reference.State, Alongside bodies s r := by
  induction h with
  | start tracing clock => exact ⟨_, .start tracing clock⟩
  | @completed bodies s s' text label body fuel room m before accepted ran ih =>
      obtain ⟨r, hr⟩ := ih
      obtain ⟨p, rfl, hp⟩ := exists_steady hr
      have hends := (hp.prepare accepted).ends (fun v hv => mem_visits_cons body bodies hv) fuel room
      rw [ran] at hends
      cases hmeant : Reference.interpret fuel room body p.state with
      | ok u r' => exact ⟨r', .completed hr accepted ran hmeant⟩
      | error stop r' =>
          rw [hmeant] at hends
          cases hends
  | @stopped bodies s s' text label body fuel room stop m before accepted ran ih =>
      obtain ⟨r, hr⟩ := ih
      obtain ⟨p, rfl, hp⟩ := exists_steady hr
      have hends := (hp.prepare accepted).ends (fun v hv => mem_visits_cons body bodies hv) fuel room
      rw [ran] at hends
      cases hmeant : Reference.interpret fuel room body p.state with
      | ok u r' =>
          rw [hmeant] at hends
          cases hends
      | error stop' r' => exact ⟨r', .stopped hr accepted ran hmeant⟩
  | hushed before ih =>
      obtain ⟨r, hr⟩ := ih
      exact ⟨_, .hushed hr⟩

/-- A program that was accepted after a history has a reference beside it, and all its visits and
those of the programs before it are known. -/
theorem exists_steady_of_prepares {bodies : List (List Stmt)} (before : History bodies s)
    {text : List Char} {label : String} {body : List Stmt}
    (accepted : s.Prepares text label body s') :
    ∃ p : Pair, Steady (Session.visits (body :: bodies)) s' p := by
  obtain ⟨r, hr⟩ := exists_alongside before
  obtain ⟨p, -, hp⟩ := exists_steady hr
  exact ⟨_, hp.prepare accepted⟩

end Lockstep

end Lox
