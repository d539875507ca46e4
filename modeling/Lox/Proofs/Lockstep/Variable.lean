/-
Variables on both sides: a machine that reads or assigns to a name by hop count
does what the reference does by location, and a global name is looked up in the
same table by both. Declarations come in two halves here as everywhere:
`declared`, then `settled`.
-/
import Lox.Proofs.Lockstep.Simulation

namespace Lox.Lockstep

open Reference (Location Names Run Sight)

variable {visits : List Visit} {still : Bool} {p q : Pair} {scopes : Scopes} {names : Names}

/-- The two sides yield one and the same value, and it is sane. -/
def Agreed (visits : List Visit) (a b : Value) (q : Pair) : Prop := b = a ∧ q.Sane visits a

-- ============================================================ the machine

theorem ancestor_eq {m : Machine} {frame holder : FrameId} {distance : Nat}
    (h : m.heap.scopes.ancestor? frame distance = some holder) :
    Eval.ancestor frame distance m = .ok holder m := by
  unfold Eval.ancestor
  rw [run_bind_ok (show Eval.heap m = .ok m.heap m from rfl), h]
  rfl

theorem getAt_eq {m : Machine} {frame holder : FrameId} {distance : Nat} {name : String}
    {value : Value} (h : m.heap.scopes.ancestor? frame distance = some holder)
    (hv : m.heap.scopes.local? holder name = some value) :
    Eval.getAt frame distance name m = .ok value m := by
  unfold Eval.getAt
  rw [run_bind_ok (ancestor_eq h), run_bind_ok (show Eval.heap m = .ok m.heap m from rfl), hv]
  rfl

theorem assignAt_eq {m : Machine} {frame holder : FrameId} {distance : Nat} {name : String}
    {value : Value} (h : m.heap.scopes.ancestor? frame distance = some holder) :
    Eval.assignAt frame distance name value m
      = .ok () { m with heap := m.heap.define holder name value } := by
  unfold Eval.assignAt
  rw [run_bind_ok (ancestor_eq h)]
  rfl

/-- The value of a global name. -/
theorem getNamed_eq (hp : p.Ok visits) (name : Token) :
    Eval.getNamed globalFrame name p.machine
      = match p.state.globals.find? name.lexeme with
        | some value => .ok value p.machine
        | none => .error (.fault ⟨some name, .undefinedVariable name.lexeme⟩) p.machine := by
  unfold Eval.getNamed
  rw [run_bind_ok (show Eval.heap p.machine = .ok p.machine.heap p.machine from rfl),
    Forest.get?_of_root hp.rooted hp.root, Forest.local?, hp.globals]
  cases p.state.globals.find? name.lexeme <;> rfl

/-- Assigning to a global name, which must be known. -/
theorem assignNamed_eq (hp : p.Ok visits) (name : Token) (value : Value) :
    Eval.assignNamed globalFrame name value p.machine
      = if p.state.globals.binds name.lexeme then
          .ok () (p.putGlobal name.lexeme value).machine
        else .error (.fault ⟨some name, .undefinedVariable name.lexeme⟩) p.machine := by
  unfold Eval.assignNamed
  rw [run_bind_ok (show Eval.heap p.machine = .ok p.machine.heap p.machine from rfl),
    Forest.holder?_of_root hp.rooted hp.root, hp.globals]
  cases p.state.globals.binds name.lexeme <;> rfl

-- ================================================================ reading

/-- A name that is bound and ready has the same value on both sides. -/
theorem exists_value (hp : p.Ok visits) {frame : FrameId}
    (ht : Tied p.homes p.frames frame scopes names) {name : String} {distance : Nat}
    (hd : scopes.distance? name = some distance)
    (hs : ∀ bound, scopes[distance]? = some bound → bound.binds name = true →
      bound.find? name = some true) :
    ∃ (value : Value) (holder : FrameId),
      p.frames.ancestor? frame distance = some holder
        ∧ p.frames.local? holder name = some value
        ∧ Eval.getAt frame distance name p.machine = .ok value p.machine
        ∧ Reference.remember names name p.state = .ok value p.state := by
  obtain ⟨holder, bound, location, ha, hg, hn, hh, hb, hbinds, hready⟩ := ht.lookUp hd
  obtain ⟨value, hv⟩ := Option.isSome_iff_exists.1 (hready (hs bound hb hbinds))
  obtain ⟨location', hl, hstore⟩ := hp.housed holder name value hg hv
  rw [hh, Option.some.injEq] at hl
  refine ⟨value, holder, ha, hv, getAt_eq ha hv, ?_⟩
  unfold Reference.remember Reference.read
  rw [hn]
  show (match p.state.store[location]? with
    | some value => _
    | none => _) = _
  rw [hl, hstore]

/-- A variable that no scope binds may be undefined. -/
theorem genuine_undefined {name : Token} (hd : scopes.distance? name.lexeme = none)
    (hv : ∃ v ∈ visits, v.node.mention? = some name
      ∧ (scopes.distance? name.lexeme = none → v.scopes.distance? name.lexeme = none)) :
    (Stop.fault ⟨some name, .undefinedVariable name.lexeme⟩).Genuine visits := by
  obtain ⟨v, hv, hname, hnone⟩ := hv
  refine ⟨nofun, fun token x he => ?_⟩
  cases he
  exact ⟨v, hv, name, rfl, hname, rfl, hnone hd⟩

/-- Reading a variable. -/
theorem sim_lookUp (hp : p.Ok visits) (ha : p.At scopes names) {id : NodeId} {name : Token}
    (hs : scopes.Settled) (hpending : scopes.isPending name.lexeme = false)
    (hid : p.machine.distances[id]? = scopes.distance? name.lexeme)
    (hv : ∃ v ∈ visits, v.node.mention? = some name
      ∧ (scopes.distance? name.lexeme = none → v.scopes.distance? name.lexeme = none)) :
    Sim visits still p (Eval.lookUp id name) (Eval.lookUp id name)
      (Reference.lookUp names name) (Agreed visits) := by
  have hdist : Eval.distance? id p.machine = .ok (scopes.distance? name.lexeme) p.machine := by
    unfold Eval.distance?
    rw [hid]
  cases hd : scopes.distance? name.lexeme with
  | some distance =>
      obtain ⟨value, holder, -, hv, hget, hrecall⟩ := exists_value hp ha.tied hd
        fun _ hb => hs.ready hpending hb
      rw [hd] at hdist
      refine .act ?_ ?_ hp (.refl still p) ⟨rfl, hp.sane _ _ _ hv⟩
      · unfold Eval.lookUp
        rw [run_bind_ok hdist]
        exact hget
      · unfold Reference.remember at hrecall
        unfold Reference.lookUp
        obtain ⟨_, _, location, _, _, hn, _⟩ := ha.tied.lookUp hd
        rw [hn] at hrecall ⊢
        exact hrecall
  | none =>
      rw [hd] at hdist
      have hm : Eval.lookUp id name p.machine = Eval.getNamed globalFrame name p.machine := by
        unfold Eval.lookUp
        rw [run_bind_ok hdist]
      rw [getNamed_eq hp] at hm
      have hr : Reference.lookUp names name p.state
          = match p.state.globals.find? name.lexeme with
            | some value => .ok value p.state
            | none => .error (.fault ⟨some name, .undefinedVariable name.lexeme⟩) p.state := by
        unfold Reference.lookUp
        rw [ha.tied.lookUp_none hd]
        rfl
      cases hg : p.state.globals.find? name.lexeme with
      | some value =>
          rw [hg] at hm hr
          refine .act hm hr hp (.refl still p) ⟨rfl, hp.sane globalFrame name.lexeme _ ?_⟩
          rw [Forest.local?, hp.globals, hg]
      | none =>
          rw [hg] at hm hr
          exact .halt hm hr hp (genuine_undefined hd hv)

-- ============================================================== assigning

/-- Assigning to a variable. -/
theorem sim_assign (hp : p.Ok visits) (ha : p.At scopes names) {id : NodeId} {name : Token}
    {value : Value} (hname : name.Free) (hv : p.Sane visits value)
    (hid : p.machine.distances[id]? = scopes.distance? name.lexeme)
    (hvisit : ∃ v ∈ visits, v.node.mention? = some name
      ∧ (scopes.distance? name.lexeme = none → v.scopes.distance? name.lexeme = none)) :
    Sim visits still p (Eval.assign id name value) (Eval.assign id name value)
      (Reference.assign names name value) fun _ _ _ => True := by
  have hdist : Eval.distance? id p.machine = .ok (scopes.distance? name.lexeme) p.machine := by
    unfold Eval.distance?
    rw [hid]
  cases hd : scopes.distance? name.lexeme with
  | some distance =>
      rw [hd] at hdist
      obtain ⟨holder, _, location, hanc, hg, hn, hh, -⟩ := ha.tied.lookUp hd
      have hgrown : Grown p (p.put holder name.lexeme location value) :=
        grown_put (hp.inside _ _ _ hh).1
      refine .act (q := p.put holder name.lexeme location value) (a := ()) (b := ()) ?_ ?_
        (hp.put hg hh (hv.mono hgrown) fun he => absurd he hname.ne_super)
        ((Later.refl still p).grow hgrown rfl rfl) trivial
      · unfold Eval.assign
        rw [run_bind_ok hdist]
        exact assignAt_eq hanc
      · unfold Reference.assign
        rw [hn]
        rfl
  | none =>
      rw [hd] at hdist
      have hm : Eval.assign id name value p.machine
          = Eval.assignNamed globalFrame name value p.machine := by
        unfold Eval.assign
        rw [run_bind_ok hdist]
      rw [assignNamed_eq hp] at hm
      have hr : Reference.assign names name value p.state
          = if p.state.globals.binds name.lexeme then
              .ok () (p.putGlobal name.lexeme value).state
            else .error (.fault ⟨some name, .undefinedVariable name.lexeme⟩) p.state := by
        unfold Reference.assign
        rw [ha.tied.lookUp_none hd]
        show (if p.state.globals.binds name.lexeme then _ else _) = _
        split <;> rfl
      have hgrown := grown_putGlobal hp name.lexeme value
      cases hb : p.state.globals.binds name.lexeme with
      | true =>
          rw [hb, if_pos rfl] at hm hr
          exact .act hm hr (hp.putGlobal (hv.mono hgrown) hname.ne_super)
            ((Later.refl still p).grow hgrown rfl rfl) trivial
      | false =>
          rw [hb, if_neg nofun] at hm hr
          exact .halt hm hr hp (genuine_undefined hd hvisit)

-- =============================================================== declaring

/-- A name has the home that its declaration gave it; at top level that is none. -/
def Pair.Declared (p : Pair) (scopes : Scopes) (name : String) : Option Location → Prop
  | none => scopes = []
  | some location => scopes ≠ [] ∧ p.homes p.machine.scope name = some location

theorem Pair.Declared.later {name : String} {home : Option Location}
    (h : p.Declared scopes name home) (hl : Later still p q) : q.Declared scopes name home := by
  cases home with
  | none => exact h
  | some location =>
      refine ⟨h.1, ?_⟩
      rw [hl.scope]
      exact hl.homes _ _ _ h.2

/-- Declaring a name does nothing to the machine. -/
theorem sim_declare {sight : Sight} (hp : p.Ok visits) (ha : p.At scopes sight.names)
    (hin : sight.inner = !scopes.isEmpty) {name : Token}
    (hnew : (scopes.declare name).2.faults = []) :
    Sim visits false p (pure ()) (pure ()) (Reference.declare sight name.lexeme)
      fun _ b q => q.Declared scopes name.lexeme b.1 ∧ b.2.inner = sight.inner
        ∧ q.At (scopes.declare name).1 b.2.names := by
  cases scopes with
  | nil =>
      refine .act (q := p) (a := ()) (b := (none, sight)) rfl ?_ hp (.refl _ p) ⟨rfl, rfl, ha⟩
      unfold Reference.declare
      rw [if_neg (by rw [hin]; decide)]
      rfl
  | cons scope outer =>
      have hb := Scopes.binds_of_faults_declare hnew
      have hnone := ha.homes_eq_none hb
      refine .act (q := p.house p.machine.scope name.lexeme .nil) (a := ())
        (b := (some p.state.store.size,
          { sight with names := sight.names.set name.lexeme p.state.store.size }))
        rfl ?_ (hp.house (hp.lt_next ha.tied) hnone .nil)
        ((Later.refl false p).house hnone (Or.inl ⟨rfl, rfl⟩) .nil)
        ⟨⟨nofun, homes_house _ _ _⟩, rfl, ha.house hb .nil⟩
      unfold Reference.declare
      rw [if_pos (by rw [hin]; rfl)]
      rfl

/-- Defining a name does on the machine what settling it does in the reference. -/
theorem exists_settle (names : Names) (hp : p.Ok visits) {home : Option Location} {name : Token}
    (hname : name.Free) (hd : p.Declared scopes name.lexeme home)
    (ht : p.machine.scope = globalFrame ↔ scopes = []) (value : Value) :
    ∃ q : Pair, Eval.define name.lexeme value p.machine = .ok () q.machine
      ∧ Reference.settle home name.lexeme value p.state = .ok () q.state
      ∧ Later true p q ∧ (q.Sane visits value → q.Ok visits) ∧ q.Declared scopes name.lexeme home
      ∧ (q.frames.local? q.machine.scope name.lexeme).isSome
      ∧ (p.At (scopes.declare name).1 names → q.At (scopes.introduce name).1 names) := by
  cases home with
  | none =>
      have hnil : scopes = [] := hd
      subst hnil
      have htop : p.machine.scope = globalFrame := ht.2 rfl
      have hgrown := grown_putGlobal hp name.lexeme value
      refine ⟨p.putGlobal name.lexeme value, ?_, rfl, (Later.refl true p).grow hgrown rfl rfl,
        fun hv => hp.putGlobal hv hname.ne_super, rfl, ?_, fun ha => ?_⟩
      · have hdefine : p.machine.heap.define p.machine.scope name.lexeme value
            = p.machine.heap.define globalFrame name.lexeme value := by rw [htop]
        show EStateM.Result.ok () { p.machine with
          heap := p.machine.heap.define p.machine.scope name.lexeme value } = _
        rw [hdefine]
        rfl
      · show ((p.frames.define globalFrame name.lexeme value).local? p.machine.scope _).isSome
        rw [htop, Forest.local?_define hp.rooted, if_pos ⟨rfl, rfl⟩]
        rfl
      · exact ⟨ha.tied.mono hgrown, fun _ h => by cases h⟩
  | some location =>
      obtain ⟨hne, hhome⟩ := hd
      have hframe : p.machine.scope < p.frames.next := (hp.inside _ _ _ hhome).1
      have hlocal : p.machine.scope ≠ globalFrame := fun he => hne (ht.1 he)
      have hgrown : Grown p (p.put p.machine.scope name.lexeme location value) := grown_put hframe
      refine ⟨p.put p.machine.scope name.lexeme location value, rfl, rfl,
        (Later.refl true p).grow hgrown rfl rfl,
        fun hv => hp.put hlocal hhome hv fun he => absurd he hname.ne_super, ⟨hne, hhome⟩, ?_,
        fun ha => ha.put hp hne hhome value⟩
      show ((p.frames.define p.machine.scope name.lexeme value).local? p.machine.scope _).isSome
      rw [Forest.local?_define hframe, if_pos ⟨rfl, rfl⟩]
      rfl

/-- Giving a declared name its first value, which may depend on the name being bound. -/
theorem sim_settle {home : Option Location} (hp : p.Ok visits) {name : Token} (hname : name.Free)
    (hd : p.Declared scopes name.lexeme home) (ha : p.At (scopes.declare name).1 names)
    {value : Value}
    (hv : ∀ q : Pair, Later true p q → q.At (scopes.introduce name).1 names →
      q.Sane visits value) :
    Sim visits still p (Eval.define name.lexeme value) (Eval.define name.lexeme value)
      (Reference.settle home name.lexeme value) fun _ _ q =>
        q.Declared scopes name.lexeme home ∧ q.At (scopes.introduce name).1 names
          ∧ (q.frames.local? q.machine.scope name.lexeme).isSome := by
  have ht : p.machine.scope = globalFrame ↔ scopes = [] := by
    rw [ha.tied.eq_global_iff]
    cases scopes with
    | nil => exact .rfl
    | cons scope outer => exact ⟨nofun, nofun⟩
  obtain ⟨q, hm, hr, hl, hok, hd', hlocal, hat⟩ :=
    exists_settle names hp hname hd ht value
  exact .act hm hr (hok (hv q hl (hat ha))) (hl.weaken still) ⟨hd', hat ha, hlocal⟩

/-- Giving a name that has a value another one, where the machine looks for the name first. -/
theorem sim_resettle {home : Option Location} (hp : p.Ok visits) {name : Token}
    (hname : name.Free) (hd : p.Declared scopes name.lexeme home)
    (ha : p.At (scopes.introduce name).1 names)
    (hlocal : (p.frames.local? p.machine.scope name.lexeme).isSome) {value : Value}
    (hv : ∀ q : Pair, q.Sane visits value) :
    Sim visits still p (Eval.assignNamed p.machine.scope name value)
      (Eval.assignNamed p.machine.scope name value) (Reference.settle home name.lexeme value)
      fun _ _ q => q.At (scopes.introduce name).1 names := by
  have ht : p.machine.scope = globalFrame ↔ scopes = [] := by
    rw [ha.tied.eq_global_iff]
    cases scopes with
    | nil => exact .rfl
    | cons scope outer => exact ⟨nofun, nofun⟩
  have hassign : Eval.assignNamed p.machine.scope name value p.machine
      = Eval.define name.lexeme value p.machine := by
    unfold Eval.assignNamed
    rw [run_bind_ok (show Eval.heap p.machine = .ok p.machine.heap p.machine from rfl),
      Forest.holder?_of_local? hlocal]
    rfl
  obtain ⟨q, hm, hr, hl, hok, -⟩ := exists_settle names hp hname hd ht value
  exact .act (hassign.trans hm) hr (hok (hv q)) (hl.weaken still) (ha.later hp hl)

end Lox.Lockstep
