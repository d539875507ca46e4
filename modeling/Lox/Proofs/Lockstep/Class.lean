/-
Class declarations. The name is bound before the methods are made, so the scopes
that the methods close over are those the resolver has around them: the class
among them, and `super` in a frame of its own when there is a superclass.
-/
import Lox.Proofs.Lockstep.Call

namespace Lox.Lockstep

open Reference (Location Names Run Sight)

variable {visits : List Visit} {still : Bool} {p q : Pair} {scopes : Scopes} {names : Names}
  {around : Surroundings} {room : Nat}

/-- The resolver has been through all methods of a class. -/
structure KnownAll (visits : List Visit) (inClass : ClassKind) (scopes : Scopes)
    (methods : List FunDecl) : Prop where
  visited : ∀ v ∈ FunDecl.visitsAll inClass scopes methods, v ∈ visits
  distinct : (FunDecl.paramFaultsAll scopes methods).faults = []
  free : ∀ f ∈ methods, ∀ param ∈ f.params, param.Free

theorem KnownAll.head {inClass : ClassKind} {f : FunDecl} {rest : List FunDecl}
    (h : KnownAll visits inClass scopes (f :: rest)) :
    Known visits ⟨f.methodKind, inClass⟩ scopes f where
  visited v hv := h.visited v (List.mem_append_left _ hv)
  distinct := (List.append_eq_nil_iff.1 h.distinct).1
  free := h.free f List.mem_cons_self

theorem KnownAll.tail {inClass : ClassKind} {f : FunDecl} {rest : List FunDecl}
    (h : KnownAll visits inClass scopes (f :: rest)) : KnownAll visits inClass scopes rest where
  visited v hv := h.visited v (List.mem_append_right _ hv)
  distinct := (List.append_eq_nil_iff.1 h.distinct).2
  free g hg := h.free g (List.mem_cons_of_mem _ hg)

/-- The methods of a class that is being made. -/
theorem sim_newMethods {frame : FrameId} {inClass : ClassKind} {methods : List FunDecl}
    {b : Bindings FunctionId} (hp : p.Ok visits)
    (ht : Tied p.homes p.frames frame scopes names)
    (hk : KnownAll visits inClass (.holding "this" :: scopes) methods)
    (hb : ∀ name f, b.find? name = some f → p.Method visits f) :
    Sim visits true p (Eval.newMethods frame methods b) (Eval.newMethods frame methods b)
      (Reference.newMethods names methods b)
      fun x y q => y = x ∧ ∀ name f, x.find? name = some f → q.Method visits f := by
  induction methods generalizing p b with
  | nil => exact .done hp ⟨rfl, hb⟩
  | cons d rest ih =>
      let c : Closure := ⟨d, frame, d.name.lexeme == initializerName⟩
      let c' : Reference.Closure := ⟨d, names, d.name.lexeme == initializerName⟩
      have hnew : Sim visits true p (Eval.newFunction c) (Eval.newFunction c)
          (Reference.newFunction c') _ := sim_newFunction hp rfl
      refine hnew.bind ?_
      rintro f _ q hq hl ⟨rfl, rfl, rfl⟩
      obtain ⟨hf, hf'⟩ := functions_addFunction hp c c'
      have ht' := ht.mono (grown_addFunction p c c')
      refine ih hq ht' hk.tail fun name f hfind => ?_
      rw [Bindings.find?_set] at hfind
      split at hfind
      · cases hfind
        exact ⟨c, c', _, scopes, hf, hf', ht', hk.head, trivial⟩
      · exact Pair.Function.mono (grown_addFunction p c c') (hb name f hfind)

/-- A class that is made of methods. -/
theorem sim_newClass (hp : p.Ok visits) {data : ClassData}
    (hmethods : ∀ name f, data.methods.find? name = some f → p.Method visits f) :
    Sim visits still p (Eval.newClass data) (Eval.newClass data) (Reference.newClass data)
      fun c d _ => d = c := by
  refine .act (q := p.addClass data) (a := p.machine.heap.classes.size)
    (b := p.state.classes.size) rfl rfl (hp.addClass hmethods)
    ((Later.refl still p).grow (grown_addClass p data) rfl rfl) ?_
  rw [hp.classes]

variable {run run' : Runner} {ref : Reference.Runner}

/-- The superclass, which must be a class. -/
theorem Sound.superclassValue (hr : Sound visits run run' ref) (hp : p.Ok visits)
    (ha : p.At scopes names) (hs : scopes.Settled) {name : Token} {parent : NameRef}
    (hne : parent.name.lexeme ≠ name.lexeme)
    (hv : ⟨.expression parent.asExpr, around, (scopes.introduce name).1, some name.lexeme⟩
      ∈ visits) :
    Sim visits true p (Eval.superclassValue run room parent)
      (Eval.superclassValue run' room parent) (Reference.superclassValue ref names room parent)
      fun c d _ => d = c := by
  unfold Eval.superclassValue Reference.superclassValue
  refine (hr.name p names room around scopes name parent hp ha hs hne hv).bind ?_
  rintro _ value q hq - ⟨rfl, -⟩
  cases value with
  | cls c => exact .done hq rfl
  | nil | boolean | number | string | native | function | object => exact .failed hq nofun

/-- What follows in a class declaration when its name is declared and its superclass is known. -/
theorem sim_finishClass {home : Option Location} {name : Token} (hp : p.Ok visits)
    (hname : name.Free) (hd : p.Declared scopes name.lexeme home)
    (ha : p.At (scopes.introduce name).1 names)
    (hlocal : (p.frames.local? p.machine.scope name.lexeme).isSome) {frame : FrameId}
    {outside : Scopes} {seen : Names} (ht : Tied p.homes p.frames frame outside seen)
    {inClass : ClassKind} {methods : List FunDecl}
    (hk : KnownAll visits inClass (.holding "this" :: outside) methods)
    (superclass : Option ClassId) (behind : Sight) :
    Sim visits true p
      (do
        let own ← Eval.newMethods frame methods .empty
        let c ← Eval.newClass ⟨name.lexeme, superclass, own⟩
        Eval.assignNamed p.machine.scope name (.cls c))
      (do
        let own ← Eval.newMethods frame methods .empty
        let c ← Eval.newClass ⟨name.lexeme, superclass, own⟩
        Eval.assignNamed p.machine.scope name (.cls c))
      (do
        let own ← Reference.newMethods seen methods .empty
        let c ← Reference.newClass ⟨name.lexeme, superclass, own⟩
        Reference.settle home name.lexeme (.cls c)
        pure behind)
      fun _ b q => b = behind ∧ q.At (scopes.introduce name).1 names := by
  have hnone : ∀ x f, (Bindings.empty : Bindings FunctionId).find? x = some f →
      p.Method visits f := fun x f h => by cases h
  refine (sim_newMethods hp ht hk hnone).bind ?_
  rintro own _ q hq hl ⟨rfl, hown⟩
  refine (sim_newClass hq hown).bind ?_
  rintro _ c r hr hl' rfl
  have hlater := hl.trans hl'
  have hscope := hlater.scope
  rw [← hscope]
  have hd' : r.Declared scopes name.lexeme home := hd.later hlater
  have hlocal' : (r.frames.local? r.machine.scope name.lexeme).isSome := by
    rw [hscope]
    exact hlater.bound _ _ hlocal
  exact (sim_resettle hr hname hd' (ha.later hp hlater) hlocal' fun q => q.sane_cls c).adding
    fun _ _ _ h => ⟨rfl, h⟩

/-- Declaring a class. -/
theorem Sound.declareClass (hr : Sound visits run run' ref) (hp : p.Ok visits) {sight : Sight}
    (ha : p.At scopes sight.names) (hin : sight.inner = !scopes.isEmpty) (hs : scopes.Settled)
    {name : Token} (hname : name.Free) (hnew : (scopes.declare name).2.faults = [])
    {superclass : Option NameRef} {methods : List FunDecl}
    (hne : (Scopes.ownSuperclass name superclass).faults = [])
    (hv : ∀ v ∈ NameRef.visits around (scopes.introduce name).1 name superclass, v ∈ visits)
    (hk : KnownAll visits (.ofSuperclass superclass)
      (Scopes.ofMethods (scopes.introduce name).1 superclass) methods) :
    Sim visits false p (Eval.declareClass run room name superclass methods)
      (Eval.declareClass run' room name superclass methods)
      (Reference.declareClass ref sight room name superclass methods)
      fun _ behind q => behind.inner = sight.inner
        ∧ q.At (scopes.introduce name).1 behind.names := by
  cases superclass with
  | none =>
      refine .before (sim_declare hp ha hin hnew) ?_
      rintro ⟨home, behind⟩ q hq - ⟨hd, hin', ha'⟩
      refine (sim_settle hq hname hd ha' fun q _ _ => q.sane_nil).bind ?_
      rintro _ _ r hr - ⟨hd', hat, hlocal⟩
      refine .look (a := r.machine.scope) rfl ?_
      refine (sim_finishClass hr hname hd' hat hlocal hat.tied hk none behind).weaken false
        nofun ?_
      rintro _ _ q' - - ⟨rfl, h⟩
      exact ⟨hin', h⟩
  | some parent =>
      have hne' : parent.name.lexeme ≠ name.lexeme := by
        intro he
        replace hne : (if parent.name.lexeme == name.lexeme then
          Survey.fault .inheritsFromItself parent.name else .empty).faults = [] := hne
        rw [if_pos (beq_iff_eq.2 he)] at hne
        cases hne
      have hvisit := hv _ List.mem_cons_self
      have hsuper : Sim visits false p (Eval.superclassValue run room parent)
          (Eval.superclassValue run' room parent)
          (Reference.superclassValue ref sight.names room parent)
          fun c d q => d = c ∧ Later true p q :=
        (hr.superclassValue hp ha hs hne' hvisit).weaken false nofun fun _ _ _ _ hl h => ⟨h, hl⟩
      refine hsuper.bind ?_
      rintro _ above q hq - ⟨rfl, hl⟩
      refine .before (sim_declare hq (ha.later hp hl) hin hnew) ?_
      rintro ⟨home, behind⟩ q' hq' - ⟨hd, hin', ha'⟩
      refine (sim_settle hq' hname hd ha' fun q _ _ => q.sane_nil).bind ?_
      rintro _ _ r hr - ⟨hd', hat, hlocal⟩
      refine .look (a := r.machine.scope) rfl ?_
      have hlater : Later true r (r.hold r.machine.scope "super" (.cls above)) :=
        hr.later_hold "super" (.cls above)
      have hok : (r.hold r.machine.scope "super" (.cls above)).Ok visits :=
        hr.hold r.machine.scope "super" trivial fun _ => ⟨above, rfl⟩
      refine .step (q := r.hold r.machine.scope "super" (.cls above)) (a := r.frames.next)
        (b := r.state.store.size) ?_ ?_ (hlater.weaken false) ?_
      · rw [Pair.machine_hold]
        rfl
      · rw [Pair.state_hold]
        rfl
      have htied := (hr.at_hold hat.tied (reserved "super") (.cls above)).tied
      refine (sim_finishClass hok hname (hd'.later hlater) (hat.later hr hlater)
        (hlater.bound _ _ hlocal) htied hk (some above) behind).weaken false nofun ?_
      rintro _ _ q' - - ⟨rfl, h⟩
      exact ⟨hin', h⟩

end Lox.Lockstep
