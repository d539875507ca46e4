/-
Constructors are well behaved. A call of a class makes an object that nothing
meant before, runs the nearest initializer on the chain of the class on it, once
and with as many arguments as that has parameters, and yields the object. Later
calls of an initializer, however it was come by, yield the object that it is
bound to.
-/
import Lox.Proofs.Construct.Initializer

namespace Lox

open Session (Prepares History)
open Lockstep (run_bind_ok run_bind_error run_bind_congr)
open Machine

variable {w : Chronicle} {m m' : Machine} {c : ClassId} {f g : FunctionId} {o : ObjectId}
  {code : Closure} {fuel room : Nat} {values : List Value}

-- ===================================================================== arity

/-- How many arguments a call of a class takes: as many as its nearest initializer has parameters, and
none without an initializer. -/
inductive Heap.Takes (h : Heap) (c : ClassId) : Nat → Prop
  | nearest {f : FunctionId} {code : Closure} (found : h.Nearest initializerName c f)
      (there : h.functions[f]? = some code) : Takes h c code.declaration.params.length
  | none (lacks : ∀ f, ¬ h.Nearest initializerName c f) : Takes h c 0

/-- The number that a call is checked against. -/
theorem Machine.Framed.exists_takes (hm : m.Framed w) (c : ClassId) :
    ∃ n, m.heap.Takes c n ∧ m.heap.arity? (.cls c) = some n := by
  unfold Heap.arity?
  dsimp only
  cases hfind : m.heap.findMethod? c initializerName with
  | some f =>
      have hnearest := (Heap.findMethod?_eq_some_iff hm.layered c).1 hfind
      obtain ⟨code, hcode, -⟩ := hm.exists_titled hnearest
      refine ⟨_, .nearest hnearest hcode, ?_⟩
      rw [Option.bind_some, hcode]
      rfl
  | none =>
      refine ⟨0, .none fun f hnearest => ?_, rfl⟩
      rw [(Heap.findMethod?_eq_some_iff hm.layered c).2 hnearest] at hfind
      cases hfind

/-- Behind the callee and the arguments, a call counts these and invokes that. -/
theorem Eval.evaluate_call {id : NodeId} {callee : Expr} {paren : Token} {arguments : List Expr}
    {callable : Value} {called given : Machine} {n : Nat}
    (evaluated : Eval.evaluate fuel room callee m = .ok callable called)
    (supplied : Eval.evaluateAll (Eval.runner fuel) room arguments called = .ok values given)
    (arity : given.heap.arity? callable = some n) :
    Eval.evaluate (fuel + 1) room (.call id callee paren arguments) m
      = if values.length = n then
          Eval.anchored paren (Eval.invoke (Eval.runner fuel) room callable values) given
        else .error (.fault ⟨some paren, .wrongArity n values.length⟩) given := by
  have hcallable : Eval.checkCallable paren callable called = .ok () called := by
    cases callable with
    | native | function | cls => rfl
    | nil | boolean | number | string | object => cases arity
  have harity : Eval.checkArity paren callable values.length given
      = if values.length = n then .ok () given
        else .error (.fault ⟨some paren, .wrongArity n values.length⟩) given := by
    unfold Eval.checkArity
    rw [run_bind_ok (show Eval.heap given = .ok given.heap given from rfl), arity]
    dsimp only
    split <;> rfl
  show (do
    let f ← Eval.evaluate fuel room callee
    Eval.checkCallable paren f
    let given ← Eval.evaluateAll (Eval.runner fuel) room arguments
    Eval.checkArity paren f given.length
    Eval.anchored paren (Eval.invoke (Eval.runner fuel) room f given)) m = _
  rw [run_bind_ok evaluated, run_bind_ok hcallable, run_bind_ok supplied]
  by_cases hlength : values.length = n
  · rw [if_pos hlength] at harity ⊢
    rw [run_bind_ok harity]
  · rw [if_neg hlength] at harity ⊢
    rw [run_bind_error harity]

-- ================================================================ a new object

/-- Nothing on a machine means an object. -/
structure Machine.Unseen (m : Machine) (o : ObjectId) : Prop where
  absent : m.heap.objects[o]? = none
  unbound : ∀ frame name, m.heap.scopes.local? frame name ≠ some (.object o)
  unheld : ∀ (p : ObjectId) data name, m.heap.objects[p]? = some data →
    data.fields.find? name ≠ some (.object o)

theorem Machine.Framed.unseen (hm : m.Framed w) : m.Unseen m.heap.objects.size where
  absent := Array.getElem?_eq_none (Nat.le_refl _)
  unbound frame name h := Nat.lt_irrefl _ (hm.sane frame name _ h)
  unheld p data name hp h := Nat.lt_irrefl _ (hm.fields p data name _ hp h)

/-- The machine with a new object of a class, which has no fields. -/
def Machine.newborn (m : Machine) (c : ClassId) : Machine :=
  { m with heap := m.heap.addObject ⟨c, .empty⟩ }

/-- The machine with a method bound to an object: a new frame that holds the object alone, and a copy
of the method that lies in it. -/
def Machine.binding (m : Machine) (code : Closure) (o : ObjectId) : Machine :=
  let opened := m.heap.addFrame code.scope (Bindings.empty.set "this" (.object o))
  let own : Closure := ⟨code.declaration, m.heap.scopes.next, code.isInitializer⟩
  { m with heap := opened.addFunction own }

/-- A call of a class that takes so many arguments. -/
inductive Machine.Constructs (m : Machine) (run : Runner) (room : Nat) (c : ClassId)
    (values : List Value) (o : ObjectId) : Prop
  | alone (lacks : ∀ f, ¬ m.heap.Nearest initializerName c f) (empty : values = [])
      (yields : Eval.construct run room c values m = .ok (.object o) (m.newborn c))
  | initialized {f g : FunctionId} {code own : Closure}
      (nearest : m.heap.Nearest initializerName c f) (there : m.heap.functions[f]? = some code)
      (bound : ((m.newborn c).binding code o).Initializes g own o)
      (copied : own.declaration = code.declaration)
      (takes : own.declaration.params.length = values.length)
      (once : Eval.construct run room c values m = (do
        let _ ← Eval.runBody run room own values
        pure (Value.object o)) ((m.newborn c).binding code o))
      (kept : ∀ completion m', Eval.runBody run room own values ((m.newborn c).binding code o)
        = .ok completion m' → ((m.newborn c).binding code o).Persists m')

theorem findMethod?_newborn (m : Machine) (c : ClassId) :
    (m.newborn c).heap.findMethod? c initializerName
      = m.heap.findMethod? c initializerName :=
  have hclasses : (m.newborn c).heap.classes = m.heap.classes := rfl
  Heap.findMethod?_of_classes hclasses c initializerName

/-- A new object, and then the initializer that the class has. -/
theorem Eval.construct_eq (c : ClassId) (run : Runner) (room : Nat) (values : List Value)
    (m : Machine) :
    Eval.construct run room c values m
      = (match m.heap.findMethod? c initializerName with
          | none => (pure (Value.object m.heap.objects.size) : Eval Value)
          | some method => do
            let initializer ← Eval.bindMethod method (.object m.heap.objects.size)
            let _ ← Eval.callFunction run room initializer values
            pure (Value.object m.heap.objects.size)) (m.newborn c) := by
  rw [← findMethod?_newborn m c]
  rfl

/-- The nearest initializer, bound to the new object. -/
theorem Machine.Framed.binds_newborn (hm : m.Framed w.anytime)
    (hreceives : Receives w.anytime.past m.heap.objects.size (m.newborn c))
    (hnearest : (m.newborn c).heap.Nearest initializerName c f)
    (there : m.heap.functions[f]? = some code) :
    let bound := (m.newborn c).binding code m.heap.objects.size
    bound.Framed w.anytime ∧ (m.newborn c).Later bound
      ∧ bound.Callable w.anytime m.heap.functions.size
      ∧ bound.Initializes m.heap.functions.size
        ⟨code.declaration, m.heap.scopes.next, true⟩ m.heap.objects.size := by
  have hmade : (m.newborn c).Framed w.anytime := hm.addObject c
  have ho : m.heap.objects.size < (m.newborn c).heap.objects.size := by
    show m.heap.objects.size < (m.heap.objects.push _).size
    rw [Array.size_push]
    exact Nat.lt_succ_self _
  obtain ⟨-, -, -, -, hmethod⟩ := hmade.exists_titled hnearest
  have hbind := Runs.bindMethod_eq (m := m.newborn c) there (.object m.heap.objects.size)
  obtain ⟨hbound, hlater, hcallable⟩ := (Runs.bindMethod hmade hmethod ho hreceives).of_ok hbind
  have hbinds : (m.newborn c).Binds f m.heap.objects.size m.heap.functions.size
      ((m.newborn c).binding code m.heap.objects.size) :=
    ⟨code, there, Array.getElem?_push_size, enclosing?_addFrame (m.newborn c) code.scope _,
      bindings_addFrame (m.newborn c) code.scope _⟩
  obtain ⟨d, hd, hinitializes⟩ := hmade.initializes_of_binds hnearest hbinds
  obtain rfl : d = code := Option.some.inj (hd.symm.trans there)
  exact ⟨hbound, hlater, hcallable, hinitializes⟩

/-- A call of a class, with as many arguments as it takes. -/
theorem Machine.Framed.constructs (hm : m.Framed w.anytime)
    (hreceives : Receives w.anytime.past m.heap.objects.size (m.newborn c))
    (hvalues : ∀ v ∈ values, m.Sane w.anytime v) {n : Nat} (htakes : m.heap.Takes c n)
    (hlength : values.length = n) :
    m.Constructs (Eval.runner fuel) room c values m.heap.objects.size := by
  have hconstruct := Eval.construct_eq c (Eval.runner fuel) room values m
  have hiff : ∀ f, m.heap.findMethod? c initializerName = some f
      ↔ m.heap.Nearest initializerName c f := fun f => Heap.findMethod?_eq_some_iff hm.layered c
  cases htakes with
  | none lacks =>
      have hfind : m.heap.findMethod? c initializerName = none := by
        rw [Option.eq_none_iff_forall_ne_some]
        exact fun f hf => lacks f ((hiff f).1 hf)
      rw [hfind] at hconstruct
      exact .alone lacks (List.length_eq_zero_iff.1 hlength) hconstruct
  | @nearest f code found there =>
      have hfind := (hiff f).2 found
      have hnearest : (m.newborn c).heap.Nearest initializerName c f :=
        (Heap.findMethod?_eq_some_iff (hm.addObject c).layered c).1
          ((findMethod?_newborn m c).trans hfind)
      obtain ⟨hbound, hlater, hcallable, hinitializes⟩ := hm.binds_newborn hreceives hnearest there
      have hgiven : ∀ v ∈ values,
          ((m.newborn c).binding code m.heap.objects.size).Sane w.anytime v := fun v hv =>
        ((hvalues v hv).mono (persists_addObject m ⟨c, .empty⟩)).mono hlater.toPersists
      have hbind : Eval.bindMethod f (.object m.heap.objects.size) (m.newborn c)
          = .ok m.heap.functions.size ((m.newborn c).binding code m.heap.objects.size) :=
        Runs.bindMethod_eq (m := m.newborn c) there _
      have hcall : Eval.callFunction (Eval.runner fuel) room _ values _ = _ :=
        hinitializes.callFunction_eq hbound hcallable hgiven
      refine .initialized found there hinitializes rfl hlength.symm ?_ fun completion k hran =>
        hbound.persists_runBody hcallable hinitializes.there hgiven hran
      rw [hconstruct, hfind]
      dsimp only
      rw [run_bind_ok hbind, run_bind_congr hcall, bind_assoc]
      rfl

/-- A call of a class that does not fail yields the new object, and it is still one of the class. -/
theorem Machine.Constructs.yields {run : Runner} (h : m.Constructs run room c values o)
    (habsent : o = m.heap.objects.size) {v : Value}
    (hok : Eval.construct run room c values m = .ok v m') :
    v = .object o ∧ ∃ data, m'.heap.objects[o]? = some data ∧ data.cls = c := by
  have hborn : (m.newborn c).heap.objects[o]? = some ⟨c, .empty⟩ := by
    rw [habsent]
    exact Array.getElem?_push_size
  cases h with
  | alone lacks empty yields =>
      cases yields.symm.trans hok
      exact ⟨rfl, _, hborn, rfl⟩
  | @initialized f g code own nearest there bound copied takes once kept =>
      rw [once] at hok
      cases hran : Eval.runBody run room own values ((m.newborn c).binding code o) with
      | error s k =>
          rw [run_bind_error hran] at hok
          cases hok
      | ok completion k =>
          rw [run_bind_ok hran] at hok
          cases hok
          exact ⟨rfl, (kept completion _ hran).objects o ⟨c, .empty⟩ hborn⟩

-- =============================================================== calls in a run

/-- A call of a function with some arguments. -/
inductive Machine.Calls (m : Machine) (run : Runner) (room : Nat) (f : FunctionId)
    (code : Closure) (values : List Value) : Prop
  | initializer {o : ObjectId} (bound : m.Initializes f code o)
      (yields : Eval.callFunction run room f values m = (do
        let _ ← Eval.runBody run room code values
        pure (Value.object o)) m)
      (kept : ∀ completion m', Eval.runBody run room code values m = .ok completion m' →
        m'.Initializes f code o)
  | plain (other : m.Plain f code)
      (yields : Eval.callFunction run room f values m = (do
        let completion ← Eval.runBody run room code values
        pure completion.value) m)

/-- A call of a function that can be called. -/
theorem Machine.Framed.calls (hm : m.Framed w.anytime) (hf : m.Callable w.anytime f)
    (hvalues : ∀ v ∈ values, m.Sane w.anytime v) :
    ∃ code, m.heap.functions[f]? = some code
      ∧ m.Calls (Eval.runner fuel) room f code values := by
  obtain ⟨code, ⟨o, h⟩ | h⟩ := hm.initializes_or_plain hf
  · exact ⟨code, h.there, .initializer h (h.callFunction_eq hm hf hvalues) fun _ _ hran =>
      h.mono (hm.persists_runBody hf h.there hvalues hran)⟩
  · exact ⟨code, h.there, .plain h (h.callFunction_eq _ room values)⟩

/-- From the callee and the arguments on, a call of a class: the arguments are counted, and then a new
object is made, which is what the call yields if it does not fail. -/
structure Machine.CallsClass (given : Machine) (fuel room : Nat) (c : ClassId)
    (values : List Value) (paren : Token) (r : EStateM.Result Stop Machine Value) : Prop where
  counted : ∃ n, given.heap.Takes c n ∧ given.heap.arity? (.cls c) = some n
    ∧ r = if values.length = n then
        Eval.anchored paren (Eval.construct (Eval.runner fuel) room c values) given
      else .error (.fault ⟨some paren, .wrongArity n values.length⟩) given
  made : given.heap.Takes c values.length → ∃ o, given.Unseen o ∧ Value.object o ∉ values
    ∧ (given.newborn c).heap.objects[o]? = some ⟨c, .empty⟩
    ∧ given.Constructs (Eval.runner fuel) room c values o
    ∧ ∀ v m', Eval.construct (Eval.runner fuel) room c values given = .ok v m' →
      v = .object o ∧ ∃ data, m'.heap.objects[o]? = some data ∧ data.cls = c

/-- From the callee and the arguments on, a call of a function. -/
structure Machine.CallsFunction (given : Machine) (fuel room : Nat) (f : FunctionId)
    (code : Closure) (values : List Value) (paren : Token)
    (r : EStateM.Result Stop Machine Value) : Prop where
  there : given.heap.functions[f]? = some code
  counted : r = if values.length = code.declaration.params.length then
      Eval.anchored paren (Eval.callFunction (Eval.runner fuel) room f values) given
    else .error (.fault ⟨some paren,
      .wrongArity code.declaration.params.length values.length⟩) given
  yields : given.Calls (Eval.runner fuel) room f code values

section

variable {id : NodeId} {callee : Expr} {paren : Token} {arguments : List Expr}
  {called given : Machine}

theorem Chronicle.Meets.callsClass
    (h : w.Meets (.expression (.call id callee paren arguments)) m)
    (evaluated : Eval.evaluate fuel room callee m = .ok (.cls c) called)
    (supplied : Eval.evaluateAll (Eval.runner fuel) room arguments called = .ok values given) :
    given.CallsClass fuel room c values paren
      (Eval.evaluate (fuel + 1) room (.call id callee paren arguments) m) := by
  obtain ⟨hgiven, -, hvalues⟩ := h.supplied evaluated supplied
  obtain ⟨n, htakes, harity⟩ := hgiven.exists_takes c
  refine ⟨⟨n, htakes, harity, Eval.evaluate_call evaluated supplied harity⟩, fun htakes => ?_⟩
  have hmade : Eval.newObject ⟨c, .empty⟩ given
      = .ok given.heap.objects.size (given.newborn c) := rfl
  have hreceives : Receives w.anytime.past given.heap.objects.size (given.newborn c) :=
    @Receives.fresh _ _ id callee paren arguments _ _ _ _ _ _ _ _ trivial evaluated supplied hmade
  have hconstructs : given.Constructs (Eval.runner fuel) room c values given.heap.objects.size :=
    hgiven.constructs hreceives hvalues htakes rfl
  exact ⟨_, hgiven.unseen, fun hmem => Nat.lt_irrefl _ (hvalues _ hmem), Array.getElem?_push_size,
    hconstructs, fun _ _ hok => hconstructs.yields rfl hok⟩

theorem Chronicle.Meets.callsFunction
    (h : w.Meets (.expression (.call id callee paren arguments)) m)
    (evaluated : Eval.evaluate fuel room callee m = .ok (.function f) called)
    (supplied : Eval.evaluateAll (Eval.runner fuel) room arguments called = .ok values given) :
    ∃ code, given.CallsFunction fuel room f code values paren
      (Eval.evaluate (fuel + 1) room (.call id callee paren arguments) m) := by
  obtain ⟨hgiven, hcallable, hvalues⟩ := h.supplied evaluated supplied
  obtain ⟨code, hcode, hcalls⟩ := hgiven.calls hcallable hvalues
  refine ⟨code, hcode, Eval.evaluate_call evaluated supplied ?_, hcalls⟩
  show (given.heap.functions[f]?).map _ = _
  rw [hcode]
  rfl

end

/-- A property that is met and read from an object. -/
theorem Chronicle.Meets.reads {id : NodeId} {object : Expr} {name : Token}
    (h : w.Meets (.expression (.get id object name)) m) {start : Machine} {v : Value}
    (evaluated : Eval.evaluate fuel room object m = .ok (.object o) start)
    (read : Eval.evaluate (fuel + 1) room (.get id object name) m = .ok v m') :
    ∃ data, start.heap.objects[o]? = some data
      ∧ (data.fields.find? name.lexeme = some v ∧ m' = start
        ∨ data.fields.find? name.lexeme = none ∧ start.Lends data.cls name.lexeme o v m') := by
  obtain ⟨hm, around, scopes, cls, ha, hk⟩ := h
  obtain ⟨hstart, -, ho⟩ := ((follows_watchedRunner w.anytime fuel).evaluate room hm.anytime
    ha.anytime hk.tail.anytime).of_ok evaluated
  replace ho : o < start.heap.objects.size := ho
  have hdata : Eval.objectData o start = .ok start.heap.objects[o] start := by
    unfold Eval.objectData
    rw [run_bind_ok (show Eval.heap start = .ok start.heap start from rfl),
      Array.getElem?_eq_getElem ho]
    rfl
  replace read : (do
      let value ← Eval.evaluate fuel room object
      Eval.getProperty value name) m = .ok v m' := read
  rw [run_bind_ok evaluated] at read
  unfold Eval.getProperty at read
  dsimp only at read
  rw [run_bind_ok hdata] at read
  refine ⟨_, Array.getElem?_eq_getElem ho, ?_⟩
  cases hfield : start.heap.objects[o].fields.find? name.lexeme with
  | some field =>
      rw [hfield] at read
      cases read
      exact .inl ⟨rfl, rfl⟩
  | none =>
      rw [hfield] at read
      exact .inr ⟨rfl, hstart.lends_of_boundMethod read⟩

/-- What `super` yields was lent by the class that is searched. -/
theorem Machine.Searches.lends {v : Visit} {S : ClassDecl} {id : NodeId} {keyword method : Token}
    (h : m.Searches v S c o id keyword method) (hm : m.Framed w) {value : Value}
    (read : Eval.evaluate (fuel + 1) room (.super id keyword method) m = .ok value m') :
    m.Lends c method.lexeme o value m' := by
  by_cases hnearest : ∃ f, m.heap.Nearest method.lexeme c f
  · obtain ⟨f, hf⟩ := hnearest
    obtain ⟨g, k, hrun, hbinds⟩ := h.found fuel room f hf
    cases hrun.symm.trans read
    exact hm.lends hf hbinds
  · have hstop := h.missing fuel room (not_exists.1 hnearest)
    cases hstop.symm.trans read

/-- **Constructors are well behaved.** Wherever a call of a class is evaluated, the arguments are
counted against the parameters of the nearest initializer, which is the one that runs: once, on an
object of the class that nothing meant before, and that object is what the call yields if it does not
fail. A call of a function that is bound to an object and was declared as an initializer yields that
object; a call of any other function yields what its body returned, whatever its name. And what is
taken from an object, or by `super`, is an initializer of the object just in case it is a method
called so; a field is taken as it is. -/
theorem constructors_well_behaved {bodies : List (List Stmt)} {s s' : Session} {text : List Char}
    {label : String} {body : List Stmt} (before : History bodies s)
    (accepted : s.Prepares text label body s') (fuel room : Nat) :
    (∀ id callee paren arguments k,
        Enters fuel room body s'.machine (.expression (.call id callee paren arguments)) k →
        ∀ (fuel room : Nat) (callable : Value) (called given : Machine) (values : List Value),
          Eval.evaluate fuel room callee k = .ok callable called →
          Eval.evaluateAll (Eval.runner fuel) room arguments called = .ok values given →
          (∀ c, callable = .cls c → given.CallsClass fuel room c values paren
            (Eval.evaluate (fuel + 1) room (.call id callee paren arguments) k))
          ∧ ∀ f, callable = .function f → ∃ code, given.CallsFunction fuel room f code values paren
            (Eval.evaluate (fuel + 1) room (.call id callee paren arguments) k))
      ∧ (∀ id object name k,
          Enters fuel room body s'.machine (.expression (.get id object name)) k →
          ∀ (fuel room : Nat) (o : ObjectId) (start : Machine) (v : Value) (m' : Machine),
            Eval.evaluate fuel room object k = .ok (.object o) start →
            Eval.evaluate (fuel + 1) room (.get id object name) k = .ok v m' →
            ∃ data, start.heap.objects[o]? = some data
              ∧ (data.fields.find? name.lexeme = some v ∧ m' = start
                ∨ data.fields.find? name.lexeme = none
                  ∧ start.Lends data.cls name.lexeme o v m'))
      ∧ ∀ id keyword method k,
          Enters fuel room body s'.machine (.expression (.super id keyword method)) k →
          ∃ visit S c o, k.Searches visit S c o id keyword method
            ∧ ∀ (fuel room : Nat) (v : Value) (m' : Machine),
              Eval.evaluate (fuel + 1) room (.super id keyword method) k = .ok v m' →
              k.Lends c method.lexeme o v m' := by
  have hm := framed_of_history before
  obtain ⟨-, hmoments⟩ := run_of_prepares hm before accepted fuel room
  refine ⟨?_, ?_, ?_⟩
  · intro id callee paren arguments k henters fuel room callable called given values hcallee hvalues
    have hmeets := (hmoments _ k henters).1
    constructor
    · rintro c rfl
      exact hmeets.callsClass hcallee hvalues
    · rintro f rfl
      exact hmeets.callsFunction hcallee hvalues
  · intro id object name k henters fuel room o start v m'
    exact (hmoments _ k henters).1.reads
  · intro id keyword method k henters
    have hmeets := (hmoments _ k henters).1
    obtain ⟨visit, -, S, c, o, -, -, hsearches⟩ := hmeets.searches
    exact ⟨visit, S, c, o, hsearches, fun _ _ _ _ => hsearches.lends hmeets.1⟩

/-- Classes of which one has the initializer of the other called. -/
def initializingText : List Char :=
  ("class A \x7b init(n) \x7b this.n = n; return; \x7d \x7d "
    ++ "class B < A \x7b init(n) \x7b super.init(n); \x7d \x7d").toList

/-- Whether a program is one call of a class, with as many arguments as it takes. -/
def callsAsTaken (fuel room : Nat) (body : List Stmt) (s : Session) : Bool :=
  match body with
  | [.expression _ (.call _ callee _ arguments)] =>
    !s.machine.tracing && match Eval.evaluate fuel room callee s.machine with
      | .ok (.cls c) called =>
        match Eval.evaluateAll (Eval.runner fuel) room arguments called with
        | .ok values given => values.length == 1 && given.heap.arity? (.cls c) == some 1
        | _ => false
      | _ => false
  | _ => false

/-- Whether a program runs to its end and leaves a session that passes a test. -/
def completesTo (fuel room : Nat) (test : Session → Bool) (body : List Stmt) (s : Session) : Bool :=
  match Eval.interpret fuel room body s.machine with
  | .ok _ m => test { s with machine := m }
  | _ => false

theorem constructors_well_behaved_initializing :
    ∃ bodies s s' body id callee paren arguments called given c value o,
      History bodies s ∧ s.Prepares "B(nil);".toList "" body s'
        ∧ Enters 60 9 body s'.machine (.expression (.call id callee paren arguments)) s'.machine
        ∧ Eval.evaluate 60 9 callee s'.machine = .ok (.cls c) called
        ∧ Eval.evaluateAll (Eval.runner 60) 9 arguments called = .ok [value] given
        ∧ given.heap.Takes c 1 ∧ given.Constructs (Eval.runner 60) 9 c [value] o := by
  have hcheck : (Session.start false 0).accepting initializingText (completesTo 60 9 fun s =>
      s.accepting "B(nil);".toList (callsAsTaken 60 9)) = true := by decide +kernel
  obtain ⟨first, s₁, accepted₁, hcompletes⟩ := Session.exists_of_accepting hcheck
  unfold completesTo at hcompletes
  split at hcompletes
  · rename_i m hran
    obtain ⟨body, s₂, accepted₂, hcalls⟩ := Session.exists_of_accepting hcompletes
    have before : History [first] { s₁ with machine := m } :=
      .completed (.start false 0) accepted₁ hran
    unfold callsAsTaken at hcalls
    split at hcalls
    · rename_i outside id callee paren arguments
      obtain ⟨huntraced, hvalue⟩ := Bool.and_eq_true_iff.mp hcalls
      have henters := enters_expression 58 9 outside (.call id callee paren arguments) []
        s₂.machine (by simpa using huntraced)
      split at hvalue
      · rename_i c called hcallee
        split at hvalue
        · rename_i values given hvalues
          obtain ⟨hone, htakes⟩ := Bool.and_eq_true_iff.mp hvalue
          obtain ⟨value, rfl⟩ := List.length_eq_one_iff.1 (beq_iff_eq.1 hone)
          obtain ⟨hcall, -⟩ := (constructors_well_behaved before accepted₂ 60 9).1 id callee paren
            arguments _ henters 60 9 _ called given [value] hcallee hvalues
          obtain ⟨⟨n, htaken, hn, -⟩, hmade⟩ := hcall c rfl
          obtain rfl : n = 1 := Option.some.inj (hn.symm.trans (beq_iff_eq.1 htakes))
          obtain ⟨o, -, -, -, hconstructs, -⟩ := hmade htaken
          exact ⟨_, _, s₂, _, id, callee, paren, arguments, called, given, c, value, o, before,
            accepted₂, henters, hcallee, hvalues, htaken, hconstructs⟩
        · cases hvalue
      · cases hvalue
    · cases hcalls
  · cases hcompletes

end Lox
