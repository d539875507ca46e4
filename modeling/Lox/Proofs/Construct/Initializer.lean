/-
Initializers. A function is one if it was declared as a method of their name and
bound to an object (`Machine.Initializes`); the frame of `this` in which it lies
keeps that object for good, so every call of it yields the object, whatever its
body does. The name alone is not enough: a function that lies in an ordinary frame
is none (`Machine.Plain`).

What is told here holds of all evaluation from a machine that is in order on, not
only of the part that some run comes to. That is why the past is left out of
account (`Chronicle.anytime`).
-/
import Lox.Proofs.Super.Static

namespace Lox

open Lockstep (run_bind_ok run_bind_error)
open Machine

variable {w : Chronicle} {m m' : Machine} {c : ClassId} {f g : FunctionId} {o : ObjectId}
  {code : Closure} {fuel room : Nat} {values : List Value}

-- ================================================================== any time

/-- What is known, with every moment taken for one of the past. -/
def Chronicle.anytime (w : Chronicle) : Chronicle := { w with past := fun _ _ => True }

theorem Chronicle.grows_anytime (w : Chronicle) : w.Grows w.anytime where
  past _ _ _ := trivial
  visits _ := id
  sites _ := id

theorem Machine.Framed.anytime (hm : m.Framed w) : m.Framed w.anytime :=
  hm.grow w.grows_anytime rfl hm.sound

theorem Machine.Place.anytime {scopes : Scopes} {cls : Option ClassDecl}
    (h : m.Place w scopes cls) : m.Place w.anytime scopes cls :=
  ⟨h.chain.relax w.grows_anytime.past, h.ordinary⟩

theorem Chronicle.Knows.anytime {visits : List Visit} {sites : List Site}
    (h : w.Knows visits sites) : w.anytime.Knows visits sites :=
  ⟨h.visited, h.sited⟩

/-- How a run ends, whatever moments it comes to. -/
theorem Runs.ends_anytime {α : Type} {observed : Watch → Eval α} {plain : Eval α}
    {post : α → Machine → Prop} (h : Runs w.anytime m observed plain post) :
    Ends w.anytime m post (plain m) := (h fun _ _ _ => trivial).1

theorem Runs.of_ok {α : Type} {observed : Watch → Eval α} {plain : Eval α} {a : α}
    {post : α → Machine → Prop} (h : Runs w.anytime m observed plain post)
    (hx : plain m = .ok a m') : m'.Framed w.anytime ∧ m.Later m' ∧ post a m' := by
  have hends := h.ends_anytime
  rw [hx] at hends
  exact hends

/-- The value and the arguments of a call that is met. -/
theorem Chronicle.Meets.supplied {id : NodeId} {callee : Expr} {paren : Token}
    {arguments : List Expr} (h : w.Meets (.expression (.call id callee paren arguments)) m)
    {callable : Value} {called given : Machine}
    (evaluated : Eval.evaluate fuel room callee m = .ok callable called)
    (supplied : Eval.evaluateAll (Eval.runner fuel) room arguments called = .ok values given) :
    given.Framed w.anytime ∧ given.Sane w.anytime callable
      ∧ ∀ v ∈ values, given.Sane w.anytime v := by
  obtain ⟨hm, around, scopes, cls, ha, hk⟩ := h
  replace hk := hk.tail.anytime
  have hr := follows_watchedRunner w.anytime fuel
  obtain ⟨hcalled, hl, hcallable⟩ :=
    (hr.evaluate room hm.anytime ha.anytime hk.first).of_ok evaluated
  obtain ⟨hgiven, hl', hvalues⟩ :=
    (hr.evaluateAll hcalled (ha.anytime.later hm.anytime hl) hk.second).of_ok supplied
  exact ⟨hgiven, hcallable.mono hl'.toPersists, hvalues⟩

-- ============================================================== initializers

/-- A function is an initializer that is bound to an object. -/
structure Machine.Initializes (m : Machine) (f : FunctionId) (code : Closure) (o : ObjectId) :
    Prop where
  there : m.heap.functions[f]? = some code
  marked : code.isInitializer = true
  named : code.declaration.name.lexeme = initializerName
  receiver : m.heap.scopes.bindings code.scope = Bindings.empty.set "this" (.object o)

/-- A function that is no initializer: unless it is called otherwise, it was not bound. -/
structure Machine.Plain (m : Machine) (f : FunctionId) (code : Closure) : Prop where
  there : m.heap.functions[f]? = some code
  unmarked : code.isInitializer = false
  unbound : code.declaration.name.lexeme = initializerName →
    m.heap.scopes.local? code.scope "this" = none

/-- Once an initializer, always one, and of the same object. -/
theorem Machine.Initializes.mono (h : m.Initializes f code o) (hm : m.Persists m') :
    m'.Initializes f code o where
  there := hm.functions f code h.there
  marked := h.marked
  named := h.named
  receiver := by
    have hsome : (m.heap.scopes.local? code.scope "this").isSome := by
      rw [local?_of_bindings h.receiver]
      rfl
    rw [hm.special code.scope "this" (.inl rfl) hsome, h.receiver]

/-- A function that can be called is an initializer or it is none, which shows in its name and in the
frame that it lies in. -/
theorem Machine.Framed.initializes_or_plain (hm : m.Framed w) (hf : m.Callable w f) :
    ∃ code, (∃ o, m.Initializes f code o) ∨ m.Plain f code := by
  obtain ⟨code, -, -, -, hcode, -, -, hmarked⟩ := hf
  refine ⟨code, ?_⟩
  cases hmarked with
  | plain unmarked _ ordinary =>
      exact .inr ⟨hcode, unmarked, fun _ => ordinary "this" (.inl rfl)⟩
  | bound titled receiver =>
      by_cases hname : code.declaration.name.lexeme = initializerName
      · obtain ⟨o, -, hreceiver, -⟩ := hm.receivers code.scope receiver
        refine .inl ⟨o, hcode, ?_, hname, hreceiver⟩
        rw [titled, beq_iff_eq]
        exact hname
      · refine .inr ⟨hcode, ?_, fun h => absurd h hname⟩
        rw [titled, beq_eq_false_iff_ne]
        exact hname

-- ===================================================================== calls

/-- The body of a function runs once, in a new frame with its arguments. -/
def Eval.runBody (run : Runner) (room : Nat) (code : Closure) (values : List Value) :
    Eval Completion :=
  match room with
  | 0 => stop .overflow
  | room + 1 => inNewFrame code.scope (bindParameters code.declaration.params values .empty)
      (executeAll run room code.declaration.body)

/-- What has been settled stays so while a body runs. -/
theorem Machine.Framed.persists_runBody (hm : m.Framed w.anytime)
    (hf : m.Callable w.anytime f) (hcode : m.heap.functions[f]? = some code)
    (hvalues : ∀ v ∈ values, m.Sane w.anytime v) {completion : Completion}
    (ran : Eval.runBody (Eval.runner fuel) room code values m = .ok completion m') :
    m.Persists m' := by
  cases room with
  | zero => cases ran
  | succ room =>
      exact (((follows_watchedRunner w.anytime fuel).runBody hm hf hcode hvalues).of_ok
        ran).2.1.toPersists

/-- A call is one run of the body, and then the frame of an initializer is asked for its object. -/
theorem Eval.callFunction_eq_runBody (hcode : m.heap.functions[f]? = some code) (run : Runner)
    (room : Nat) (values : List Value) :
    Eval.callFunction run room f values m = (do
      let completion ← Eval.runBody run room code values
      if code.isInitializer then getAt code.scope 0 "this" else pure completion.value) m := by
  cases room with
  | zero => rfl
  | succ room =>
      unfold Eval.callFunction
      dsimp only
      rw [run_bind_ok (Lockstep.closure_eq hcode)]
      rfl

/-- A call of an initializer runs its body once and yields its object. -/
theorem Machine.Initializes.callFunction_eq (h : m.Initializes f code o)
    (hm : m.Framed w.anytime) (hf : m.Callable w.anytime f)
    (hvalues : ∀ v ∈ values, m.Sane w.anytime v) :
    Eval.callFunction (Eval.runner fuel) room f values m = (do
      let _ ← Eval.runBody (Eval.runner fuel) room code values
      pure (Value.object o)) m := by
  rw [Eval.callFunction_eq_runBody h.there]
  cases hran : Eval.runBody (Eval.runner fuel) room code values m with
  | error s k => rw [run_bind_error hran, run_bind_error hran]
  | ok completion k =>
      have hthen := h.mono (hm.persists_runBody hf h.there hvalues hran)
      rw [run_bind_ok hran, run_bind_ok hran, if_pos h.marked]
      exact Lockstep.getAt_eq rfl (local?_of_bindings hthen.receiver)

/-- A call of any other function yields what its body returns. -/
theorem Machine.Plain.callFunction_eq (h : m.Plain f code) (run : Runner) (room : Nat)
    (values : List Value) :
    Eval.callFunction run room f values m = (do
      let completion ← Eval.runBody run room code values
      pure completion.value) m := by
  rw [Eval.callFunction_eq_runBody h.there, h.unmarked]
  rfl

-- ==================================================================== binding

/-- A method was taken from an object: the nearest of its name, bound to the object. It is an
initializer if the name says so. -/
def Machine.Lends (m : Machine) (c : ClassId) (name : String) (o : ObjectId) (v : Value)
    (m' : Machine) : Prop :=
  ∃ f g, m.heap.Nearest name c f ∧ v = .function g ∧ m.Binds f o g m'
    ∧ ((∃ code, m'.Initializes g code o) ↔ name = initializerName)

/-- What a class calls by a name is named so where it was declared, and marked as its name says. -/
theorem Machine.Framed.exists_titled (hm : m.Framed w) {name : String}
    (hf : m.heap.Nearest name c f) :
    ∃ code, m.heap.functions[f]? = some code ∧ code.declaration.name.lexeme = name
      ∧ code.Titled ∧ m.Method w name f := by
  rw [← Heap.findMethod?_eq_some_iff hm.layered] at hf
  obtain ⟨d, data, hd, hfind⟩ := Heap.exists_method_of_findMethod? hf
  have hmethod := hm.methods d data name f hd hfind
  obtain ⟨code, -, -, -, -, -, hcode, -, -, -, hname, htitled⟩ := id hmethod
  exact ⟨code, hcode, hname, htitled, hmethod⟩

/-- An initializer is bound as one. -/
theorem Machine.Framed.initializes_of_binds (hm : m.Framed w)
    (hf : m.heap.Nearest initializerName c f) (hbinds : m.Binds f o g m') :
    ∃ code, m.heap.functions[f]? = some code
      ∧ m'.Initializes g ⟨code.declaration, m.heap.scopes.next, true⟩ o := by
  obtain ⟨code, hcode, hname, htitled, -⟩ := hm.exists_titled hf
  obtain ⟨d, hd, hg, -, hreceiver⟩ := hbinds
  obtain rfl : d = code := Option.some.inj (hd.symm.trans hcode)
  have hmarked : d.isInitializer = true := by
    rw [htitled, hname]
    rfl
  rw [hmarked] at hg
  exact ⟨d, hcode, hg, rfl, hname, hreceiver⟩

/-- What is bound of another name is none. -/
theorem Machine.Framed.not_initializes_of_binds (hm : m.Framed w) {name : String}
    (hf : m.heap.Nearest name c f) (hbinds : m.Binds f o g m') (hne : name ≠ initializerName)
    (code : Closure) : ¬ m'.Initializes g code o := by
  intro h
  obtain ⟨e, hcode, hname, htitled, -⟩ := hm.exists_titled hf
  obtain ⟨d, hd, hg, -⟩ := hbinds
  obtain rfl : d = e := Option.some.inj (hd.symm.trans hcode)
  have hsame := Option.some.inj (hg.symm.trans h.there)
  refine hne ?_
  rw [← hname, ← h.named, ← hsame]

theorem Machine.Framed.lends (hm : m.Framed w) {name : String}
    (hf : m.heap.Nearest name c f) (hbinds : m.Binds f o g m') :
    m.Lends c name o (.function g) m' := by
  refine ⟨f, g, hf, rfl, hbinds, ?_, fun hname => ?_⟩
  · rintro ⟨code, hcode⟩
    by_contra hne
    exact hm.not_initializes_of_binds hf hbinds hne code hcode
  · rw [hname] at hf
    obtain ⟨code, -, hcode⟩ := hm.initializes_of_binds hf hbinds
    exact ⟨_, hcode⟩

/-- Whatever is taken from a class is lent. -/
theorem Machine.Framed.lends_of_boundMethod (hm : m.Framed w) {name : Token} {v : Value}
    (hbound : Eval.boundMethod c name (.object o) m = .ok v m') :
    m.Lends c name.lexeme o v m' := by
  by_cases hnearest : ∃ f, m.heap.Nearest name.lexeme c f
  · obtain ⟨f, hf⟩ := hnearest
    obtain ⟨g, k, hrun, hbinds⟩ := hm.exists_boundMethod hf o
    cases hrun.symm.trans hbound
    exact hm.lends hf hbinds
  · rw [Eval.boundMethod_eq_error hm.layered (not_exists.1 hnearest)] at hbound
    cases hbound

end Lox
