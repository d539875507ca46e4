/-
What does not depend on variables at all: operators, printing, the clock and
`exit`, fields. The two sides run the same definitions here, or ones that differ
in their state alone.
-/
import Lox.Proofs.Lockstep.Variable

namespace Lox.Lockstep

open Reference (Location Names Run Sight)

variable {visits : List Visit} {still : Bool} {p q : Pair}

-- ============================================================== operators

/-- A yielded value that means nothing in the heap. -/
theorem Sim.plain {value : Value} (hp : p.Ok visits) (hv : ∀ q : Pair, q.Sane visits value) :
    Sim visits still p (pure value) (pure value) (pure value) (Agreed visits) :=
  .done hp ⟨rfl, hv p⟩

theorem sim_needNumber (hp : p.Ok visits) (operator : Token) (a : Value) :
    Sim visits still p (Eval.needNumber operator a) (Eval.needNumber operator a)
      (Eval.needNumber operator a) fun x y _ => y = x := by
  cases a with
  | number x => exact .done hp rfl
  | nil | boolean | string | native | function | cls | object => exact .failed hp nofun

theorem sim_needNumbers (hp : p.Ok visits) (operator : Token) (a b : Value) :
    Sim visits still p (Eval.needNumbers operator a b) (Eval.needNumbers operator a b)
      (Eval.needNumbers operator a b) fun x y _ => y = x := by
  cases a with
  | number x =>
      cases b with
      | number y => exact .done hp rfl
      | nil | boolean | string | native | function | cls | object => exact .failed hp nofun
  | nil | boolean | string | native | function | cls | object => exact .failed hp nofun

theorem sim_add (hp : p.Ok visits) (operator : Token) (a b : Value) :
    Sim visits still p (Eval.add operator a b) (Eval.add operator a b)
      (Eval.add operator a b) (Agreed visits) := by
  cases a with
  | number x =>
      cases b with
      | number y => exact .plain hp fun _ => trivial
      | nil | boolean | string | native | function | cls | object => exact .failed hp nofun
  | string x =>
      cases b with
      | string y => exact .plain hp fun _ => trivial
      | nil | boolean | number | native | function | cls | object => exact .failed hp nofun
  | nil | boolean | native | function | cls | object => exact .failed hp nofun

theorem sim_numeric (hp : p.Ok visits) {operator : Token}
    (h : operator.lexeme ∈ ["-", "*", "/", ">", ">=", "<", "<="]) (a b : Value) :
    Sim visits still p (Eval.numeric operator a b) (Eval.numeric operator a b)
      (Eval.numeric operator a b) (Agreed visits) := by
  unfold Eval.numeric
  refine (sim_needNumbers hp operator a b).bind ?_
  rintro ⟨x, y⟩ _ q hq - rfl
  simp only [List.mem_cons, List.not_mem_nil, or_false] at h
  rcases h with h | h | h | h | h | h | h <;> simp only [h] <;> exact .plain hq fun _ => trivial

/-- A binary operator that the evaluator knows. -/
theorem sim_binary (hp : p.Ok visits) {operator : Token}
    (h : operator.lexeme ∈ binaryOperators) (a b : Value) :
    Sim visits still p (Eval.binary operator a b) (Eval.binary operator a b)
      (Eval.binary operator a b) (Agreed visits) := by
  have hnumeric : operator.lexeme ∈ ["-", "*", "/", ">", ">=", "<", "<="] →
      Sim visits still p (Eval.numeric operator a b) (Eval.numeric operator a b)
        (Eval.numeric operator a b) (Agreed visits) := fun h => sim_numeric hp h a b
  unfold Eval.binary
  simp only [binaryOperators, List.mem_cons, List.not_mem_nil, or_false] at h
  rcases h with h | h | h | h | h | h | h | h | h | h
  · simp only [h]
    exact sim_add hp operator a b
  · simp only [h]
    exact .plain hp fun _ => trivial
  · simp only [h]
    exact .plain hp fun _ => trivial
  all_goals
    simp only [h]
    exact hnumeric (by rw [h]; decide)

/-- A unary operator that the evaluator knows. -/
theorem sim_unary (hp : p.Ok visits) {operator : Token}
    (h : operator.lexeme ∈ Lox.unaryOperators) (a : Value) :
    Sim visits still p (Eval.unary operator a) (Eval.unary operator a)
      (Eval.unary operator a) (Agreed visits) := by
  unfold Eval.unary
  simp only [Lox.unaryOperators, List.mem_cons, List.not_mem_nil, or_false] at h
  rcases h with h | h
  · simp only [h]
    refine (sim_needNumber hp operator a).bind ?_
    rintro x _ q hq - rfl
    exact .plain hq fun _ => trivial
  · simp only [h]
    exact .plain hp fun _ => trivial

-- ================================================================= calling

/-- What can be called. -/
def Applicable : Value → Prop
  | .native _ | .function _ | .cls _ => True
  | _ => False

theorem sim_checkCallable (hp : p.Ok visits) (paren : Token) (callee : Value) :
    Sim visits still p (Eval.checkCallable paren callee) (Eval.checkCallable paren callee)
      (Eval.checkCallable paren callee) fun _ _ _ => Applicable callee := by
  cases callee with
  | native | function | cls => exact .done hp trivial
  | nil | boolean | number | string | object => exact .failed hp nofun

theorem sim_checkArity (hp : p.Ok visits) (paren : Token) (callee : Value) (given : Nat) :
    Sim visits still p (Eval.checkArity paren callee given) (Eval.checkArity paren callee given)
      (Reference.checkArity paren callee given)
      fun _ _ q => q.machine.heap.arity? callee = some given := by
  have harity : p.state.heap.arity? callee = p.machine.heap.arity? callee := by
    rw [← hp.heap, Heap.arity?_bare]
  unfold Eval.checkArity Reference.checkArity
  refine .step (q := p) (a := p.machine.heap) (b := p.state.heap) rfl rfl (.refl still p) ?_
  rw [harity]
  cases h : p.machine.heap.arity? callee with
  | none => exact .failed hp nofun
  | some expected =>
      show Sim visits still p (if given = expected then _ else _)
        (if given = expected then _ else _) (if given = expected then _ else _) _
      by_cases he : given = expected
      · rw [if_pos he, if_pos he]
        exact .done hp (by rw [h, he])
      · rw [if_neg he, if_neg he]
        exact .failed hp nofun

-- ================================================================= effects

/-- A value prints the same on both sides. -/
theorem Pair.Ok.text (hp : p.Ok visits) (value : Value) :
    p.state.heap.text value = p.machine.heap.text value := by
  rw [← hp.heap, Heap.text_bare]

theorem sim_print (hp : p.Ok visits) (value : Value) :
    Sim visits still p (Eval.print value) (Eval.print value) (Reference.print value)
      fun _ _ _ => True := by
  have houtput : p.machine.output ++ p.machine.heap.text value ++ "\n"
      = p.state.output ++ p.state.heap.text value ++ "\n" := by rw [hp.output, hp.text]
  let q : Pair :=
    { p with
      machine := { p.machine with
        output := p.machine.output ++ p.machine.heap.text value ++ "\n" }
      state := { p.state with output := p.state.output ++ p.state.heap.text value ++ "\n" } }
  have hgrown : Grown p q := { Grown.refl p with }
  exact .act (q := q) rfl rfl { hp with output := houtput }
    ((Later.refl still p).grow hgrown rfl rfl) trivial

theorem sim_readClock (hp : p.Ok visits) :
    Sim visits still p Eval.readClock Eval.readClock Reference.readClock (Agreed visits) := by
  let q : Pair :=
    { p with
      machine := { p.machine with clock := p.machine.clock + Eval.clockTick }
      state := { p.state with clock := p.state.clock + Eval.clockTick } }
  have hgrown : Grown p q := { Grown.refl p with }
  have hclock : p.machine.clock + Eval.clockTick = p.state.clock + Eval.clockTick := by
    rw [hp.clock]
  refine .act (q := q) rfl rfl { hp with clock := hclock }
    ((Later.refl still p).grow hgrown rfl rfl) ⟨?_, trivial⟩
  rw [hp.clock]

theorem sim_exitWith (hp : p.Ok visits) (value : Value) :
    Sim visits still p (Eval.exitWith value) (Eval.exitWith value) (Eval.exitWith value)
      (Agreed visits) := by
  cases value with
  | number x =>
      simp only [Eval.exitWith]
      cases Decimal.truncate? x with
      | some code => exact .halt rfl rfl hp (Stop.genuine_exit visits code)
      | none => exact .halt rfl rfl hp (Stop.genuine_fault none nofun)
  | nil | boolean | string | native | function | cls | object =>
      exact .halt rfl rfl hp (Stop.genuine_fault none nofun)

theorem sim_callNative (hp : p.Ok visits) (f : Native) (arguments : List Value) :
    Sim visits still p (Eval.callNative f arguments) (Eval.callNative f arguments)
      (Reference.callNative f arguments) (Agreed visits) := by
  cases f with
  | clock => exact sim_readClock hp
  | exit => exact sim_exitWith hp _

/-- Setting a field of an object. -/
theorem sim_setProperty (hp : p.Ok visits) (object : ObjectId) (name : Token) {value : Value}
    (hv : p.Sane visits value) :
    Sim visits still p (Eval.setProperty object name value) (Eval.setProperty object name value)
      (Reference.setProperty object name value) fun _ _ _ => True :=
  .act (q := p.setField object name.lexeme value) rfl rfl (hp.setField hv)
    ((Later.refl still p).grow (grown_setField p object name.lexeme value) rfl rfl) trivial

end Lox.Lockstep
