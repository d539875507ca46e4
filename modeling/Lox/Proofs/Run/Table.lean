/-
Runs and the distance table. A run looks at the table only through the numbers of
nodes that it can come to: those of its own tree and those of the functions that
are in the heap. Two machines whose tables agree about these, and that are the
same otherwise, run alike (`Twin.interpretWith`). What was traced does not count.
-/
import Lox.Proofs.Run.Congruence
import Lox.Proofs.Lockstep.Simulation

namespace Lox

open Lockstep (run_bind_ok run_bind_error)

/-- What a program can notice of a machine is the same on both, and what was printed. -/
structure Machine.Same (m m' : Machine) : Prop where
  heap : m'.heap = m.heap
  scope : m'.scope = m.scope
  output : m'.output = m.output
  tracing : m'.tracing = m.tracing
  clock : m'.clock = m.clock

/-- Two machines that are the same, but for tables that agree about some nodes. All functions in the
heap are made of these. -/
structure Twin (table table' : Distances) (m m' : Machine) : Prop where
  same : m.Same m'
  left : m.distances = table
  right : m'.distances = table'
  covered : ∀ (f : FunctionId) (c : Closure), m.heap.functions[f]? = some c →
    Covers (fun id => table[id]? = table'[id]?) c.declaration.nodes

/-- Two runs end alike: on twins, with one value or with one stop. -/
inductive Twin.Ends (table table' : Distances) {α : Type} :
    EStateM.Result Stop Machine α → EStateM.Result Stop Machine α → Prop
  | ok {a : α} {m m' : Machine} (twin : Twin table table' m m') :
      Ends table table' (.ok a m) (.ok a m')
  | error {s : Stop} {m m' : Machine} (twin : Twin table table' m m') :
      Ends table table' (.error s m) (.error s m')

/-- Two computations end alike on all twins. -/
def Twin.Agree (table table' : Distances) {α : Type} (x y : Eval α) : Prop :=
  ∀ m m', Twin table table' m m' → Twin.Ends table table' (x m) (y m')

namespace Twin

open Eval

variable {table table' : Distances} {α β : Type} {m m' : Machine}

theorem Agree.bind {x y : Eval α} {f g : α → Eval β} (first : Agree table table' x y)
    (rest : ∀ a, Agree table table' (f a) (g a)) : Agree table table' (x >>= f) (y >>= g) := by
  intro m m' h
  have hends := first m m' h
  generalize hx : x m = r at hends
  generalize hy : y m' = r' at hends
  cases hends with
  | @ok a k k' twin =>
      rw [run_bind_ok hx, run_bind_ok hy]
      exact rest a k k' twin
  | error twin =>
      rw [run_bind_error hx, run_bind_error hy]
      exact .error twin

/-- The machine is looked at, and what is seen is the same on twins. -/
theorem Agree.look {f : Machine → α} (h : ∀ m m', Twin table table' m m' → f m' = f m) :
    Agree table table' (fun m => .ok (f m) m) (fun m => .ok (f m) m) := by
  intro m m' htwin
  dsimp only
  rw [h m m' htwin]
  exact .ok htwin

/-- The heap is changed, as long as no function comes in that is not covered. -/
theorem withHeap (h : Twin table table' m m') (change : Heap → Heap)
    (hfunctions : ∀ (f : FunctionId) (c : Closure), (change m.heap).functions[f]? = some c →
      Covers (fun id => table[id]? = table'[id]?) c.declaration.nodes) :
    Twin table table' { m with heap := change m.heap } { m' with heap := change m'.heap } where
  same := ⟨congrArg change h.same.heap, h.same.scope, h.same.output, h.same.tracing, h.same.clock⟩
  left := h.left
  right := h.right
  covered := hfunctions

/-- Something is made, and its number is the same on twins. -/
theorem Agree.make (f : Heap → α) (change : Heap → Heap)
    (hfunctions : ∀ (h : Heap) (i : FunctionId) (c : Closure), (change h).functions[i]? = some c →
      h.functions[i]? = some c ∨ Covers (fun id => table[id]? = table'[id]?) c.declaration.nodes) :
    Agree table table' (fun m => .ok (f m.heap) { m with heap := change m.heap })
      (fun m => .ok (f m.heap) { m with heap := change m.heap }) := by
  intro m m' h
  have hf : f m'.heap = f m.heap := congrArg f h.same.heap
  dsimp only
  rw [hf]
  exact .ok (h.withHeap change fun i c hc => (hfunctions m.heap i c hc).elim (h.covered i c) id)

theorem agree_closure {f : FunctionId} {k l : Closure → Eval α}
    (rest : ∀ c, Covers (fun id => table[id]? = table'[id]?) c.declaration.nodes →
      Agree table table' (k c) (l c)) :
    Agree table table' (Eval.closure f >>= k) (Eval.closure f >>= l) := by
  intro m m' h
  cases hc : m.heap.functions[f]? with
  | none =>
      have hbroken : ∀ k : Machine, k.heap.functions[f]? = none →
          Eval.closure f k = .error (.broken .dangling) k := by
        intro k hk
        have hheap : Eval.heap k = .ok k.heap k := rfl
        unfold Eval.closure
        rw [run_bind_ok hheap, hk]
        rfl
      rw [run_bind_error (hbroken m hc), run_bind_error (hbroken m' (by rw [h.same.heap]; exact hc))]
      exact .error h
  | some c =>
      have hfound : ∀ k : Machine, k.heap.functions[f]? = some c →
          Eval.closure f k = .ok c k := by
        intro k hk
        have hheap : Eval.heap k = .ok k.heap k := rfl
        unfold Eval.closure
        rw [run_bind_ok hheap, hk]
        rfl
      rw [run_bind_ok (hfound m hc), run_bind_ok (hfound m' (by rw [h.same.heap]; exact hc))]
      exact rest c (h.covered f c hc) m m' h

theorem Agree.anchored {x y : Eval α} (token : Token) (inner : Agree table table' x y) :
    Agree table table' (Eval.anchored token x) (Eval.anchored token y) := by
  intro m m' h
  have hends := inner m m' h
  unfold Eval.anchored
  generalize x m = r at hends
  generalize y m' = r' at hends
  cases hends with
  | ok twin => exact .ok twin
  | @error s k k' twin =>
      cases s with
      | fault f =>
          obtain ⟨place, cause⟩ := f
          cases place <;> exact .error twin
      | _ => exact .error twin

theorem Agree.inScope {x y : Eval α} (frame : FrameId) (inner : Agree table table' x y) :
    Agree table table' (Eval.inScope frame x) (Eval.inScope frame y) := by
  -- The frame that is put back is the same on both sides.
  have hback : ∀ {k k' : Machine} {outer outer' : FrameId}, Twin table table' k k' →
      outer' = outer → Twin table table' { k with scope := outer } { k' with scope := outer' } := by
    intro k k' outer outer' h he
    exact ⟨⟨h.same.heap, he, h.same.output, h.same.tracing, h.same.clock⟩, h.left, h.right,
      h.covered⟩
  intro m m' h
  have hends := inner { m with scope := frame } { m' with scope := frame } (hback h rfl)
  unfold Eval.inScope
  dsimp only
  generalize x { m with scope := frame } = r at hends
  generalize y { m' with scope := frame } = r' at hends
  cases hends with
  | ok twin => exact .ok (hback twin h.same.scope)
  | error twin => exact .error (hback twin h.same.scope)

theorem agree_noteStatement (s : Stmt) :
    Agree table table' (Eval.noteStatement s) (Eval.noteStatement s) := by
  intro m m' h
  unfold Eval.noteStatement
  rw [h.same.tracing]
  cases m.tracing with
  | false => exact .ok h
  | true =>
      exact .ok ⟨⟨h.same.heap, h.same.scope, h.same.output, h.same.tracing, h.same.clock⟩, h.left,
        h.right, h.covered⟩

theorem agree_print (value : Value) :
    Agree table table' (Eval.print value) (Eval.print value) := by
  intro m m' h
  have houtput : m'.output ++ m'.heap.text value ++ "\n" = m.output ++ m.heap.text value ++ "\n" := by
    rw [h.same.output, h.same.heap]
  exact .ok ⟨⟨h.same.heap, h.same.scope, houtput, h.same.tracing, h.same.clock⟩, h.left, h.right,
    h.covered⟩

theorem agree_readClock : Agree table table' Eval.readClock Eval.readClock := by
  intro m m' h
  unfold Eval.readClock
  rw [h.same.clock]
  exact .ok ⟨⟨h.same.heap, h.same.scope, h.same.output, h.same.tracing, rfl⟩, h.left, h.right,
    h.covered⟩

theorem agree_define (name : String) (value : Value) :
    Agree table table' (Eval.define name value) (Eval.define name value) := by
  intro m m' h
  have hplace : m'.heap.define m'.scope name value = m'.heap.define m.scope name value := by
    rw [h.same.scope]
  show Ends _ _ _ (.ok () { m' with heap := m'.heap.define m'.scope name value })
  rw [hplace]
  exact .ok (h.withHeap (fun k => k.define m.scope name value) h.covered)

/-- Evaluation agrees on twins because all its steps do. -/
theorem congruence (table table' : Distances) :
    Congruence (fun id => table[id]? = table'[id]?) (fun {_} x y => Agree table table' x y) where
  pure a := fun _ _ h => .ok h
  bind := Agree.bind
  stop s := fun _ _ h => .error h
  anchored := Agree.anchored
  inScope := Agree.inScope
  heap := Agree.look fun _ _ h => h.same.heap
  scope := Agree.look fun _ _ h => h.same.scope
  distance {id} known := Agree.look (f := fun m => m.distances[id]?) fun _ _ h => by
    rw [h.left, h.right]
    exact known.symm
  closure := agree_closure
  noteStatement := agree_noteStatement
  print := agree_print
  readClock := agree_readClock
  define := agree_define
  bindAt frame name value := Agree.make (fun _ => ()) (fun h => h.define frame name value)
    fun _ _ _ hc => .inl hc
  setField object name value := Agree.make (fun _ => ()) (fun h => h.setField object name value)
    fun _ _ _ hc => .inl hc
  newFrame outer bindings := Agree.make (fun h => h.scopes.next)
    (fun h => h.addFrame outer bindings) fun _ _ _ hc => .inl hc
  newFunction {c} known := by
    refine Agree.make (fun h => h.functions.size) (fun h => h.addFunction c) fun h i d hd => ?_
    have hpush : (h.functions.push c)[i]? = some d := hd
    rw [Array.getElem?_push] at hpush
    split at hpush
    · cases hpush
      exact .inr known
    · exact .inl hpush
  newClass c := Agree.make (fun h => h.classes.size) (fun h => h.addClass c)
    fun _ _ _ hc => .inl hc
  newObject o := Agree.make (fun h => h.objects.size) (fun h => h.addObject o)
    fun _ _ _ hc => .inl hc

theorem runner_alike (table table' : Distances) (fuel : Nat) :
    Runner.Alike (fun id => table[id]? = table'[id]?) (fun {_} x y => Agree table table' x y)
      (Eval.runner fuel) (Eval.runner fuel) := by
  induction fuel with
  | zero => exact (congruence table table').exhausted
  | succ fuel ih =>
      rw [Eval.runner_succ]
      exact (congruence table table').deepen ih

/-- A program runs alike on twins whose tables agree about its nodes. -/
theorem interpret (h : Twin table table' m m') {body : List Stmt}
    (hbody : Covers (fun id => table[id]? = table'[id]?) (Stmt.nodesAll body))
    (fuel room : Nat) :
    Ends table table' (Eval.interpret fuel room body m) (Eval.interpret fuel room body m') :=
  (congruence table table').interpretWith (runner_alike table table' fuel) hbody m m' h

end Twin

end Lox
