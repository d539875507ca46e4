/-
Evaluation of trees that are alike. To compare the runs of two such trees, on
machines that may differ, it is enough to compare the few steps that touch a
machine, and to see that sequencing and changing the current frame keep the
comparison (`Correspondence`). One pass over the evaluator then compares whole
runs. Both runs come to the same values, because they make everything in the same
order.

On one side there may be many runs at once, told apart by an index: the runs under
all observers, say. Calls are left out of the pass, for in them a fault without a
token may come up; a comparison that takes such faults has them for nothing
(`FullCorrespondence`).
-/
import Lox.Proofs.Likeness.Tree
import Lox.Proofs.Lockstep.Watch

namespace Lox

open Eval

/-- A comparison of computations that goes through everything evaluation is put together from. -/
structure Correspondence {ι : Type} (ρ : Likeness)
    (Rel : {α : Type} → (ι → Eval α) → Eval α → Prop) : Prop where
  pure {α : Type} (a : α) : Rel (fun _ => pure a) (pure a)
  bind {α β : Type} {x : ι → Eval α} {y : Eval α} {f : ι → α → Eval β} {g : α → Eval β}
    (first : Rel x y) (rest : ∀ a, Rel (fun i => f i a) (g a)) :
    Rel (fun i => x i >>= f i) (y >>= g)
  stop {α : Type} {s s' : Stop} (alike : s.Alike ρ s') :
    Rel (α := α) (fun _ => stop s) (stop s')
  inScope {α : Type} {x : ι → Eval α} {y : Eval α} (frame : FrameId) (inner : Rel x y) :
    Rel (fun i => inScope frame (x i)) (inScope frame y)
  -- looking at the machine
  heap {α : Type} {k : ι → Heap → Eval α} {l : Heap → Eval α}
    (rest : ∀ h h', h.Alike ρ h' → Rel (fun i => k i h) (l h')) :
    Rel (fun i => heap >>= k i) (heap >>= l)
  scope : Rel (fun _ => scope) scope
  distance {id id' : NodeId} (node : ρ.nodes id id') :
    Rel (fun _ => distance? id) (distance? id')
  -- changing the machine
  noteStatement {s s' : Stmt} (alike : s.Alike ρ s') :
    Rel (fun _ => noteStatement s) (noteStatement s')
  print (value : Value) : Rel (fun _ => print value) (print value)
  define (name : String) (value : Value) : Rel (fun _ => define name value) (define name value)
  bindAt (frame : FrameId) (name : String) (value : Value) :
    Rel (fun _ => updateHeap fun h => h.define frame name value)
      (updateHeap fun h => h.define frame name value)
  setField (object : ObjectId) (name : String) (value : Value) :
    Rel (fun _ => updateHeap fun h => h.setField object name value)
      (updateHeap fun h => h.setField object name value)
  newFrame (outer : FrameId) (bindings : Bindings Value) :
    Rel (fun _ => newFrame outer bindings) (newFrame outer bindings)
  newFunction {c c' : Closure} (alike : c.Alike ρ c') :
    Rel (fun _ => newFunction c) (newFunction c')
  newClass (c : ClassData) : Rel (fun _ => newClass c) (newClass c)
  newObject (o : ObjectData) : Rel (fun _ => newObject o) (newObject o)

/-- A comparison that takes the natives too, with their faults that know no token. -/
structure FullCorrespondence {ι : Type} (ρ : Likeness)
    (Rel : {α : Type} → (ι → Eval α) → Eval α → Prop) : Prop extends Correspondence ρ Rel where
  native (f : Native) (arguments : List Value) :
    Rel (fun _ => callNative f arguments) (callNative f arguments)
  anchored {α : Type} {x : ι → Eval α} {y : Eval α} {token token' : Token}
    (place : ρ.tokens token token') (inner : Rel x y) :
    Rel (fun i => anchored token (x i)) (anchored token' y)

/-- Runners run alike what is alike. -/
structure Runner.Corresponds {ι : Type} (ρ : Likeness)
    (Rel : {α : Type} → (ι → Eval α) → Eval α → Prop) (run : ι → Runner) (run' : Runner) :
    Prop where
  evaluate (room : Nat) {e e' : Expr} (alike : e.Alike ρ e') :
    Rel (fun i => (run i).evaluate room e) (run'.evaluate room e')
  execute (room : Nat) {s s' : Stmt} (alike : s.Alike ρ s') :
    Rel (fun i => (run i).execute room s) (run'.execute room s')
  loop (room : Nat) {condition condition' : Expr} {body body' : Stmt}
    (first : condition.Alike ρ condition') (rest : body.Alike ρ body') :
    Rel (fun i => (run i).loop room condition body) (run'.loop room condition' body')

namespace Correspondence

variable {ι : Type} {ρ : Likeness} {Rel : {α : Type} → (ι → Eval α) → Eval α → Prop} {α β : Type}
  {run : ι → Runner} {run' : Runner} {room : Nat} {id id' : NodeId} {token token' : Token}

-- ============================================================ parts of steps

theorem fault (hc : Correspondence ρ Rel) (place : ρ.tokens token token') {cause : RuntimeCause}
    (own : cause.native = false) :
    Rel (α := α) (fun _ => Eval.fault token cause) (Eval.fault token' cause) :=
  hc.stop (.fault own place)

theorem broken (hc : Correspondence ρ Rel) (link : BrokenLink) :
    Rel (α := α) (fun _ => Eval.broken link) (Eval.broken link) :=
  hc.stop (.broken link)

/-- A name is bound alike however its token looks. -/
theorem declare (hc : Correspondence ρ Rel) (place : ρ.tokens token token') (value : Value) :
    Rel (fun _ => Eval.define token.lexeme value) (Eval.define token'.lexeme value) := by
  rw [ρ.spelt place]
  exact hc.define token.lexeme value

theorem inNewFrame (hc : Correspondence ρ Rel) {x : ι → Eval α} {y : Eval α} (outer : FrameId)
    (bindings : Bindings Value) (h : Rel x y) :
    Rel (fun i => Eval.inNewFrame outer bindings (x i)) (Eval.inNewFrame outer bindings y) :=
  hc.bind (hc.newFrame outer bindings) fun frame => hc.inScope frame h

/-- The data of a function is alike on both sides. -/
theorem closure (hc : Correspondence ρ Rel) (f : FunctionId) {k : ι → Closure → Eval α}
    {l : Closure → Eval α} (rest : ∀ c c', c.Alike ρ c' → Rel (fun i => k i c) (l c')) :
    Rel (fun i => Eval.closure f >>= k i) (Eval.closure f >>= l) := by
  have hassoc : ∀ next : Closure → Eval α, (Eval.closure f >>= next)
      = Eval.heap >>= fun h => h.functions[f]?.elim (Eval.broken .dangling) next := by
    intro next
    unfold Eval.closure
    rw [bind_assoc]
    refine bind_congr fun h => ?_
    cases h.functions[f]? <;> rfl
  simp only [hassoc]
  refine hc.heap fun h h' ha => ?_
  have hf := ha.functions f
  revert hf
  cases h.functions[f]? <;> cases h'.functions[f]? <;> intro hf <;> cases hf
  · exact hc.broken _
  · rename_i hclosure
    exact rest _ _ hclosure

theorem ancestor (hc : Correspondence ρ Rel) (frame : FrameId) (distance : Nat) :
    Rel (fun _ => Eval.ancestor frame distance) (Eval.ancestor frame distance) := by
  refine hc.heap fun h h' ha => ?_
  rw [ha.scopes]
  cases h.scopes.ancestor? frame distance with
  | none => exact hc.broken _
  | some outer => exact hc.pure outer

theorem getAt (hc : Correspondence ρ Rel) (frame : FrameId) (distance : Nat) {name name' : String}
    (hname : name' = name) :
    Rel (fun _ => Eval.getAt frame distance name) (Eval.getAt frame distance name') := by
  subst hname
  refine hc.bind (hc.ancestor frame distance) fun holder => hc.heap fun h h' ha => ?_
  rw [ha.scopes]
  cases h.scopes.local? holder name' with
  | none => exact hc.broken _
  | some value => exact hc.pure value

theorem getNamed (hc : Correspondence ρ Rel) (frame : FrameId) (place : ρ.tokens token token') :
    Rel (fun _ => Eval.getNamed frame token) (Eval.getNamed frame token') := by
  refine hc.heap fun h h' ha => ?_
  rw [ha.scopes, ρ.spelt place]
  cases h.scopes.get? frame token.lexeme with
  | none => exact hc.fault place rfl
  | some value => exact hc.pure value

theorem assignNamed (hc : Correspondence ρ Rel) (frame : FrameId) (place : ρ.tokens token token')
    (value : Value) :
    Rel (fun _ => Eval.assignNamed frame token value) (Eval.assignNamed frame token' value) := by
  refine hc.heap fun h h' ha => ?_
  rw [ha.scopes, ρ.spelt place]
  cases h.scopes.holder? frame token.lexeme with
  | none => exact hc.fault place rfl
  | some holder => exact hc.bindAt holder token.lexeme value

theorem lookUp (hc : Correspondence ρ Rel) (node : ρ.nodes id id') (place : ρ.tokens token token') :
    Rel (fun _ => Eval.lookUp id token) (Eval.lookUp id' token') := by
  refine hc.bind (hc.distance node) fun found => ?_
  cases found with
  | none => exact hc.getNamed globalFrame place
  | some distance =>
      exact hc.bind hc.scope fun frame => hc.getAt frame distance (ρ.spelt place)

theorem assign (hc : Correspondence ρ Rel) (node : ρ.nodes id id') (place : ρ.tokens token token')
    (value : Value) : Rel (fun _ => Eval.assign id token value) (Eval.assign id' token' value) := by
  refine hc.bind (hc.distance node) fun found => ?_
  cases found with
  | none => exact hc.assignNamed globalFrame place value
  | some distance =>
      refine hc.bind hc.scope fun frame => hc.bind (hc.ancestor frame distance) fun holder => ?_
      rw [ρ.spelt place]
      exact hc.bindAt holder token.lexeme value

theorem unary (hc : Correspondence ρ Rel) (place : ρ.tokens token token') (value : Value) :
    Rel (fun _ => Eval.unary token value) (Eval.unary token' value) := by
  unfold Eval.unary
  rw [ρ.spelt place]
  split
  · refine hc.bind ?_ fun x => hc.pure _
    cases value with
    | number x => exact hc.pure x
    | _ => exact hc.fault place rfl
  · exact hc.pure _
  · exact hc.broken _

theorem numeric (hc : Correspondence ρ Rel) (place : ρ.tokens token token') (left right : Value) :
    Rel (fun _ => Eval.numeric token left right) (Eval.numeric token' left right) := by
  unfold Eval.numeric
  rw [ρ.spelt place]
  refine hc.bind ?_ fun (a, b) => ?_
  · unfold needNumbers
    split
    · exact hc.pure _
    · exact hc.fault place rfl
  · dsimp only
    split
    iterate 7 exact hc.pure _
    exact hc.broken _

theorem binary (hc : Correspondence ρ Rel) (place : ρ.tokens token token') (left right : Value) :
    Rel (fun _ => Eval.binary token left right) (Eval.binary token' left right) := by
  unfold Eval.binary
  rw [ρ.spelt place]
  split
  · unfold add
    split
    · exact hc.pure _
    · exact hc.pure _
    · exact hc.fault place rfl
  · exact hc.pure _
  · exact hc.pure _
  · exact hc.numeric place left right

theorem settles_eq (place : ρ.tokens token token') (value : Value) :
    settles token' value = settles token value := by
  unfold settles
  rw [ρ.spelt place]

theorem bindMethod (hc : Correspondence ρ Rel) (method : FunctionId) (receiver : Value) :
    Rel (fun _ => Eval.bindMethod method receiver) (Eval.bindMethod method receiver) := by
  refine hc.closure method fun c c' alike => ?_
  rw [alike.scope]
  exact hc.bind (hc.newFrame c.scope _) fun frame =>
    hc.newFunction ⟨alike.declaration, rfl, alike.isInitializer, alike.held⟩

theorem boundMethod (hc : Correspondence ρ Rel) (c : ClassId) (place : ρ.tokens token token')
    (receiver : Value) :
    Rel (fun _ => Eval.boundMethod c token receiver) (Eval.boundMethod c token' receiver) := by
  refine hc.heap fun h h' ha => ?_
  rw [ha.findMethod?_eq, ρ.spelt place]
  cases h.findMethod? c token.lexeme with
  | none => exact hc.fault place rfl
  | some method => exact hc.bind (hc.bindMethod method receiver) fun f => hc.pure _

theorem getProperty (hc : Correspondence ρ Rel) (value : Value) (place : ρ.tokens token token') :
    Rel (fun _ => Eval.getProperty value token) (Eval.getProperty value token') := by
  cases value with
  | object object =>
      have hdata : Rel (fun _ => objectData object) (objectData object) := by
        refine hc.heap fun h h' ha => ?_
        rw [ha.objects]
        cases h.objects[object]? with
        | none => exact hc.broken _
        | some data => exact hc.pure data
      refine hc.bind hdata fun data => ?_
      rw [ρ.spelt place]
      cases data.fields.find? token.lexeme with
      | none => exact hc.boundMethod data.cls place _
      | some field => exact hc.pure field
  | _ => exact hc.fault place rfl

theorem superMethod (hc : Correspondence ρ Rel) (node : ρ.nodes id id')
    (place : ρ.tokens token token') :
    Rel (fun _ => Eval.superMethod id token) (Eval.superMethod id' token') := by
  refine hc.bind (hc.distance node) fun found => ?_
  cases found with
  | none => exact hc.stop (.missing node)
  | some distance =>
      refine hc.bind hc.scope fun frame => hc.bind (hc.getAt frame distance rfl) fun parent =>
        hc.bind (hc.getAt frame (distance - 1) rfl) fun receiver => ?_
      cases parent with
      | cls c => exact hc.boundMethod c place receiver
      | _ => exact hc.broken _

-- ===================================================================== calls

theorem evaluateAll (hc : Correspondence ρ Rel) (hr : Runner.Corresponds ρ Rel run run')
    {es es' : List Expr} (alike : List.Forall₂ (Expr.Alike ρ) es es') :
    Rel (fun i => Eval.evaluateAll (run i) room es) (Eval.evaluateAll run' room es') := by
  induction alike with
  | nil => exact hc.pure []
  | cons first _ ih =>
      exact hc.bind (hr.evaluate room first) fun first => hc.bind ih fun others => hc.pure _

theorem executeAll (hc : Correspondence ρ Rel) (hr : Runner.Corresponds ρ Rel run run')
    {body body' : List Stmt} (alike : List.Forall₂ (Stmt.Alike ρ) body body') :
    Rel (fun i => Eval.executeAll (run i) room body) (Eval.executeAll run' room body') := by
  induction alike with
  | nil => exact hc.pure Completion.normal
  | cons first _ ih =>
      refine hc.bind (hr.execute room first) fun c => ?_
      cases c with
      | normal => exact ih
      | returned v => exact hc.pure _

theorem callFunction (hc : Correspondence ρ Rel) (hr : Runner.Corresponds ρ Rel run run')
    (f : FunctionId) (arguments : List Value) :
    Rel (fun i => Eval.callFunction (run i) room f arguments)
      (Eval.callFunction run' room f arguments) := by
  cases room with
  | zero => exact hc.stop .overflow
  | succ room =>
      refine hc.closure f fun c c' alike => ?_
      rw [alike.scope, alike.isInitializer, bindParameters_eq alike.declaration.params]
      refine hc.bind (hc.inNewFrame c.scope _ (hc.executeAll hr alike.declaration.body))
        fun completion => ?_
      cases c.isInitializer with
      | false => exact hc.pure _
      | true => exact hc.getAt c.scope 0 rfl

theorem construct (hc : Correspondence ρ Rel) (hr : Runner.Corresponds ρ Rel run run')
    (c : ClassId) (arguments : List Value) :
    Rel (fun i => Eval.construct (run i) room c arguments)
      (Eval.construct run' room c arguments) := by
  refine hc.bind (hc.newObject _) fun object => hc.heap fun h h' ha => ?_
  rw [ha.findMethod?_eq]
  cases h.findMethod? c initializerName with
  | none => exact hc.pure _
  | some method =>
      exact hc.bind (hc.bindMethod method _) fun f =>
        hc.bind (hc.callFunction hr f arguments) fun _ => hc.pure _

-- =================================================================== classes

theorem newMethods (hc : Correspondence ρ Rel) (frame : FrameId) {methods methods' : List FunDecl}
    (alike : List.Forall₂ (FunDecl.Alike ρ) methods methods') (held : ρ.Methods methods methods')
    (own : Bindings FunctionId) :
    Rel (fun _ => Eval.newMethods frame methods own) (Eval.newMethods frame methods' own) := by
  induction alike generalizing own with
  | nil => exact hc.pure own
  | cons first _ ih =>
      cases held with
      | cons hfirst hrest =>
          unfold Eval.newMethods
          rw [ρ.spelt first.name]
          exact hc.bind (hc.newFunction ⟨first, rfl, rfl, hfirst⟩) fun id => ih hrest _

theorem superclassValue (hc : Correspondence ρ Rel) (hr : Runner.Corresponds ρ Rel run run')
    {parent parent' : NameRef} (alike : parent.Alike ρ parent') :
    Rel (fun i => Eval.superclassValue (run i) room parent)
      (Eval.superclassValue run' room parent') := by
  refine hc.bind (hr.evaluate room alike.asExpr) fun above => ?_
  cases above with
  | cls c => exact hc.pure c
  | _ => exact hc.fault alike.name rfl

theorem declareClass (hc : Correspondence ρ Rel) (hr : Runner.Corresponds ρ Rel run run')
    (place : ρ.tokens token token') {superclass superclass' : Option NameRef}
    {methods methods' : List FunDecl}
    (above : Option.Rel (NameRef.Alike ρ) superclass superclass')
    (alike : List.Forall₂ (FunDecl.Alike ρ) methods methods') (held : ρ.Methods methods methods') :
    Rel (fun i => Eval.declareClass (run i) room token superclass methods)
      (Eval.declareClass run' room token' superclass' methods') := by
  have hclass : ∀ (above : Option ClassId) (own : Bindings FunctionId),
      Rel (fun _ => Eval.newClass ⟨token.lexeme, above, own⟩)
        (Eval.newClass ⟨token'.lexeme, above, own⟩) := by
    rw [ρ.spelt place]
    exact fun above own => hc.newClass _
  cases above with
  | none =>
      exact hc.bind (hc.declare place .nil) fun _ => hc.bind hc.scope fun frame =>
        hc.bind (hc.newMethods frame alike held .empty) fun own =>
          hc.bind (hclass none own) fun c => hc.assignNamed frame place _
  | some parent =>
      exact hc.bind (hc.superclassValue hr parent) fun above =>
        hc.bind (hc.declare place .nil) fun _ => hc.bind hc.scope fun frame =>
          hc.bind (hc.newFrame frame _) fun inner =>
            hc.bind (hc.newMethods inner alike held .empty) fun own =>
              hc.bind (hclass (some above) own) fun c => hc.assignNamed frame place _

-- ===================================================================== nodes

theorem checkCallable (hc : Correspondence ρ Rel) (place : ρ.tokens token token') (callee : Value) :
    Rel (fun _ => Eval.checkCallable token callee) (Eval.checkCallable token' callee) := by
  cases callee with
  | native | function | cls => exact hc.pure ()
  | _ => exact hc.fault place rfl

theorem checkArity (hc : Correspondence ρ Rel) (place : ρ.tokens token token') (callee : Value)
    (given : Nat) :
    Rel (fun _ => Eval.checkArity token callee given) (Eval.checkArity token' callee given) := by
  refine hc.heap fun h h' ha => ?_
  rw [ha.arity?_eq]
  cases h.arity? callee with
  | none => exact hc.fault place rfl
  | some expected =>
      dsimp only
      split
      · exact hc.pure ()
      · exact hc.fault place rfl

/-- All expressions but calls. -/
theorem evaluateNode (hc : Correspondence ρ Rel) (hr : Runner.Corresponds ρ Rel run run')
    {e e' : Expr} (alike : e.Alike ρ e')
    (hcall : ∀ id callee paren arguments, e = .call id callee paren arguments →
      Rel (fun i => Eval.evaluateNode (run i) room e) (Eval.evaluateNode run' room e')) :
    Rel (fun i => Eval.evaluateNode (run i) room e) (Eval.evaluateNode run' room e') := by
  cases alike with
  | literal node token => exact hc.pure _
  | var node name => exact hc.lookUp node name
  | assign node name value =>
      exact hc.bind (hr.evaluate room value) fun v => hc.bind (hc.assign node name v) fun _ =>
        hc.pure v
  | binary node left operator right =>
      exact hc.bind (hr.evaluate room left) fun a => hc.bind (hr.evaluate room right) fun b =>
        hc.binary operator a b
  | logical node left operator right =>
      refine hc.bind (hr.evaluate room left) fun a => ?_
      rw [settles_eq operator]
      split
      · exact hc.pure a
      · exact hr.evaluate room right
  | unary node operator operand =>
      exact hc.bind (hr.evaluate room operand) fun a => hc.unary operator a
  | grouping node inner => exact hr.evaluate room inner
  | call node callee paren arguments => exact hcall _ _ _ _ rfl
  | get node object name =>
      exact hc.bind (hr.evaluate room object) fun o => hc.getProperty o name
  | set node object name value =>
      refine hc.bind (hr.evaluate room object) fun o => ?_
      cases o with
      | object o =>
          refine hc.bind (hr.evaluate room value) fun v => ?_
          unfold Eval.setProperty
          rw [ρ.spelt name]
          exact hc.bind (hc.setField o _ v) fun _ => hc.pure v
      | _ => exact hc.fault name rfl
  | this node keyword => exact hc.lookUp node keyword
  | super node keyword method => exact hc.superMethod node method

theorem performNode (hc : Correspondence ρ Rel) (hr : Runner.Corresponds ρ Rel run run')
    {s s' : Stmt} (alike : s.Alike ρ s') :
    Rel (fun i => Eval.performNode (run i) room s) (Eval.performNode run' room s') := by
  cases alike with
  | expression node inner =>
      exact hc.bind (hr.evaluate room inner) fun _ => hc.pure Completion.normal
  | print node inner =>
      exact hc.bind (hr.evaluate room inner) fun v => hc.bind (hc.print v) fun _ =>
        hc.pure Completion.normal
  | varDecl node name initializer =>
      cases initializer with
      | none => exact hc.bind (hc.declare name .nil) fun _ => hc.pure Completion.normal
      | some inner =>
          exact hc.bind (hr.evaluate room inner) fun v => hc.bind (hc.declare name v) fun _ =>
            hc.pure Completion.normal
  | block node body =>
      exact hc.bind hc.scope fun frame => hc.inNewFrame frame .empty (hc.executeAll hr body)
  | ifThen node condition thenBranch =>
      refine hc.bind (hr.evaluate room condition) fun v => ?_
      cases v.isTruthy with
      | false => exact hc.pure Completion.normal
      | true => exact hr.execute room thenBranch
  | ifElse node condition thenBranch elseBranch =>
      refine hc.bind (hr.evaluate room condition) fun v => ?_
      cases v.isTruthy with
      | false => exact hr.execute room elseBranch
      | true => exact hr.execute room thenBranch
  | whileLoop node condition body => exact hr.loop room condition body
  | funDecl node function held =>
      exact hc.bind hc.scope fun frame =>
        hc.bind (hc.newFunction ⟨function, rfl, rfl, held⟩) fun id =>
          hc.bind (hc.declare function.name _) fun _ => hc.pure Completion.normal
  | returnStmt node keyword value =>
      cases value with
      | none => exact hc.pure _
      | some inner => exact hc.bind (hr.evaluate room inner) fun v => hc.pure _
  | classDecl node name superclass methods held =>
      exact hc.bind (hc.declareClass hr name superclass methods held) fun _ =>
        hc.pure Completion.normal

theorem executeNode (hc : Correspondence ρ Rel) (hr : Runner.Corresponds ρ Rel run run')
    {s s' : Stmt} (alike : s.Alike ρ s') :
    Rel (fun i => Eval.executeNode (run i) room s) (Eval.executeNode run' room s') :=
  hc.bind (hc.noteStatement alike) fun _ => hc.performNode hr alike

theorem loopNode (hc : Correspondence ρ Rel) (hr : Runner.Corresponds ρ Rel run run')
    {condition condition' : Expr} {body body' : Stmt} (first : condition.Alike ρ condition')
    (rest : body.Alike ρ body') :
    Rel (fun i => Eval.loopNode (run i) room condition body)
      (Eval.loopNode run' room condition' body') := by
  refine hc.bind (hr.evaluate room first) fun v => ?_
  cases v.isTruthy with
  | false => exact hc.pure Completion.normal
  | true =>
      refine hc.bind (hr.execute room rest) fun c => ?_
      cases c with
      | normal => exact hr.loop room first rest
      | returned v => exact hc.pure _

-- ====================================================================== runs

/-- With no step left all runs stop alike. -/
theorem exhausted (hc : Correspondence ρ Rel) :
    Runner.Corresponds ρ Rel (fun _ => Eval.runner 0) (Eval.runner 0) where
  evaluate _ _ _ _ := hc.stop .exhausted
  execute _ _ _ _ := hc.stop .exhausted
  loop _ _ _ _ _ _ _ := hc.stop .exhausted

theorem interpretWith (hc : Correspondence ρ Rel) (hr : Runner.Corresponds ρ Rel run run')
    {body body' : List Stmt} (alike : List.Forall₂ (Stmt.Alike ρ) body body') :
    Rel (fun i => Eval.interpretWith (run i) room body) (Eval.interpretWith run' room body') := by
  induction alike with
  | nil => exact hc.pure ()
  | cons first _ ih => exact hc.bind (hr.execute room first) fun _ => ih

end Correspondence

namespace FullCorrespondence

variable {ι : Type} {ρ : Likeness} {Rel : {α : Type} → (ι → Eval α) → Eval α → Prop}
  {run : ι → Runner} {run' : Runner} {room : Nat}

theorem invoke (hc : FullCorrespondence ρ Rel) (hr : Runner.Corresponds ρ Rel run run')
    (callee : Value) (arguments : List Value) :
    Rel (fun i => Eval.invoke (run i) room callee arguments)
      (Eval.invoke run' room callee arguments) := by
  cases callee with
  | native f => exact hc.native f arguments
  | function f => exact hc.callFunction hr f arguments
  | cls c => exact hc.construct hr c arguments
  | _ => exact hc.broken _

theorem evaluateNode (hc : FullCorrespondence ρ Rel) (hr : Runner.Corresponds ρ Rel run run')
    {e e' : Expr} (alike : e.Alike ρ e') :
    Rel (fun i => Eval.evaluateNode (run i) room e) (Eval.evaluateNode run' room e') := by
  refine hc.toCorrespondence.evaluateNode hr alike fun id callee paren arguments he => ?_
  subst he
  cases alike with
  | call node callee paren arguments =>
      refine hc.bind (hr.evaluate room callee) fun f =>
        hc.bind (hc.checkCallable paren f) fun _ =>
          hc.bind (hc.evaluateAll hr arguments) fun given => ?_
      exact hc.bind (hc.checkArity paren f given.length) fun _ =>
        hc.anchored paren (hc.invoke hr f given)

/-- One more step into the tree keeps a comparison. -/
theorem deepen (hc : FullCorrespondence ρ Rel) (hr : Runner.Corresponds ρ Rel run run') :
    Runner.Corresponds ρ Rel (fun i => (run i).deepen) run'.deepen where
  evaluate _ _ _ alike := hc.evaluateNode hr alike
  execute _ _ _ alike := hc.executeNode hr alike
  loop _ _ _ _ _ first rest := hc.loopNode hr first rest

/-- Whatever the bound on the steps is. -/
theorem runner (hc : FullCorrespondence ρ Rel) (fuel : Nat) :
    Runner.Corresponds ρ Rel (fun _ => Eval.runner fuel) (Eval.runner fuel) := by
  induction fuel with
  | zero => exact hc.exhausted
  | succ fuel ih =>
      rw [Eval.runner_succ]
      exact hc.deepen ih

end FullCorrespondence

end Lox
