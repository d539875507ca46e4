/-
What holds of all evaluation because of how it is put together. To compare two
runs, of one evaluator or of two, it is enough to compare the few steps that
touch a machine, and to see that sequencing and changing the current frame keep
the comparison (`Congruence`). One pass over the evaluator then compares whole
runs (`Congruence.deepen`).

A run meets nodes in two ways: those of its own tree, and those of functions that
lie in the heap. Both must have numbers that the comparison covers; whoever
stores a function has to see to it, and whoever calls one may count on it.
-/
import Lox.Proofs.Binding.Node
import Lox.Proofs.Lockstep.Watch

namespace Lox

open Eval

/-- All nodes have numbers of one kind. -/
def Covers (clear : NodeId → Prop) (nodes : List Node) : Prop := ∀ n ∈ nodes, clear n.id

namespace Covers

variable {clear : NodeId → Prop} {a b : List Node} {n : Node}

theorem left (h : Covers clear (a ++ b)) : Covers clear a := fun n hn =>
  h n (List.mem_append_left b hn)

theorem right (h : Covers clear (a ++ b)) : Covers clear b := fun n hn =>
  h n (List.mem_append_right a hn)

theorem tail (h : Covers clear (n :: a)) : Covers clear a := fun n hn =>
  h n (List.mem_cons_of_mem _ hn)

end Covers

/-- A comparison of computations that goes through everything evaluation is put together from. -/
structure Congruence (clear : NodeId → Prop)
    (Rel : {α : Type} → Eval α → Eval α → Prop) : Prop where
  pure {α : Type} (a : α) : Rel (pure a) (pure a)
  bind {α β : Type} {x y : Eval α} {f g : α → Eval β} (first : Rel x y)
    (rest : ∀ a, Rel (f a) (g a)) : Rel (x >>= f) (y >>= g)
  stop {α : Type} (s : Stop) : Rel (α := α) (stop s) (stop s)
  anchored {α : Type} {x y : Eval α} (token : Token) (inner : Rel x y) :
    Rel (anchored token x) (anchored token y)
  inScope {α : Type} {x y : Eval α} (frame : FrameId) (inner : Rel x y) :
    Rel (inScope frame x) (inScope frame y)
  -- looking at the machine
  heap : Rel heap heap
  scope : Rel scope scope
  distance {id : NodeId} (known : clear id) : Rel (distance? id) (distance? id)
  closure {α : Type} {f : FunctionId} {k l : Closure → Eval α}
    (rest : ∀ c, Covers clear c.declaration.nodes → Rel (k c) (l c)) :
    Rel (closure f >>= k) (closure f >>= l)
  -- changing the machine
  noteStatement (s : Stmt) : Rel (noteStatement s) (noteStatement s)
  print (value : Value) : Rel (print value) (print value)
  readClock : Rel readClock readClock
  define (name : String) (value : Value) : Rel (define name value) (define name value)
  bindAt (frame : FrameId) (name : String) (value : Value) :
    Rel (updateHeap fun h => h.define frame name value)
      (updateHeap fun h => h.define frame name value)
  setField (object : ObjectId) (name : String) (value : Value) :
    Rel (updateHeap fun h => h.setField object name value)
      (updateHeap fun h => h.setField object name value)
  newFrame (outer : FrameId) (bindings : Bindings Value) :
    Rel (newFrame outer bindings) (newFrame outer bindings)
  newFunction {c : Closure} (known : Covers clear c.declaration.nodes) :
    Rel (newFunction c) (newFunction c)
  newClass (c : ClassData) : Rel (newClass c) (newClass c)
  newObject (o : ObjectData) : Rel (newObject o) (newObject o)

/-- Two runners run covered nodes alike. -/
structure Runner.Alike (clear : NodeId → Prop) (Rel : {α : Type} → Eval α → Eval α → Prop)
    (run run' : Runner) : Prop where
  evaluate (room : Nat) {e : Expr} (known : Covers clear e.nodes) :
    Rel (run.evaluate room e) (run'.evaluate room e)
  execute (room : Nat) {s : Stmt} (known : Covers clear s.nodes) :
    Rel (run.execute room s) (run'.execute room s)
  loop (room : Nat) {condition : Expr} {body : Stmt} (first : Covers clear condition.nodes)
    (rest : Covers clear body.nodes) :
    Rel (run.loop room condition body) (run'.loop room condition body)

namespace Congruence

variable {clear : NodeId → Prop} {Rel : {α : Type} → Eval α → Eval α → Prop} {α β : Type}
  {run run' : Runner} {room : Nat}

-- ============================================================ parts of steps

theorem inNewFrame (hc : Congruence clear Rel) {x y : Eval α} (outer : FrameId)
    (bindings : Bindings Value) (h : Rel x y) :
    Rel (Eval.inNewFrame outer bindings x) (Eval.inNewFrame outer bindings y) :=
  hc.bind (hc.newFrame outer bindings) fun frame => hc.inScope frame h

theorem ancestor (hc : Congruence clear Rel) (frame : FrameId) (distance : Nat) :
    Rel (Eval.ancestor frame distance) (Eval.ancestor frame distance) := by
  refine hc.bind hc.heap fun h => ?_
  cases h.scopes.ancestor? frame distance with
  | none => exact hc.stop _
  | some outer => exact hc.pure outer

theorem getAt (hc : Congruence clear Rel) (frame : FrameId) (distance : Nat) (name : String) :
    Rel (Eval.getAt frame distance name) (Eval.getAt frame distance name) := by
  refine hc.bind (hc.ancestor frame distance) fun holder => hc.bind hc.heap fun h => ?_
  cases h.scopes.local? holder name with
  | none => exact hc.stop _
  | some value => exact hc.pure value

theorem getNamed (hc : Congruence clear Rel) (frame : FrameId) (name : Token) :
    Rel (Eval.getNamed frame name) (Eval.getNamed frame name) := by
  refine hc.bind hc.heap fun h => ?_
  cases h.scopes.get? frame name.lexeme with
  | none => exact hc.stop _
  | some value => exact hc.pure value

theorem assignNamed (hc : Congruence clear Rel) (frame : FrameId) (name : Token) (value : Value) :
    Rel (Eval.assignNamed frame name value) (Eval.assignNamed frame name value) := by
  refine hc.bind hc.heap fun h => ?_
  cases h.scopes.holder? frame name.lexeme with
  | none => exact hc.stop _
  | some holder => exact hc.bindAt holder name.lexeme value

theorem lookUp (hc : Congruence clear Rel) {id : NodeId} (hid : clear id) (name : Token) :
    Rel (Eval.lookUp id name) (Eval.lookUp id name) := by
  refine hc.bind (hc.distance hid) fun found => ?_
  cases found with
  | none => exact hc.getNamed globalFrame name
  | some distance => exact hc.bind hc.scope fun frame => hc.getAt frame distance name.lexeme

theorem assign (hc : Congruence clear Rel) {id : NodeId} (hid : clear id) (name : Token)
    (value : Value) : Rel (Eval.assign id name value) (Eval.assign id name value) := by
  refine hc.bind (hc.distance hid) fun found => ?_
  cases found with
  | none => exact hc.assignNamed globalFrame name value
  | some distance =>
      exact hc.bind hc.scope fun frame =>
        hc.bind (hc.ancestor frame distance) fun holder => hc.bindAt holder name.lexeme value

theorem needNumber (hc : Congruence clear Rel) (operator : Token) (value : Value) :
    Rel (Eval.needNumber operator value) (Eval.needNumber operator value) := by
  cases value with
  | number x => exact hc.pure x
  | _ => exact hc.stop _

theorem unary (hc : Congruence clear Rel) (operator : Token) (value : Value) :
    Rel (Eval.unary operator value) (Eval.unary operator value) := by
  unfold Eval.unary
  split
  · exact hc.bind (hc.needNumber operator value) fun x => hc.pure _
  · exact hc.pure _
  · exact hc.stop _

theorem numeric (hc : Congruence clear Rel) (operator : Token) (left right : Value) :
    Rel (Eval.numeric operator left right) (Eval.numeric operator left right) := by
  refine hc.bind ?_ fun (a, b) => ?_
  · unfold needNumbers
    split
    · exact hc.pure _
    · exact hc.stop _
  · dsimp only
    split
    iterate 7 exact hc.pure _
    exact hc.stop _

theorem binary (hc : Congruence clear Rel) (operator : Token) (left right : Value) :
    Rel (Eval.binary operator left right) (Eval.binary operator left right) := by
  unfold Eval.binary
  split
  · unfold add
    split
    · exact hc.pure _
    · exact hc.pure _
    · exact hc.stop _
  · exact hc.pure _
  · exact hc.pure _
  · exact hc.numeric operator left right

theorem bindMethod (hc : Congruence clear Rel) (method : FunctionId) (receiver : Value) :
    Rel (Eval.bindMethod method receiver) (Eval.bindMethod method receiver) :=
  hc.closure fun c hknown =>
    hc.bind (hc.newFrame c.scope _) fun _ => hc.newFunction hknown

theorem boundMethod (hc : Congruence clear Rel) (c : ClassId) (name : Token) (receiver : Value) :
    Rel (Eval.boundMethod c name receiver) (Eval.boundMethod c name receiver) := by
  refine hc.bind hc.heap fun h => ?_
  cases h.findMethod? c name.lexeme with
  | none => exact hc.stop _
  | some method => exact hc.bind (hc.bindMethod method receiver) fun f => hc.pure _

theorem getProperty (hc : Congruence clear Rel) (value : Value) (name : Token) :
    Rel (Eval.getProperty value name) (Eval.getProperty value name) := by
  cases value with
  | object object =>
      have hdata : Rel (objectData object) (objectData object) := by
        refine hc.bind hc.heap fun h => ?_
        cases h.objects[object]? with
        | none => exact hc.stop _
        | some data => exact hc.pure data
      refine hc.bind hdata fun data => ?_
      cases data.fields.find? name.lexeme with
      | none => exact hc.boundMethod data.cls name _
      | some field => exact hc.pure field
  | _ => exact hc.stop _

theorem superMethod (hc : Congruence clear Rel) {id : NodeId} (hid : clear id) (method : Token) :
    Rel (Eval.superMethod id method) (Eval.superMethod id method) := by
  refine hc.bind (hc.distance hid) fun found => ?_
  cases found with
  | none => exact hc.stop _
  | some distance =>
      refine hc.bind hc.scope fun frame => hc.bind (hc.getAt frame distance "super") fun parent =>
        hc.bind (hc.getAt frame (distance - 1) "this") fun receiver => ?_
      cases parent with
      | cls c => exact hc.boundMethod c method receiver
      | _ => exact hc.stop _

theorem callNative (hc : Congruence clear Rel) (f : Native) (arguments : List Value) :
    Rel (Eval.callNative f arguments) (Eval.callNative f arguments) := by
  cases f with
  | clock => exact hc.readClock
  | exit =>
      unfold Eval.callNative
      dsimp only
      cases arguments.headD .nil with
      | number x =>
          unfold exitWith
          dsimp only
          cases Decimal.truncate? x with
          | none => exact hc.stop _
          | some code => exact hc.stop _
      | _ => exact hc.stop _

-- ===================================================================== calls

theorem evaluateAll (hc : Congruence clear Rel) (hr : Runner.Alike clear Rel run run')
    {es : List Expr} (hes : Covers clear (Expr.nodesAll es)) :
    Rel (Eval.evaluateAll run room es) (Eval.evaluateAll run' room es) := by
  induction es with
  | nil => exact hc.pure []
  | cons e rest ih =>
      exact hc.bind (hr.evaluate room hes.left) fun first =>
        hc.bind (ih hes.right) fun others => hc.pure _

theorem executeAll (hc : Congruence clear Rel) (hr : Runner.Alike clear Rel run run')
    {body : List Stmt} (hbody : Covers clear (Stmt.nodesAll body)) :
    Rel (Eval.executeAll run room body) (Eval.executeAll run' room body) := by
  induction body with
  | nil => exact hc.pure Completion.normal
  | cons s rest ih =>
      refine hc.bind (hr.execute room hbody.left) fun c => ?_
      cases c with
      | normal => exact ih hbody.right
      | returned v => exact hc.pure _

theorem callFunction (hc : Congruence clear Rel) (hr : Runner.Alike clear Rel run run')
    (f : FunctionId) (arguments : List Value) :
    Rel (Eval.callFunction run room f arguments) (Eval.callFunction run' room f arguments) := by
  cases room with
  | zero => exact hc.stop .overflow
  | succ room =>
      refine hc.closure fun c hknown => ?_
      have hbody : Covers clear (Stmt.nodesAll c.declaration.body) := by
        cases hd : c.declaration with
        | mk id name params body =>
            rw [hd] at hknown
            exact hknown
      refine hc.bind (hc.inNewFrame c.scope _ (hc.executeAll hr hbody)) fun completion => ?_
      cases c.isInitializer with
      | false => exact hc.pure _
      | true => exact hc.getAt c.scope 0 "this"

theorem construct (hc : Congruence clear Rel) (hr : Runner.Alike clear Rel run run')
    (c : ClassId) (arguments : List Value) :
    Rel (Eval.construct run room c arguments) (Eval.construct run' room c arguments) := by
  refine hc.bind (hc.newObject _) fun object => hc.bind hc.heap fun h => ?_
  cases h.findMethod? c initializerName with
  | none => exact hc.pure _
  | some method =>
      exact hc.bind (hc.bindMethod method _) fun f =>
        hc.bind (hc.callFunction hr f arguments) fun _ => hc.pure _

theorem invoke (hc : Congruence clear Rel) (hr : Runner.Alike clear Rel run run')
    (callee : Value) (arguments : List Value) :
    Rel (Eval.invoke run room callee arguments) (Eval.invoke run' room callee arguments) := by
  cases callee with
  | native f => exact hc.callNative f arguments
  | function f => exact hc.callFunction hr f arguments
  | cls c => exact hc.construct hr c arguments
  | _ => exact hc.stop _

-- =================================================================== classes

theorem newMethods (hc : Congruence clear Rel) (frame : FrameId) {methods : List FunDecl}
    (hm : Covers clear (FunDecl.nodesAll methods)) (own : Bindings FunctionId) :
    Rel (Eval.newMethods frame methods own) (Eval.newMethods frame methods own) := by
  induction methods generalizing own with
  | nil => exact hc.pure own
  | cons f rest ih => exact hc.bind (hc.newFunction hm.left) fun id => ih hm.right _

theorem superclassValue (hc : Congruence clear Rel) (hr : Runner.Alike clear Rel run run')
    {parent : NameRef} (hp : Covers clear [.expression parent.asExpr]) :
    Rel (Eval.superclassValue run room parent) (Eval.superclassValue run' room parent) := by
  refine hc.bind (hr.evaluate room hp) fun above => ?_
  cases above with
  | cls c => exact hc.pure c
  | _ => exact hc.stop _

theorem declareClass (hc : Congruence clear Rel) (hr : Runner.Alike clear Rel run run')
    (name : Token) {superclass : Option NameRef} {methods : List FunDecl}
    (hs : Covers clear (NameRef.nodesOptional superclass))
    (hm : Covers clear (FunDecl.nodesAll methods)) :
    Rel (Eval.declareClass run room name superclass methods)
      (Eval.declareClass run' room name superclass methods) := by
  cases superclass with
  | none =>
      exact hc.bind (hc.define name.lexeme .nil) fun _ => hc.bind hc.scope fun frame =>
        hc.bind (hc.newMethods frame hm .empty) fun own => hc.bind (hc.newClass _) fun c =>
          hc.assignNamed frame name _
  | some parent =>
      exact hc.bind (hc.superclassValue hr hs) fun above =>
        hc.bind (hc.define name.lexeme .nil) fun _ => hc.bind hc.scope fun frame =>
          hc.bind (hc.newFrame frame _) fun inner => hc.bind (hc.newMethods inner hm .empty)
            fun own => hc.bind (hc.newClass _) fun c => hc.assignNamed frame name _

-- ===================================================================== nodes

theorem checkCallable (hc : Congruence clear Rel) (paren : Token) (callee : Value) :
    Rel (Eval.checkCallable paren callee) (Eval.checkCallable paren callee) := by
  cases callee with
  | native | function | cls => exact hc.pure ()
  | _ => exact hc.stop _

theorem checkArity (hc : Congruence clear Rel) (paren : Token) (callee : Value) (given : Nat) :
    Rel (Eval.checkArity paren callee given) (Eval.checkArity paren callee given) := by
  refine hc.bind hc.heap fun h => ?_
  cases h.arity? callee with
  | none => exact hc.stop _
  | some expected =>
      dsimp only
      split
      · exact hc.pure ()
      · exact hc.stop _

theorem evaluateNode (hc : Congruence clear Rel) (hr : Runner.Alike clear Rel run run')
    {e : Expr} (he : Covers clear e.nodes) :
    Rel (Eval.evaluateNode run room e) (Eval.evaluateNode run' room e) := by
  have hid : clear e.id := he _ e.mem_nodes
  cases e with
  | literal id value token => exact hc.pure _
  | var id name => exact hc.lookUp hid name
  | assign id name value =>
      exact hc.bind (hr.evaluate room he.tail) fun v => hc.bind (hc.assign hid name v) fun _ =>
        hc.pure v
  | binary id left operator right =>
      exact hc.bind (hr.evaluate room he.tail.left) fun a =>
        hc.bind (hr.evaluate room he.tail.right) fun b => hc.binary operator a b
  | logical id left operator right =>
      refine hc.bind (hr.evaluate room he.tail.left) fun a => ?_
      cases settles operator a with
      | false => exact hr.evaluate room he.tail.right
      | true => exact hc.pure a
  | unary id operator operand =>
      exact hc.bind (hr.evaluate room he.tail) fun a => hc.unary operator a
  | grouping id inner => exact hr.evaluate room he.tail
  | call id callee paren arguments =>
      exact hc.bind (hr.evaluate room he.tail.left) fun f =>
        hc.bind (hc.checkCallable paren f) fun _ =>
          hc.bind (hc.evaluateAll hr he.tail.right) fun given =>
            hc.bind (hc.checkArity paren f given.length) fun _ =>
              hc.anchored paren (hc.invoke hr f given)
  | get id object name =>
      exact hc.bind (hr.evaluate room he.tail) fun o => hc.getProperty o name
  | set id object name value =>
      refine hc.bind (hr.evaluate room he.tail.right) fun o => ?_
      cases o with
      | object o =>
          exact hc.bind (hr.evaluate room he.tail.left) fun v =>
            hc.bind (hc.setField o name.lexeme v) fun _ => hc.pure v
      | _ => exact hc.stop _
  | this id keyword => exact hc.lookUp hid keyword
  | super id keyword method => exact hc.superMethod hid method

theorem performNode (hc : Congruence clear Rel) (hr : Runner.Alike clear Rel run run')
    {s : Stmt} (hs : Covers clear s.nodes) :
    Rel (Eval.performNode run room s) (Eval.performNode run' room s) := by
  cases s with
  | expression id e => exact hc.bind (hr.evaluate room hs.tail) fun _ => hc.pure Completion.normal
  | print id e =>
      exact hc.bind (hr.evaluate room hs.tail) fun v => hc.bind (hc.print v) fun _ =>
        hc.pure Completion.normal
  | varDecl id name initializer =>
      cases initializer with
      | none => exact hc.bind (hc.define name.lexeme .nil) fun _ => hc.pure Completion.normal
      | some e =>
          exact hc.bind (hr.evaluate room hs.tail) fun v =>
            hc.bind (hc.define name.lexeme v) fun _ => hc.pure Completion.normal
  | block id body =>
      exact hc.bind hc.scope fun frame => hc.inNewFrame frame .empty (hc.executeAll hr hs.tail)
  | ifThen id condition thenBranch =>
      refine hc.bind (hr.evaluate room hs.tail.left) fun v => ?_
      cases v.isTruthy with
      | false => exact hc.pure Completion.normal
      | true => exact hr.execute room hs.tail.right
  | ifElse id condition thenBranch elseBranch =>
      refine hc.bind (hr.evaluate room hs.tail.left.left) fun v => ?_
      cases v.isTruthy with
      | false => exact hr.execute room hs.tail.right
      | true => exact hr.execute room hs.tail.left.right
  | whileLoop id condition body => exact hr.loop room hs.tail.left hs.tail.right
  | funDecl f =>
      exact hc.bind hc.scope fun frame => hc.bind (hc.newFunction hs.tail) fun id =>
        hc.bind (hc.define f.name.lexeme _) fun _ => hc.pure Completion.normal
  | returnStmt id keyword value =>
      cases value with
      | none => exact hc.pure _
      | some e => exact hc.bind (hr.evaluate room hs.tail) fun v => hc.pure _
  | classDecl id name superclass methods =>
      exact hc.bind (hc.declareClass hr name hs.tail.left hs.tail.right) fun _ =>
        hc.pure Completion.normal

theorem loopNode (hc : Congruence clear Rel) (hr : Runner.Alike clear Rel run run')
    {condition : Expr} {body : Stmt} (hcondition : Covers clear condition.nodes)
    (hbody : Covers clear body.nodes) :
    Rel (Eval.loopNode run room condition body) (Eval.loopNode run' room condition body) := by
  refine hc.bind (hr.evaluate room hcondition) fun v => ?_
  cases v.isTruthy with
  | false => exact hc.pure Completion.normal
  | true =>
      refine hc.bind (hr.execute room hbody) fun c => ?_
      cases c with
      | normal => exact hr.loop room hcondition hbody
      | returned v => exact hc.pure _

-- ====================================================================== runs

/-- One more step into the tree keeps a comparison. -/
theorem deepen (hc : Congruence clear Rel) (hr : Runner.Alike clear Rel run run') :
    Runner.Alike clear Rel run.deepen run'.deepen where
  evaluate _ _ he := hc.evaluateNode hr he
  execute _ s hs := hc.bind (hc.noteStatement s) fun _ => hc.performNode hr hs
  loop _ _ _ hcondition hbody := hc.loopNode hr hcondition hbody

/-- With no step left all runs stop alike. -/
theorem exhausted (hc : Congruence clear Rel) :
    Runner.Alike clear Rel (Eval.runner 0) (Eval.runner 0) where
  evaluate _ _ _ := hc.stop .exhausted
  execute _ _ _ := hc.stop .exhausted
  loop _ _ _ _ _ := hc.stop .exhausted

theorem interpretWith (hc : Congruence clear Rel) (hr : Runner.Alike clear Rel run run')
    {body : List Stmt} (hbody : Covers clear (Stmt.nodesAll body)) :
    Rel (Eval.interpretWith run room body) (Eval.interpretWith run' room body) := by
  induction body with
  | nil => exact hc.pure ()
  | cons s rest ih => exact hc.bind (hr.execute room hbody.left) fun _ => ih hbody.right

end Congruence

end Lox
