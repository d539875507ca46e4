/-
Evaluation: running a tree on a machine. One function says how a node runs when
its parts can be run (`evaluateNode`, `executeNode`, `loopNode`); it asks a
`Runner` for the parts, and the evaluator is its own runner with one step less.

A run is bounded twice. `fuel` goes down on every step into the tree, so the
functions are total, and a run that ends does so with any larger fuel alike;
`room` is the number of calls that may still nest, and running out of it is how
endless recursion ends.

Every frame that evaluation makes current comes from a scope that resolution
opened at the same place of the program: a block, the parameters and body of a
function, the frames of `this` and `super` around a method.
-/
import Lox.Eval.Operator
import Lox.Eval.Object

namespace Lox

/-- How a statement ended that did not stop the program. -/
inductive Completion where
  /-- The next statement is due. -/
  | normal
  /-- A `return` was met; the value goes to the call. -/
  | returned (value : Value)

/-- What a call yields whose body ended in this way. -/
def Completion.value : Completion → Value
  | .normal => .nil
  | .returned value => value

/-- The trace calls a statement by its kind. -/
def Stmt.kindName : Stmt → String
  | .expression .. => "Expression"
  | .print .. => "Print"
  | .varDecl .. => "Var"
  | .block .. => "Block"
  | .ifThen .. | .ifElse .. => "If"
  | .whileLoop .. => "While"
  | .funDecl .. => "Function"
  | .returnStmt .. => "Return"
  | .classDecl .. => "Class"

/-- How the parts of a node are run, given the room for calls. -/
structure Runner where
  evaluate : Nat → Expr → Eval Value
  execute : Nat → Stmt → Eval Completion
  /-- Runs a body as long as a condition holds and nothing returns. -/
  loop : Nat → Expr → Stmt → Eval Completion

namespace Eval

/-- Names the statement that is about to run, in the trace. -/
def noteStatement (s : Stmt) : Eval Unit := fun m =>
  if m.tracing then .ok () (m.note ("Executing: " ++ s.kindName)) else .ok () m

-- ================================================================== parts

/-- The values of some expressions, from left to right. -/
def evaluateAll (run : Runner) (room : Nat) : List Expr → Eval (List Value)
  | [] => pure []
  | e :: rest => do
    let first ← run.evaluate room e
    let others ← evaluateAll run room rest
    pure (first :: others)

/-- Runs statements in order, up to the first that returns. -/
def executeAll (run : Runner) (room : Nat) : List Stmt → Eval Completion
  | [] => pure .normal
  | s :: rest => do
    match ← run.execute room s with
    | .normal => executeAll run room rest
    | .returned v => pure (.returned v)

-- ================================================================ classes

/-- The methods of a class as functions; of two methods of one name the later one counts. -/
def newMethods (scope : FrameId) :
    List FunDecl → Bindings FunctionId → Eval (Bindings FunctionId)
  | [], methods => pure methods
  | f :: rest, methods => do
    let id ← newFunction ⟨f, scope, f.name.lexeme == initializerName⟩
    newMethods scope rest (methods.set f.name.lexeme id)

/-- The superclass that a class names, which must be a class. It is read like a variable. -/
def superclassValue (run : Runner) (room : Nat) (parent : NameRef) : Eval ClassId := do
  match ← run.evaluate room parent.asExpr with
  | .cls c => pure c
  | _ => fault parent.name .superclassNotClass

/-- Makes a class. The name is bound before the methods are made, so they can mention it, and holds
the class when it is complete. The methods of a subclass lie in a frame that binds `super`. -/
def declareClass (run : Runner) (room : Nat) (name : Token) (superclass : Option NameRef)
    (methods : List FunDecl) : Eval Unit := do
  match superclass with
  | none =>
    define name.lexeme .nil
    let frame ← scope
    let own ← newMethods frame methods .empty
    let c ← newClass ⟨name.lexeme, none, own⟩
    assignNamed frame name (.cls c)
  | some parent =>
    let above ← superclassValue run room parent
    define name.lexeme .nil
    let frame ← scope
    let inner ← newFrame frame (Bindings.empty.set "super" (.cls above))
    let own ← newMethods inner methods .empty
    let c ← newClass ⟨name.lexeme, some above, own⟩
    assignNamed frame name (.cls c)

-- ================================================================== calls

/-- Parameters with the arguments of a call. -/
def bindParameters : List Token → List Value → Bindings Value → Bindings Value
  | param :: params, argument :: arguments, b =>
    bindParameters params arguments (b.set param.lexeme argument)
  | _, _, b => b

/-- The callee must be something that can be called. -/
def checkCallable {σ : Type} (paren : Token) (callee : Value) : Halting σ Unit :=
  match callee with
  | .native _ | .function _ | .cls _ => pure ()
  | _ => fault paren .notCallable

/-- The callee must be called with as many arguments as it takes. -/
def checkArity (paren : Token) (callee : Value) (given : Nat) : Eval Unit := do
  match (← heap).arity? callee with
  | none => fault paren .notCallable
  | some expected =>
    if given = expected then pure () else fault paren (.wrongArity expected given)

/-- The value of a call of a function, which runs in a new frame inside its own scope. An initializer
always yields its object. -/
def callFunction (run : Runner) (room : Nat) (f : FunctionId) (arguments : List Value) :
    Eval Value :=
  match room with
  | 0 => stop .overflow
  | room + 1 => do
    let c ← closure f
    let completion ← inNewFrame c.scope (bindParameters c.declaration.params arguments .empty)
      (executeAll run room c.declaration.body)
    if c.isInitializer then getAt c.scope 0 "this" else pure completion.value

/-- The value of a call of a class: a new object, on which the initializer was run. -/
def construct (run : Runner) (room : Nat) (c : ClassId) (arguments : List Value) :
    Eval Value := do
  let object ← newObject ⟨c, .empty⟩
  match (← heap).findMethod? c initializerName with
  | none => pure (.object object)
  | some method => do
    let initializer ← bindMethod method (.object object)
    let _ ← callFunction run room initializer arguments
    pure (.object object)

/-- The value of a call. -/
def invoke (run : Runner) (room : Nat) (callee : Value) (arguments : List Value) : Eval Value :=
  match callee with
  | .native f => callNative f arguments
  | .function f => callFunction run room f arguments
  | .cls c => construct run room c arguments
  | _ => broken .dangling

/-- Sets a field of a value that is an object. -/
def setProperty (object : ObjectId) (name : Token) (value : Value) : Eval Unit :=
  updateHeap fun h => h.setField object name.lexeme value

-- ================================================================== nodes

/-- The value of an expression. -/
def evaluateNode (run : Runner) (room : Nat) : Expr → Eval Value
  | .literal _ value _ => pure (.ofConstant value)
  | .var id name => lookUp id name
  | .assign id name value => do
    let v ← run.evaluate room value
    assign id name v
    pure v
  | .binary _ left operator right => do
    let a ← run.evaluate room left
    let b ← run.evaluate room right
    binary operator a b
  | .logical _ left operator right => do
    let a ← run.evaluate room left
    if settles operator a then pure a else run.evaluate room right
  | .unary _ operator operand => do
    let a ← run.evaluate room operand
    unary operator a
  | .grouping _ inner => run.evaluate room inner
  | .call _ callee paren arguments => do
    let f ← run.evaluate room callee
    checkCallable paren f
    let given ← evaluateAll run room arguments
    checkArity paren f given.length
    anchored paren (invoke run room f given)
  | .get _ object name => do
    let o ← run.evaluate room object
    getProperty o name
  | .set _ object name value => do
    match ← run.evaluate room object with
    | .object o => do
      let v ← run.evaluate room value
      setProperty o name v
      pure v
    | _ => fault name .writeOfNonObject
  | .this id keyword => lookUp id keyword
  | .super id _ method => superMethod id method

/-- What a statement does when its turn has come. -/
def performNode (run : Runner) (room : Nat) : Stmt → Eval Completion
  | .expression _ e => do
    let _ ← run.evaluate room e
    pure .normal
  | .print _ e => do
    let v ← run.evaluate room e
    print v
    pure .normal
  | .varDecl _ name none => do
    define name.lexeme .nil
    pure .normal
  | .varDecl _ name (some e) => do
    let v ← run.evaluate room e
    define name.lexeme v
    pure .normal
  | .block _ body => do
    inNewFrame (← scope) .empty (executeAll run room body)
  | .ifThen _ condition thenBranch => do
    let v ← run.evaluate room condition
    if v.isTruthy then run.execute room thenBranch else pure .normal
  | .ifElse _ condition thenBranch elseBranch => do
    let v ← run.evaluate room condition
    if v.isTruthy then run.execute room thenBranch else run.execute room elseBranch
  | .whileLoop _ condition body => run.loop room condition body
  | .funDecl f => do
    let id ← newFunction ⟨f, ← scope, false⟩
    define f.name.lexeme (.function id)
    pure .normal
  | .returnStmt _ _ none => pure (.returned .nil)
  | .returnStmt _ _ (some e) => do
    let v ← run.evaluate room e
    pure (.returned v)
  | .classDecl _ name superclass methods => do
    declareClass run room name superclass methods
    pure .normal

/-- Runs a statement. -/
def executeNode (run : Runner) (room : Nat) (s : Stmt) : Eval Completion := do
  noteStatement s
  performNode run room s

/-- One round of a loop, and the rest of it when the body has ended normally. -/
def loopNode (run : Runner) (room : Nat) (condition : Expr) (body : Stmt) : Eval Completion := do
  let v ← run.evaluate room condition
  if v.isTruthy then
    match ← run.execute room body with
    | .normal => run.loop room condition body
    | .returned v => pure (.returned v)
  else pure .normal

-- ============================================================== the knot

mutual

/-- The value of an expression. -/
def evaluate (fuel room : Nat) (e : Expr) : Eval Value :=
  match fuel with
  | 0 => stop .exhausted
  | fuel + 1 => evaluateNode ⟨evaluate fuel, execute fuel, repeatWhile fuel⟩ room e

/-- Runs a statement. -/
def execute (fuel room : Nat) (s : Stmt) : Eval Completion :=
  match fuel with
  | 0 => stop .exhausted
  | fuel + 1 => executeNode ⟨evaluate fuel, execute fuel, repeatWhile fuel⟩ room s

/-- Runs a body as long as a condition holds and nothing returns. -/
def repeatWhile (fuel room : Nat) (condition : Expr) (body : Stmt) : Eval Completion :=
  match fuel with
  | 0 => stop .exhausted
  | fuel + 1 => loopNode ⟨evaluate fuel, execute fuel, repeatWhile fuel⟩ room condition body

end

/-- The evaluator with a bound on its steps. -/
def runner (fuel : Nat) : Runner := ⟨evaluate fuel, execute fuel, repeatWhile fuel⟩

/-- Runs the statements of a program. At top level there is no call to return from, so a statement
that returns is followed by the next one all the same. -/
def interpretWith (run : Runner) (room : Nat) : List Stmt → Eval Unit
  | [] => pure ()
  | s :: rest => do
    let _ ← run.execute room s
    interpretWith run room rest

/-- Runs the statements of a program in a bounded number of steps. -/
def interpret (fuel room : Nat) (body : List Stmt) : Eval Unit :=
  interpretWith (runner fuel) room body

end Eval

end Lox
