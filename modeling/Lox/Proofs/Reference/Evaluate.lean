/-
Evaluation without frames. What is in sight is handed down to expressions and
from statement to statement; a statement yields how it ended and what is in
sight behind it. Only declarations add to the sight, a block gives back the
sight it began with, and a function sees what its closure saw together with its
parameters.

The functions follow the tree and are bounded as the evaluator on a machine is
(`Eval/Evaluate.lean`): one function says how a node runs when its parts can be
run, and asks a runner for them.
-/
import Lox.Proofs.Reference.State

namespace Lox.Reference

open Eval (stop fault broken anchored unary binary settles checkCallable)

/-- How the parts of a node are run, given what is in sight and the room for calls. -/
structure Runner where
  evaluate : Names → Nat → Expr → Run Value
  execute : Sight → Nat → Stmt → Run (Completion × Sight)
  /-- Runs a body as long as a condition holds and nothing returns. -/
  loop : Sight → Nat → Expr → Stmt → Run Completion

-- ================================================================== parts

/-- The values of some expressions, from left to right. -/
def evaluateAll (run : Runner) (names : Names) (room : Nat) : List Expr → Run (List Value)
  | [] => pure []
  | e :: rest => do
    let first ← run.evaluate names room e
    let others ← evaluateAll run names room rest
    pure (first :: others)

/-- Runs statements in order, each in sight of the declarations before it, up to the first that
returns. -/
def executeAll (run : Runner) (sight : Sight) (room : Nat) : List Stmt → Run Completion
  | [] => pure .normal
  | s :: rest => do
    let (completion, behind) ← run.execute sight room s
    match completion with
    | .normal => executeAll run behind room rest
    | .returned v => pure (.returned v)

-- ================================================================ classes

/-- The methods of a class as functions; of two methods of one name the later one counts. -/
def newMethods (names : Names) :
    List FunDecl → Bindings FunctionId → Run (Bindings FunctionId)
  | [], methods => pure methods
  | f :: rest, methods => do
    let id ← newFunction ⟨f, names, f.name.lexeme == initializerName⟩
    newMethods names rest (methods.set f.name.lexeme id)

/-- The superclass that a class names, which must be a class. -/
def superclassValue (run : Runner) (names : Names) (room : Nat) (parent : NameRef) :
    Run ClassId := do
  match ← run.evaluate names room parent.asExpr with
  | .cls c => pure c
  | _ => fault parent.name .superclassNotClass

/-- Makes a class. Its methods see the name of the class, and those of a subclass also `super`. -/
def declareClass (run : Runner) (sight : Sight) (room : Nat) (name : Token)
    (superclass : Option NameRef) (methods : List FunDecl) : Run Sight := do
  match superclass with
  | none =>
    let (home, behind) ← declare sight name.lexeme
    settle home name.lexeme .nil
    let own ← newMethods behind.names methods .empty
    let c ← newClass ⟨name.lexeme, none, own⟩
    settle home name.lexeme (.cls c)
    pure behind
  | some parent =>
    let above ← superclassValue run sight.names room parent
    let (home, behind) ← declare sight name.lexeme
    settle home name.lexeme .nil
    let location ← allocate (.cls above)
    let own ← newMethods (behind.names.set "super" location) methods .empty
    let c ← newClass ⟨name.lexeme, some above, own⟩
    settle home name.lexeme (.cls c)
    pure behind

-- ================================================================== calls

/-- Parameters in fresh locations that hold the arguments of a call. -/
def bindParameters : List Token → List Value → Names → Run Names
  | param :: params, argument :: arguments, names => do
    let location ← allocate argument
    bindParameters params arguments (names.set param.lexeme location)
  | _, _, names => pure names

/-- The callee must be called with as many arguments as it takes. -/
def checkArity (paren : Token) (callee : Value) (given : Nat) : Run Unit := do
  match (← heap).arity? callee with
  | none => fault paren .notCallable
  | some expected =>
    if given = expected then pure () else fault paren (.wrongArity expected given)

/-- Runs the body of a function in sight of its parameters. -/
def runBody (run : Runner) (room : Nat) (c : Closure) (arguments : List Value) :
    Run Completion := do
  let names ← bindParameters c.declaration.params arguments c.names
  executeAll run ⟨true, names⟩ room c.declaration.body

/-- The value of a call of a function. An initializer always yields its object. -/
def callFunction (run : Runner) (room : Nat) (f : FunctionId) (arguments : List Value) :
    Run Value :=
  match room with
  | 0 => stop .overflow
  | room + 1 => do
    let c ← closure f
    let completion ← runBody run room c arguments
    if c.isInitializer then remember c.names "this" else pure completion.value

/-- The value of a call of a class: a new object, on which the initializer was run. -/
def construct (run : Runner) (room : Nat) (c : ClassId) (arguments : List Value) :
    Run Value := do
  let object ← newObject ⟨c, .empty⟩
  match (← heap).findMethod? c initializerName with
  | none => pure (.object object)
  | some method => do
    let initializer ← bindMethod method (.object object)
    let _ ← callFunction run room initializer arguments
    pure (.object object)

/-- The value of a call. -/
def invoke (run : Runner) (room : Nat) (callee : Value) (arguments : List Value) : Run Value :=
  match callee with
  | .native f => callNative f arguments
  | .function f => callFunction run room f arguments
  | .cls c => construct run room c arguments
  | _ => broken .dangling

-- ================================================================== nodes

/-- The value of an expression. -/
def evaluateNode (run : Runner) (names : Names) (room : Nat) : Expr → Run Value
  | .literal _ value _ => pure (.ofConstant value)
  | .var _ name => lookUp names name
  | .assign _ name value => do
    let v ← run.evaluate names room value
    assign names name v
    pure v
  | .binary _ left operator right => do
    let a ← run.evaluate names room left
    let b ← run.evaluate names room right
    binary operator a b
  | .logical _ left operator right => do
    let a ← run.evaluate names room left
    if settles operator a then pure a else run.evaluate names room right
  | .unary _ operator operand => do
    let a ← run.evaluate names room operand
    unary operator a
  | .grouping _ inner => run.evaluate names room inner
  | .call _ callee paren arguments => do
    let f ← run.evaluate names room callee
    checkCallable paren f
    let given ← evaluateAll run names room arguments
    checkArity paren f given.length
    anchored paren (invoke run room f given)
  | .get _ object name => do
    let o ← run.evaluate names room object
    getProperty o name
  | .set _ object name value => do
    match ← run.evaluate names room object with
    | .object o => do
      let v ← run.evaluate names room value
      setProperty o name v
      pure v
    | _ => fault name .writeOfNonObject
  | .this _ _ => remember names "this"
  | .super _ _ method => superMethod names method

/-- Runs a statement: how it ended, and what is in sight behind it. -/
def executeNode (run : Runner) (sight : Sight) (room : Nat) : Stmt → Run (Completion × Sight)
  | .expression _ e => do
    let _ ← run.evaluate sight.names room e
    pure (.normal, sight)
  | .print _ e => do
    let v ← run.evaluate sight.names room e
    print v
    pure (.normal, sight)
  | .varDecl _ name none => do
    let (home, behind) ← declare sight name.lexeme
    settle home name.lexeme .nil
    pure (.normal, behind)
  | .varDecl _ name (some e) => do
    let (home, behind) ← declare sight name.lexeme
    let v ← run.evaluate behind.names room e
    settle home name.lexeme v
    pure (.normal, behind)
  | .block _ body => do
    let completion ← executeAll run sight.inside room body
    pure (completion, sight)
  | .ifThen _ condition thenBranch => do
    let v ← run.evaluate sight.names room condition
    if v.isTruthy then do
      let (completion, _) ← run.execute sight room thenBranch
      pure (completion, sight)
    else pure (.normal, sight)
  | .ifElse _ condition thenBranch elseBranch => do
    let v ← run.evaluate sight.names room condition
    let (completion, _) ←
      if v.isTruthy then run.execute sight room thenBranch
      else run.execute sight room elseBranch
    pure (completion, sight)
  | .whileLoop _ condition body => do
    let completion ← run.loop sight room condition body
    pure (completion, sight)
  | .funDecl f => do
    let (home, behind) ← declare sight f.name.lexeme
    let id ← newFunction ⟨f, behind.names, false⟩
    settle home f.name.lexeme (.function id)
    pure (.normal, behind)
  | .returnStmt _ _ none => pure (.returned .nil, sight)
  | .returnStmt _ _ (some e) => do
    let v ← run.evaluate sight.names room e
    pure (.returned v, sight)
  | .classDecl _ name superclass methods => do
    let behind ← declareClass run sight room name superclass methods
    pure (.normal, behind)

/-- One round of a loop, and the rest of it when the body has ended normally. -/
def loopNode (run : Runner) (sight : Sight) (room : Nat) (condition : Expr) (body : Stmt) :
    Run Completion := do
  let v ← run.evaluate sight.names room condition
  if v.isTruthy then
    match (← run.execute sight room body).1 with
    | .normal => run.loop sight room condition body
    | .returned v => pure (.returned v)
  else pure .normal

-- ============================================================== the knot

/-- The evaluator with a bound on its steps. -/
def runner : Nat → Runner
  | 0 => ⟨fun _ _ _ => stop .exhausted, fun _ _ _ => stop .exhausted,
      fun _ _ _ _ => stop .exhausted⟩
  | fuel + 1 =>
    let run := runner fuel
    ⟨evaluateNode run, executeNode run, loopNode run⟩

/-- Runs the statements of a program, each in sight of the declarations before it. -/
def interpretWith (run : Runner) (sight : Sight) (room : Nat) : List Stmt → Run Unit
  | [] => pure ()
  | s :: rest => do
    let (_, behind) ← run.execute sight room s
    interpretWith run behind room rest

/-- Runs a program in a bounded number of steps. -/
def interpret (fuel room : Nat) (body : List Stmt) : Run Unit :=
  interpretWith (runner fuel) .topLevel room body

end Lox.Reference
