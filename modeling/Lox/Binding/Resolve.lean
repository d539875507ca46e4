/-
Resolution: every reference of a program is linked to the scope that binds its
name, before the program runs. A link says how many scopes out that is, and the
evaluator, which opens a frame for each scope, goes as many frames out.

Expressions declare nothing, so resolving one leaves the scopes alone; a
statement can add names to the innermost scope. What surrounds a place, a
function or a class, is handed down and never changed, so nothing has to be put
back.
-/
import Lox.Binding.Scope

namespace Lox

/-- The kind of function around a place. -/
inductive FunctionKind where
  | none
  | function
  | method
  | initializer
deriving DecidableEq

/-- The kind of class around a place. -/
inductive ClassKind where
  | none
  | plain
  | subclass
deriving DecidableEq

structure Surroundings where
  function : FunctionKind
  inClass : ClassKind

/-- Outside all functions and classes. -/
def Surroundings.topLevel : Surroundings := ⟨.none, .none⟩

/-- A method of the initializer's name is an initializer. -/
def FunDecl.methodKind (f : FunDecl) : FunctionKind :=
  if f.name.lexeme == initializerName then .initializer else .method

-- ============================================================ expressions

/-- A variable is read: not while it is being initialized. -/
def Scopes.readVariable (scopes : Scopes) (id : NodeId) (name : Token) : Survey :=
  (if scopes.isPending name.lexeme then .fault .readInOwnInitializer name else .empty)
    ++ scopes.link id name.lexeme

mutual

def Expr.resolve (around : Surroundings) (scopes : Scopes) : Expr → Survey
  | .literal .. => .empty
  | .var id name => scopes.readVariable id name
  | .assign id name value => value.resolve around scopes ++ scopes.link id name.lexeme
  | .binary _ left _ right => left.resolve around scopes ++ right.resolve around scopes
  | .logical _ left _ right => left.resolve around scopes ++ right.resolve around scopes
  | .unary _ _ operand => operand.resolve around scopes
  | .grouping _ inner => inner.resolve around scopes
  | .call _ callee _ arguments =>
    callee.resolve around scopes ++ Expr.resolveAll around scopes arguments
  | .get _ object _ => object.resolve around scopes
  | .set _ object _ value => value.resolve around scopes ++ object.resolve around scopes
  | .this id keyword =>
    match around.inClass with
    | .none => .fault .thisOutsideClass keyword
    | _ => scopes.link id "this"
  | .super id keyword _ =>
    match around.inClass with
    | .none => .fault .superOutsideClass keyword
    | .plain => .fault .superWithoutSuperclass keyword
    | .subclass => scopes.link id "super"

def Expr.resolveAll (around : Surroundings) (scopes : Scopes) : List Expr → Survey
  | [] => .empty
  | e :: rest => e.resolve around scopes ++ Expr.resolveAll around scopes rest

end

def Expr.resolveOptional (around : Surroundings) (scopes : Scopes) : Option Expr → Survey
  | none => .empty
  | some e => e.resolve around scopes

-- ============================================================= statements

/-- Parameters are ready as soon as they are declared. -/
def Scopes.introduceAll (scopes : Scopes) : List Token → Scopes × Survey
  | [] => (scopes, .empty)
  | name :: rest =>
    let (one, first) := scopes.introduce name
    let (all, others) := one.introduceAll rest
    (all, first ++ others)

/-- What a `return` may not do where it stands. -/
def Surroundings.returnFaults (around : Surroundings) (keyword : Token) (hasValue : Bool) :
    Survey :=
  (if around.function = .none then .fault .returnOutsideFunction keyword else .empty)
    ++ (if hasValue && around.function = .initializer then
          .fault .returnValueFromInitializer keyword else .empty)

/-- A superclass is read like a variable; it must not be the class itself. -/
def Scopes.readSuperclass (scopes : Scopes) (name : Token) (parent : NameRef) : Survey :=
  (if parent.name.lexeme == name.lexeme then .fault .inheritsFromItself parent.name else .empty)
    ++ scopes.readVariable parent.id parent.name

mutual

/-- Resolves a statement: the scopes behind it and what was found. -/
def Stmt.resolve (around : Surroundings) (scopes : Scopes) : Stmt → Scopes × Survey
  | .expression _ e => (scopes, e.resolve around scopes)
  | .print _ e => (scopes, e.resolve around scopes)
  | .varDecl _ name initializer =>
    let (declared, survey) := scopes.declare name
    (declared.define name, survey ++ Expr.resolveOptional around declared initializer)
  | .block _ body => (scopes, (Stmt.resolveAll around (.empty :: scopes) body).2)
  | .ifThen _ condition thenBranch =>
    let (after, survey) := thenBranch.resolve around scopes
    (after, condition.resolve around scopes ++ survey)
  | .ifElse _ condition thenBranch elseBranch =>
    let (between, first) := thenBranch.resolve around scopes
    let (after, second) := elseBranch.resolve around between
    (after, condition.resolve around scopes ++ first ++ second)
  | .whileLoop _ condition body =>
    let (after, survey) := body.resolve around scopes
    (after, condition.resolve around scopes ++ survey)
  | .funDecl f =>
    let (introduced, survey) := scopes.introduce f.name
    (introduced, survey ++ f.resolve ⟨.function, around.inClass⟩ introduced)
  | .returnStmt _ keyword value =>
    (scopes, around.returnFaults keyword value.isSome ++ Expr.resolveOptional around scopes value)
  | .classDecl _ name superclass methods =>
    let (introduced, survey) := scopes.introduce name
    match superclass with
    | none =>
      (introduced,
        survey ++ FunDecl.resolveMethods .plain (.holding "this" :: introduced) methods)
    | some parent =>
      (introduced,
        survey ++ introduced.readSuperclass name parent
          ++ FunDecl.resolveMethods .subclass
              (.holding "this" :: .holding "super" :: introduced) methods)

def Stmt.resolveAll (around : Surroundings) (scopes : Scopes) : List Stmt → Scopes × Survey
  | [] => (scopes, .empty)
  | s :: rest =>
    let (between, first) := s.resolve around scopes
    let (after, others) := Stmt.resolveAll around between rest
    (after, first ++ others)

/-- Parameters and body of a function share one scope. -/
def FunDecl.resolve (around : Surroundings) (scopes : Scopes) : FunDecl → Survey
  | .mk _ _ params body =>
    let (inside, survey) := Scopes.introduceAll (.empty :: scopes) params
    survey ++ (Stmt.resolveAll around inside body).2

def FunDecl.resolveMethods (inClass : ClassKind) (scopes : Scopes) : List FunDecl → Survey
  | [] => .empty
  | f :: rest =>
    f.resolve ⟨f.methodKind, inClass⟩ scopes ++ FunDecl.resolveMethods inClass scopes rest

end

-- =============================================================== programs

/-- Resolves a program of its own: nothing surrounds it. -/
def resolveProgram (body : List Stmt) : Survey := (Stmt.resolveAll .topLevel [] body).2

end Lox
