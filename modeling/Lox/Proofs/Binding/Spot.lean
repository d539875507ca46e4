/-
What is illegal in a program, told by lexical position. A spot of a program is an
occurrence of something the rules of scoping speak about, with the constructs it
lies in, from the inside outwards. Of a block or a function it also matters how
much of it lies before the spot. Whether a spot is illegal depends on nothing
else (`Spot.complaints`): there is no state here that goes through the program,
and no scope in which anything would be ready or not.
-/
import Lox.Proofs.Binding.Node

namespace Lox

/-- A construct that a spot lies in. -/
inductive Enclosing where
  /-- A block, behind some of its statements. -/
  | block (before : List Stmt)
  /-- A declared function, behind some of its parameters and of the statements of its body. -/
  | function (f : FunDecl) (params : List Token) (before : List Stmt)
  /-- A method of a class, in the same way. -/
  | method (f : FunDecl) (params : List Token) (before : List Stmt)
  /-- A class, among its methods. -/
  | classBody (superclass : Option NameRef)
  /-- The declaration of a variable, in its initializer. -/
  | initializer (declared : Token)

/-- The constructs that a spot lies in, the innermost first. -/
abbrev Lexical := List Enclosing

namespace Lexical

/-- Inside of some function or method. -/
def inFunction : Lexical → Bool
  | [] => false
  | .function .. :: _ | .method .. :: _ => true
  | .block _ :: outer | .classBody _ :: outer | .initializer _ :: outer => inFunction outer

/-- The innermost function is a method of the initializer's name. -/
def inInitMethod : Lexical → Bool
  | [] | .function .. :: _ => false
  | .method f _ _ :: _ => f.name.lexeme == initializerName
  | .block _ :: outer | .classBody _ :: outer | .initializer _ :: outer => inInitMethod outer

/-- What the innermost class says about its superclass; nothing outside of all classes. -/
def superclass? : Lexical → Option (Option NameRef)
  | [] => none
  | .classBody superclass :: _ => some superclass
  | .function .. :: outer | .method .. :: outer | .block _ :: outer | .initializer _ :: outer =>
    superclass? outer

/-- The names that were declared earlier in the innermost block or function, the parameters of a
function among those of its body; nothing where names are global. -/
def declared? : Lexical → Option (List Token)
  | [] => none
  | .block before :: _ => some (before.filterMap Stmt.declares)
  | .function _ params before :: _ | .method _ params before :: _ =>
    some (params ++ before.filterMap Stmt.declares)
  | .classBody _ :: outer | .initializer _ :: outer => declared? outer

/-- In the initializer of a local variable of this name. -/
def initializes (inside : Lexical) (name : Token) : Bool :=
  match inside with
  | .initializer declared :: outer => declared.lexeme == name.lexeme && (declared? outer).isSome
  | _ => false

/-- The place behind a statement. -/
def past : Lexical → Stmt → Lexical
  | .block before :: outer, s => .block (before ++ [s]) :: outer
  | .function f params before :: outer, s => .function f params (before ++ [s]) :: outer
  | .method f params before :: outer, s => .method f params (before ++ [s]) :: outer
  | inside, _ => inside

end Lexical

/-- What the rules of scoping speak about. -/
inductive Occurrence where
  | returns (keyword : Token) (value : Option Expr)
  | mentionsThis (keyword : Token)
  | mentionsSuper (keyword : Token)
  | reads (name : Token)
  | inherits (name parent : Token)
  /-- A variable, function, class or parameter of this name. -/
  | declares (name : Token)

structure Spot where
  occurrence : Occurrence
  inside : Lexical

/-- What is to be said against a spot, each time with the token to blame. -/
def Spot.complaints : Spot → List (String × Token)
  | ⟨.returns keyword value, inside⟩ =>
    (if inside.inFunction then [] else [("Can't return from top-level code.", keyword)])
      ++ if value.isSome && inside.inInitMethod then
          [("Can't return a value from an initializer.", keyword)]
        else []
  | ⟨.mentionsThis keyword, inside⟩ =>
    match inside.superclass? with
    | none => [("Can't use 'this' outside of a class.", keyword)]
    | some _ => []
  | ⟨.mentionsSuper keyword, inside⟩ =>
    match inside.superclass? with
    | none => [("Can't use 'super' outside of a class.", keyword)]
    | some none => [("Can't use 'super' in a class with no superclass.", keyword)]
    | some (some _) => []
  | ⟨.reads name, inside⟩ =>
    if inside.initializes name then [("Can't read local variable in its own initializer.", name)]
    else []
  | ⟨.inherits name parent, _⟩ =>
    if parent.lexeme == name.lexeme then [("A class can't inherit from itself.", parent)] else []
  | ⟨.declares name, inside⟩ =>
    match inside.declared? with
    | none => []
    | some earlier =>
      if earlier.any fun other => other.lexeme == name.lexeme then
        [("Already a variable with this name in this scope.", name)]
      else []

-- =================================================================== all spots

mutual

def Expr.spots (inside : Lexical) : Expr → List Spot
  | .literal .. => []
  | .var _ name => [⟨.reads name, inside⟩]
  | .assign _ _ value => value.spots inside
  | .binary _ left _ right => left.spots inside ++ right.spots inside
  | .logical _ left _ right => left.spots inside ++ right.spots inside
  | .unary _ _ operand => operand.spots inside
  | .grouping _ inner => inner.spots inside
  | .call _ callee _ arguments => callee.spots inside ++ Expr.spotsAll inside arguments
  | .get _ object _ => object.spots inside
  | .set _ object _ value => value.spots inside ++ object.spots inside
  | .this _ keyword => [⟨.mentionsThis keyword, inside⟩]
  | .super _ keyword _ => [⟨.mentionsSuper keyword, inside⟩]

def Expr.spotsAll (inside : Lexical) : List Expr → List Spot
  | [] => []
  | e :: rest => e.spots inside ++ Expr.spotsAll inside rest

end

def Expr.spotsOptional (inside : Lexical) : Option Expr → List Spot
  | none => []
  | some e => e.spots inside

/-- The name of a superclass stands where its class does. -/
def NameRef.spotsOptional (inside : Lexical) (name : Token) : Option NameRef → List Spot
  | none => []
  | some parent => [⟨.inherits name parent.name, inside⟩, ⟨.reads parent.name, inside⟩]

/-- The parameters of a function; `own` is the function as a construct around them. -/
def Token.spotsAll (own : List Token → Enclosing) (inside : Lexical) (earlier : List Token) :
    List Token → List Spot
  | [] => []
  | param :: rest =>
    ⟨.declares param, own earlier :: inside⟩ :: Token.spotsAll own inside (earlier ++ [param]) rest

mutual

def Stmt.spots (inside : Lexical) : Stmt → List Spot
  | .expression _ e => e.spots inside
  | .print _ e => e.spots inside
  | .varDecl _ name initializer =>
    ⟨.declares name, inside⟩ :: Expr.spotsOptional (.initializer name :: inside) initializer
  | .block _ body => Stmt.spotsAll (.block [] :: inside) body
  | .ifThen _ condition thenBranch => condition.spots inside ++ thenBranch.spots inside
  | .ifElse _ condition thenBranch elseBranch =>
    condition.spots inside ++ thenBranch.spots inside ++ elseBranch.spots inside
  | .whileLoop _ condition body => condition.spots inside ++ body.spots inside
  | .funDecl f => ⟨.declares f.name, inside⟩ :: f.spots (Enclosing.function f) inside
  | .returnStmt _ keyword value =>
    ⟨.returns keyword value, inside⟩ :: Expr.spotsOptional inside value
  | .classDecl _ name superclass methods =>
    ⟨.declares name, inside⟩ :: NameRef.spotsOptional inside name superclass
      ++ FunDecl.spotsAll (.classBody superclass :: inside) methods

/-- The spots of statements, each behind those before it. -/
def Stmt.spotsAll (inside : Lexical) : List Stmt → List Spot
  | [] => []
  | s :: rest => s.spots inside ++ Stmt.spotsAll (inside.past s) rest

/-- The spots of parameters and body. -/
def FunDecl.spots (own : List Token → List Stmt → Enclosing) (inside : Lexical) :
    FunDecl → List Spot
  | .mk _ _ params body =>
    Token.spotsAll (fun earlier => own earlier []) inside [] params
      ++ Stmt.spotsAll (own params [] :: inside) body

def FunDecl.spotsAll (inside : Lexical) : List FunDecl → List Spot
  | [] => []
  | f :: rest => f.spots (Enclosing.method f) inside ++ FunDecl.spotsAll inside rest

end

/-- The spots of a program. -/
def programSpots (body : List Stmt) : List Spot := Stmt.spotsAll [] body

end Lox
