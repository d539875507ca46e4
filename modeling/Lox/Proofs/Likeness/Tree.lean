/-
Trees that are alike: of one shape, with nodes, tokens and functions that
correspond. How far two trees may differ is left open (`Likeness`); all that is
fixed is that corresponding tokens are spelt alike. The token of a constant is a
matter of its own, for nothing that runs looks at it, and it can be missing.

Heaps are alike when they differ in the declarations of their functions only, and
these are alike. Such heaps answer all questions of the evaluator alike.
-/
import Mathlib.Data.List.Forall2
import Lox.Proofs.Binding.Node
import Lox.Session

namespace Lox

/-- How far two trees may differ. Whatever `functions` asks of two functions comes on top of what is
asked of their parts; its flag says whether they are initializers. -/
structure Likeness where
  nodes : NodeId → NodeId → Prop
  tokens : Token → Token → Prop
  constants : Option Token → Option Token → Prop
  functions : Bool → FunDecl → FunDecl → Prop
  spelt {token token' : Token} (same : tokens token token') : token'.lexeme = token.lexeme

-- ==================================================================== trees

inductive Expr.Alike (ρ : Likeness) : Expr → Expr → Prop
  | literal {id id' : NodeId} {value : Constant} {token token' : Option Token}
      (hnode : ρ.nodes id id') (htoken : ρ.constants token token') :
      Alike ρ (.literal id value token) (.literal id' value token')
  | var {id id' : NodeId} {name name' : Token} (hnode : ρ.nodes id id')
      (hname : ρ.tokens name name') : Alike ρ (.var id name) (.var id' name')
  | assign {id id' : NodeId} {name name' : Token} {value value' : Expr} (hnode : ρ.nodes id id')
      (hname : ρ.tokens name name') (hvalue : Alike ρ value value') :
      Alike ρ (.assign id name value) (.assign id' name' value')
  | binary {id id' : NodeId} {left left' right right' : Expr} {operator operator' : Token}
      (hnode : ρ.nodes id id') (hleft : Alike ρ left left') (hoperator : ρ.tokens operator operator')
      (hright : Alike ρ right right') :
      Alike ρ (.binary id left operator right) (.binary id' left' operator' right')
  | logical {id id' : NodeId} {left left' right right' : Expr} {operator operator' : Token}
      (hnode : ρ.nodes id id') (hleft : Alike ρ left left') (hoperator : ρ.tokens operator operator')
      (hright : Alike ρ right right') :
      Alike ρ (.logical id left operator right) (.logical id' left' operator' right')
  | unary {id id' : NodeId} {operator operator' : Token} {operand operand' : Expr}
      (hnode : ρ.nodes id id') (hoperator : ρ.tokens operator operator')
      (hoperand : Alike ρ operand operand') :
      Alike ρ (.unary id operator operand) (.unary id' operator' operand')
  | grouping {id id' : NodeId} {inner inner' : Expr} (hnode : ρ.nodes id id')
      (hinner : Alike ρ inner inner') : Alike ρ (.grouping id inner) (.grouping id' inner')
  | call {id id' : NodeId} {callee callee' : Expr} {paren paren' : Token}
      {arguments arguments' : List Expr} (hnode : ρ.nodes id id') (hcallee : Alike ρ callee callee')
      (hparen : ρ.tokens paren paren')
      (harguments : List.Forall₂ (Alike ρ) arguments arguments') :
      Alike ρ (.call id callee paren arguments) (.call id' callee' paren' arguments')
  | get {id id' : NodeId} {object object' : Expr} {name name' : Token} (hnode : ρ.nodes id id')
      (hobject : Alike ρ object object') (hname : ρ.tokens name name') :
      Alike ρ (.get id object name) (.get id' object' name')
  | set {id id' : NodeId} {object object' value value' : Expr} {name name' : Token}
      (hnode : ρ.nodes id id') (hobject : Alike ρ object object') (hname : ρ.tokens name name')
      (hvalue : Alike ρ value value') :
      Alike ρ (.set id object name value) (.set id' object' name' value')
  | this {id id' : NodeId} {keyword keyword' : Token} (hnode : ρ.nodes id id')
      (hkeyword : ρ.tokens keyword keyword') : Alike ρ (.this id keyword) (.this id' keyword')
  | super {id id' : NodeId} {keyword keyword' method method' : Token} (hnode : ρ.nodes id id')
      (hkeyword : ρ.tokens keyword keyword') (hmethod : ρ.tokens method method') :
      Alike ρ (.super id keyword method) (.super id' keyword' method')

structure NameRef.Alike (ρ : Likeness) (parent parent' : NameRef) : Prop where
  node : ρ.nodes parent.id parent'.id
  name : ρ.tokens parent.name parent'.name

/-- What is asked of the methods of a class on top of being alike. -/
def Likeness.Methods (ρ : Likeness) (methods methods' : List FunDecl) : Prop :=
  List.Forall₂ (fun f f' => ρ.functions (f.name.lexeme == initializerName) f f') methods methods'

mutual

inductive Stmt.Alike (ρ : Likeness) : Stmt → Stmt → Prop
  | expression {id id' : NodeId} {e e' : Expr} (hnode : ρ.nodes id id') (hinner : e.Alike ρ e') :
      Stmt.Alike ρ (.expression id e) (.expression id' e')
  | print {id id' : NodeId} {e e' : Expr} (hnode : ρ.nodes id id') (hinner : e.Alike ρ e') :
      Stmt.Alike ρ (.print id e) (.print id' e')
  | varDecl {id id' : NodeId} {name name' : Token} {initializer initializer' : Option Expr}
      (hnode : ρ.nodes id id') (hname : ρ.tokens name name')
      (hinitializer : Option.Rel (Expr.Alike ρ) initializer initializer') :
      Stmt.Alike ρ (.varDecl id name initializer) (.varDecl id' name' initializer')
  | block {id id' : NodeId} {body body' : List Stmt} (hnode : ρ.nodes id id')
      (hbody : List.Forall₂ (Stmt.Alike ρ) body body') :
      Stmt.Alike ρ (.block id body) (.block id' body')
  | ifThen {id id' : NodeId} {condition condition' : Expr} {thenBranch thenBranch' : Stmt}
      (hnode : ρ.nodes id id') (hcondition : condition.Alike ρ condition')
      (hthenBranch : Stmt.Alike ρ thenBranch thenBranch') :
      Stmt.Alike ρ (.ifThen id condition thenBranch) (.ifThen id' condition' thenBranch')
  | ifElse {id id' : NodeId} {condition condition' : Expr}
      {thenBranch thenBranch' elseBranch elseBranch' : Stmt} (hnode : ρ.nodes id id')
      (hcondition : condition.Alike ρ condition') (hthenBranch : Stmt.Alike ρ thenBranch thenBranch')
      (helseBranch : Stmt.Alike ρ elseBranch elseBranch') :
      Stmt.Alike ρ (.ifElse id condition thenBranch elseBranch)
        (.ifElse id' condition' thenBranch' elseBranch')
  | whileLoop {id id' : NodeId} {condition condition' : Expr} {body body' : Stmt}
      (hnode : ρ.nodes id id') (hcondition : condition.Alike ρ condition')
      (hbody : Stmt.Alike ρ body body') :
      Stmt.Alike ρ (.whileLoop id condition body) (.whileLoop id' condition' body')
  | funDecl {f f' : FunDecl} (hnode : ρ.nodes f.id f'.id) (hfunction : FunDecl.Alike ρ f f')
      (hheld : ρ.functions false f f') : Stmt.Alike ρ (.funDecl f) (.funDecl f')
  | returnStmt {id id' : NodeId} {keyword keyword' : Token} {value value' : Option Expr}
      (hnode : ρ.nodes id id') (hkeyword : ρ.tokens keyword keyword')
      (hvalue : Option.Rel (Expr.Alike ρ) value value') :
      Stmt.Alike ρ (.returnStmt id keyword value) (.returnStmt id' keyword' value')
  | classDecl {id id' : NodeId} {name name' : Token} {superclass superclass' : Option NameRef}
      {methods methods' : List FunDecl} (hnode : ρ.nodes id id') (hname : ρ.tokens name name')
      (hsuperclass : Option.Rel (NameRef.Alike ρ) superclass superclass')
      (hmethods : List.Forall₂ (FunDecl.Alike ρ) methods methods')
      (hheld : ρ.Methods methods methods') :
      Stmt.Alike ρ (.classDecl id name superclass methods) (.classDecl id' name' superclass' methods')

/-- The number of a function counts where the function is a statement; that of a method is never
asked for. -/
inductive FunDecl.Alike (ρ : Likeness) : FunDecl → FunDecl → Prop
  | mk {id id' : NodeId} {name name' : Token} {params params' : List Token}
      {body body' : List Stmt} (hname : ρ.tokens name name')
      (hparams : List.Forall₂ ρ.tokens params params')
      (hbody : List.Forall₂ (Stmt.Alike ρ) body body') :
      FunDecl.Alike ρ (.mk id name params body) (.mk id' name' params' body')

end

variable {ρ : Likeness}

namespace FunDecl.Alike

variable {f f' : FunDecl}

theorem name (h : f.Alike ρ f') : ρ.tokens f.name f'.name := by
  cases h with
  | mk hname _ _ => exact hname

theorem params (h : f.Alike ρ f') : List.Forall₂ ρ.tokens f.params f'.params := by
  cases h with
  | mk _ hparams _ => exact hparams

theorem body (h : f.Alike ρ f') : List.Forall₂ (Stmt.Alike ρ) f.body f'.body := by
  cases h with
  | mk _ _ hbody => exact hbody

theorem arity_eq (h : f.Alike ρ f') : f'.arity = f.arity := h.params.length_eq.symm

end FunDecl.Alike

theorem NameRef.Alike.asExpr {parent parent' : NameRef} (h : parent.Alike ρ parent') :
    parent.asExpr.Alike ρ parent'.asExpr := .var h.node h.name

theorem Stmt.Alike.kindName_eq {s s' : Stmt} (h : s.Alike ρ s') : s'.kindName = s.kindName := by
  cases h <;> rfl

/-- Parameters that are spelt alike are bound alike. -/
theorem bindParameters_eq {params params' : List Token} (h : List.Forall₂ ρ.tokens params params')
    (arguments : List Value) (b : Bindings Value) :
    Eval.bindParameters params' arguments b = Eval.bindParameters params arguments b := by
  induction h generalizing arguments b with
  | nil => rfl
  | cons first _ ih =>
      cases arguments with
      | nil => rfl
      | cons argument rest =>
          unfold Eval.bindParameters
          rw [ρ.spelt first, ih]

-- ==================================================================== stops

/-- The faults that native functions find. -/
def RuntimeCause.native : RuntimeCause → Bool
  | .exitCodeNotNumber | .exitCodeNotFinite => true
  | _ => false

/-- Two runs stop alike: with one cause at corresponding tokens. What native functions find is left
out, for it comes without a token. -/
inductive Stop.Alike (ρ : Likeness) : Stop → Stop → Prop
  | fault {token token' : Token} {cause : RuntimeCause} (own : cause.native = false)
      (place : ρ.tokens token token') :
      Alike ρ (.fault ⟨some token, cause⟩) (.fault ⟨some token', cause⟩)
  | exit (code : Int) : Alike ρ (.exit code) (.exit code)
  | overflow : Alike ρ .overflow .overflow
  | broken (link : BrokenLink) : Alike ρ (.broken link) (.broken link)
  | missing {id id' : NodeId} (node : ρ.nodes id id') :
      Alike ρ (.broken (.missingDistance id)) (.broken (.missingDistance id'))
  | exhausted : Alike ρ .exhausted .exhausted

-- ==================================================================== heaps

/-- Functions that are alike, in the same frame. -/
structure Closure.Alike (ρ : Likeness) (c c' : Closure) : Prop where
  declaration : c.declaration.Alike ρ c'.declaration
  scope : c'.scope = c.scope
  isInitializer : c'.isInitializer = c.isInitializer
  held : ρ.functions c.isInitializer c.declaration c'.declaration

structure Heap.Alike (ρ : Likeness) (h h' : Heap) : Prop where
  scopes : h'.scopes = h.scopes
  classes : h'.classes = h.classes
  objects : h'.objects = h.objects
  functions (f : FunctionId) :
    Option.Rel (Closure.Alike ρ) h.functions[f]? h'.functions[f]?

namespace Heap.Alike

variable {h h' : Heap}

theorem size_eq (ha : h.Alike ρ h') : h'.functions.size = h.functions.size := by
  have hnone : ∀ f : Nat, h.functions[f]? = none ↔ h'.functions[f]? = none := by
    intro f
    have hf := ha.functions f
    revert hf
    cases h.functions[f]? <;> cases h'.functions[f]? <;> intro hf <;> cases hf <;> simp
  simp only [Array.getElem?_eq_none_iff] at hnone
  exact Nat.le_antisymm ((hnone _).1 (Nat.le_refl _)) ((hnone _).2 (Nat.le_refl _))

theorem ownMethod?_eq (ha : h.Alike ρ h') (c : ClassId) (name : String) :
    h'.ownMethod? c name = h.ownMethod? c name := by
  unfold Heap.ownMethod?
  rw [ha.classes]

theorem lineage_eq (ha : h.Alike ρ h') (c : ClassId) : h'.lineage c = h.lineage c := by
  have hwithin : ∀ fuel c, h'.lineageWithin fuel c = h.lineageWithin fuel c := by
    intro fuel
    induction fuel with
    | zero => exact fun _ => rfl
    | succ fuel ih =>
        intro c
        unfold Heap.lineageWithin
        rw [ha.classes]
        simp only [ih]
  unfold Heap.lineage
  rw [hwithin, ha.classes]

/-- The heaps find the same methods. -/
theorem findMethod?_eq (ha : h.Alike ρ h') (c : ClassId) (name : String) :
    h'.findMethod? c name = h.findMethod? c name := by
  unfold Heap.findMethod?
  rw [ha.lineage_eq]
  simp only [ha.ownMethod?_eq]

theorem arity?_eq (ha : h.Alike ρ h') (value : Value) : h'.arity? value = h.arity? value := by
  have hfunction : ∀ f : FunctionId,
      (h'.functions[f]?.map fun c => c.declaration.arity)
        = h.functions[f]?.map fun c => c.declaration.arity := by
    intro f
    have hf := ha.functions f
    revert hf
    cases h.functions[f]? <;> cases h'.functions[f]? <;> intro hf <;> cases hf
    · rfl
    · rename_i hc
      exact congrArg some hc.declaration.arity_eq
  cases value with
  | function f => exact hfunction f
  | cls c =>
      unfold Heap.arity?
      dsimp only
      rw [ha.findMethod?_eq]
      cases h.findMethod? c initializerName with
      | none => rfl
      | some f =>
          have helim : ∀ found : Option Closure,
              (found.elim 0 fun c => c.declaration.arity)
                = (found.map fun c => c.declaration.arity).getD 0 := by
            intro found
            cases found <;> rfl
          rw [Option.bind_some, Option.bind_some, helim, helim, hfunction f]
  | _ => rfl

/-- The heaps show a value alike. -/
theorem text_eq (ha : h.Alike ρ h') (value : Value) : h'.text value = h.text value := by
  have hclass : ∀ c, h'.className c = h.className c := by
    intro c
    unfold Heap.className
    rw [ha.classes]
  cases value with
  | function f =>
      have hname : h'.functionName f = h.functionName f := by
        unfold Heap.functionName
        have hf := ha.functions f
        revert hf
        cases h.functions[f]? <;> cases h'.functions[f]? <;> intro hf <;> cases hf
        · rfl
        · rename_i hc
          exact ρ.spelt hc.declaration.name
      show "<fn " ++ h'.functionName f ++ ">" = _
      rw [hname]
      rfl
  | cls c => exact hclass c
  | object o =>
      unfold Heap.text
      simp only [ha.objects, hclass]
  | _ => rfl

/-- One more function on both sides. -/
theorem addFunction (ha : h.Alike ρ h') {c c' : Closure} (hc : c.Alike ρ c') :
    (h.addFunction c).Alike ρ (h'.addFunction c') where
  scopes := ha.scopes
  classes := ha.classes
  objects := ha.objects
  functions f := by
    show Option.Rel _ (h.functions.push c)[f]? (h'.functions.push c')[f]?
    rw [Array.getElem?_push, Array.getElem?_push, ha.size_eq]
    split
    · exact .some hc
    · exact ha.functions f

-- What is the same on both sides is changed alike.

theorem define (ha : h.Alike ρ h') (frame : FrameId) (name : String) (value : Value) :
    (h.define frame name value).Alike ρ (h'.define frame name value) :=
  { ha with scopes := congrArg (Forest.define · frame name value) ha.scopes }

theorem addFrame (ha : h.Alike ρ h') (outer : FrameId) (bindings : Bindings Value) :
    (h.addFrame outer bindings).Alike ρ (h'.addFrame outer bindings) :=
  { ha with scopes := congrArg (Forest.grow · (some outer) bindings) ha.scopes }

theorem addClass (ha : h.Alike ρ h') (c : ClassData) : (h.addClass c).Alike ρ (h'.addClass c) :=
  { ha with classes := congrArg (Array.push · c) ha.classes }

theorem addObject (ha : h.Alike ρ h') (o : ObjectData) :
    (h.addObject o).Alike ρ (h'.addObject o) :=
  { ha with objects := congrArg (Array.push · o) ha.objects }

theorem setField (ha : h.Alike ρ h') (object : ObjectId) (name : String) (value : Value) :
    (h.setField object name value).Alike ρ (h'.setField object name value) := by
  refine { ha with objects := ?_ }
  unfold Heap.setField
  rw [ha.objects]

end Heap.Alike

end Lox
