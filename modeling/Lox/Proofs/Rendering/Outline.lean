/-
The outline of a tree: what is left of it when it is forgotten where its words
stood and which numbers its nodes got. Two readings of one tree, from texts
that are laid out differently, have one outline.

A loop may leave its condition out, and then the tree has a constant without a
token. Written down that constant is the word `true`, so its outline is that of
a constant that was written.
-/
import Lox.Proofs.Reading.Statement

namespace Lox

def Token.outline (token : Token) : Token := { token with place := .nowhere }

/-- The token of a condition that was left out. -/
def Token.always : Token := ⟨.keyword, "true", .nowhere⟩

mutual

def Expr.outline : Expr → Expr
  | .literal _ value none => .literal 0 value (some .always)
  | .literal _ value (some token) => .literal 0 value (some token.outline)
  | .var _ name => .var 0 name.outline
  | .assign _ name value => .assign 0 name.outline value.outline
  | .binary _ left operator right => .binary 0 left.outline operator.outline right.outline
  | .logical _ left operator right => .logical 0 left.outline operator.outline right.outline
  | .unary _ operator operand => .unary 0 operator.outline operand.outline
  | .grouping _ inner => .grouping 0 inner.outline
  | .call _ callee paren arguments =>
    .call 0 callee.outline paren.outline (Expr.outlineAll arguments)
  | .get _ object name => .get 0 object.outline name.outline
  | .set _ object name value => .set 0 object.outline name.outline value.outline
  | .this _ keyword => .this 0 keyword.outline
  | .super _ keyword method => .super 0 keyword.outline method.outline

def Expr.outlineAll : List Expr → List Expr
  | [] => []
  | e :: rest => e.outline :: Expr.outlineAll rest

end

def NameRef.outline (parent : NameRef) : NameRef := ⟨0, parent.name.outline⟩

mutual

def Stmt.outline : Stmt → Stmt
  | .expression _ e => .expression 0 e.outline
  | .print _ e => .print 0 e.outline
  | .varDecl _ name initializer => .varDecl 0 name.outline (initializer.map Expr.outline)
  | .block _ body => .block 0 (Stmt.outlineAll body)
  | .ifThen _ condition thenBranch => .ifThen 0 condition.outline thenBranch.outline
  | .ifElse _ condition thenBranch elseBranch =>
    .ifElse 0 condition.outline thenBranch.outline elseBranch.outline
  | .whileLoop _ condition body => .whileLoop 0 condition.outline body.outline
  | .funDecl f => .funDecl f.outline
  | .returnStmt _ keyword value => .returnStmt 0 keyword.outline (value.map Expr.outline)
  | .classDecl _ name superclass methods =>
    .classDecl 0 name.outline (superclass.map NameRef.outline) (FunDecl.outlineAll methods)

def Stmt.outlineAll : List Stmt → List Stmt
  | [] => []
  | s :: rest => s.outline :: Stmt.outlineAll rest

def FunDecl.outline : FunDecl → FunDecl
  | .mk _ name params body => .mk 0 name.outline (params.map Token.outline) (Stmt.outlineAll body)

def FunDecl.outlineAll : List FunDecl → List FunDecl
  | [] => []
  | f :: rest => f.outline :: FunDecl.outlineAll rest

end

-- ================================================================= tokens

/-- Kind and spelling are all there is to a token. -/
theorem Token.Is.outline_eq {kind : TokenKind} {spelling : String} {a b : Token}
    (ha : a.Is kind spelling) (hb : b.Is kind spelling) : a.outline = b.outline := by
  rw [Token.outline, Token.outline, ha.1, ha.2, hb.1, hb.2]

-- ================================================================ targets

theorem Expr.eq_var_of_outline {e : Expr} {name : Token} (h : e.outline = .var 0 name) :
    ∃ id name', e = .var id name' ∧ name'.outline = name := by
  cases e with
  | var id name' => exact ⟨id, name', rfl, (Expr.var.inj h).2⟩
  | literal id value token => cases token <;> cases h
  | _ => cases h

theorem Expr.eq_get_of_outline {e object : Expr} {name : Token}
    (h : e.outline = .get 0 object name) :
    ∃ id object' name', e = .get id object' name' ∧ object'.outline = object
      ∧ name'.outline = name := by
  cases e with
  | get id object' name' => exact ⟨id, object', name', rfl, (Expr.get.inj h).2⟩
  | literal id value token => cases token <;> cases h
  | _ => cases h

-- ================================================================== lists

theorem Expr.outlineAll_eq (es : List Expr) : Expr.outlineAll es = es.map Expr.outline := by
  induction es with
  | nil => rfl
  | cons e rest ih => rw [Expr.outlineAll, ih, List.map_cons]

theorem Stmt.outlineAll_eq (body : List Stmt) : Stmt.outlineAll body = body.map Stmt.outline := by
  induction body with
  | nil => rfl
  | cons s rest ih => rw [Stmt.outlineAll, ih, List.map_cons]

theorem FunDecl.outlineAll_eq (fs : List FunDecl) :
    FunDecl.outlineAll fs = fs.map FunDecl.outline := by
  induction fs with
  | nil => rfl
  | cons f rest ih => rw [FunDecl.outlineAll, ih, List.map_cons]

/-- Things of one outline each are of one outline together. -/
theorem map_outline_eq {α β : Type} {outline : α → β} {xs ys : List α}
    (h : List.Forall₂ (fun x y => outline y = outline x) xs ys) :
    ys.map outline = xs.map outline := by
  induction h with
  | nil => rfl
  | cons hx _ ih => rw [List.map_cons, List.map_cons, hx, ih]

end Lox
