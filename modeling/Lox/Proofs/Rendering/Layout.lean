/-
How far two readings may differ that differ in the layout of their texts only:
in the numbers of the nodes and in the places of the tokens (`Likeness.layout`).
A constant has its token in both or in neither.

Less is asked where a tree was written down in between, for a condition that was
left out is written then (`Likeness.outline`). That likeness is to have one outline.
-/
import Lox.Proofs.Rendering.Outline

namespace Lox

theorem Token.lexeme_of_outline {a b : Token} (h : a.outline = b.outline) : a.lexeme = b.lexeme := by
  have hlexeme := congrArg Token.lexeme h
  exact hlexeme

namespace Likeness

/-- To be of one outline. -/
def outline : Likeness where
  nodes _ _ := True
  tokens token token' := token'.outline = token.outline
  constants token token' := (token'.getD .always).outline = (token.getD .always).outline
  functions _ _ _ := True
  spelt same := Token.lexeme_of_outline same

/-- To be read from texts that are laid out differently. -/
def layout : Likeness where
  nodes _ _ := True
  tokens token token' := token'.outline = token.outline
  constants := Option.Rel fun token token' => token'.outline = token.outline
  functions _ _ _ := True
  spelt same := Token.lexeme_of_outline same

/-- Nothing but kind and spelling of a token counts. -/
structure Lax (ρ : Likeness) : Prop where
  nodes (id id' : NodeId) : ρ.nodes id id'
  tokens {token token' : Token} (same : token'.outline = token.outline) : ρ.tokens token token'
  missing : ρ.constants none none
  functions (isInitializer : Bool) (f f' : FunDecl) : ρ.functions isInitializer f f'

theorem lax_outline : outline.Lax := ⟨fun _ _ => trivial, id, rfl, fun _ _ _ => trivial⟩

theorem lax_layout : layout.Lax := ⟨fun _ _ => trivial, id, .none, fun _ _ _ => trivial⟩

theorem Lax.methods {ρ : Likeness} (hρ : ρ.Lax) {methods methods' : List FunDecl}
    (h : List.Forall₂ (FunDecl.Alike ρ) methods methods') : ρ.Methods methods methods' :=
  h.imp fun f f' _ => hρ.functions _ f f'

end Likeness

theorem Expr.outline_literal (id : NodeId) (value : Constant) (token : Option Token) :
    (Expr.literal id value token).outline = .literal 0 value (some (token.getD .always).outline) := by
  cases token <;> rfl

mutual

/-- Expressions of one outline are alike. -/
theorem Expr.alike_of_outline : (e : Expr) → {e' : Expr} → e'.outline = e.outline →
    e.Alike .outline e'
  | .literal _ _ token, e', h => by
    rw [Expr.outline_literal] at h
    cases e' <;> simp only [Expr.outline_literal, Expr.outline, reduceCtorEq, Expr.literal.injEq,
      Option.some.injEq] at h
    obtain ⟨-, rfl, htoken⟩ := h
    exact .literal trivial htoken
  | .var .., e', h => by
    cases e' <;> simp only [Expr.outline_literal, Expr.outline, reduceCtorEq, Expr.var.injEq] at h
    exact .var trivial h.2
  | .assign _ _ value, e', h => by
    cases e' <;>
      simp only [Expr.outline_literal, Expr.outline, reduceCtorEq, Expr.assign.injEq] at h
    exact .assign trivial h.2.1 (value.alike_of_outline h.2.2)
  | .binary _ left _ right, e', h => by
    cases e' <;>
      simp only [Expr.outline_literal, Expr.outline, reduceCtorEq, Expr.binary.injEq] at h
    obtain ⟨-, hl, ho, hr⟩ := h
    exact .binary trivial (left.alike_of_outline hl) ho (right.alike_of_outline hr)
  | .logical _ left _ right, e', h => by
    cases e' <;>
      simp only [Expr.outline_literal, Expr.outline, reduceCtorEq, Expr.logical.injEq] at h
    obtain ⟨-, hl, ho, hr⟩ := h
    exact .logical trivial (left.alike_of_outline hl) ho (right.alike_of_outline hr)
  | .unary _ _ operand, e', h => by
    cases e' <;>
      simp only [Expr.outline_literal, Expr.outline, reduceCtorEq, Expr.unary.injEq] at h
    exact .unary trivial h.2.1 (operand.alike_of_outline h.2.2)
  | .grouping _ inner, e', h => by
    cases e' <;>
      simp only [Expr.outline_literal, Expr.outline, reduceCtorEq, Expr.grouping.injEq] at h
    exact .grouping trivial (inner.alike_of_outline h.2)
  | .call _ callee _ arguments, e', h => by
    cases e' <;>
      simp only [Expr.outline_literal, Expr.outline, reduceCtorEq, Expr.call.injEq] at h
    obtain ⟨-, hcallee, hparen, hall⟩ := h
    exact .call trivial (callee.alike_of_outline hcallee) hparen
      (Expr.alike_of_outlineAll arguments hall)
  | .get _ object _, e', h => by
    cases e' <;> simp only [Expr.outline_literal, Expr.outline, reduceCtorEq, Expr.get.injEq] at h
    exact .get trivial (object.alike_of_outline h.2.1) h.2.2
  | .set _ object _ value, e', h => by
    cases e' <;> simp only [Expr.outline_literal, Expr.outline, reduceCtorEq, Expr.set.injEq] at h
    obtain ⟨-, ho, hname, hv⟩ := h
    exact .set trivial (object.alike_of_outline ho) hname (value.alike_of_outline hv)
  | .this .., e', h => by
    cases e' <;> simp only [Expr.outline_literal, Expr.outline, reduceCtorEq, Expr.this.injEq] at h
    exact .this trivial h.2
  | .super .., e', h => by
    cases e' <;> simp only [Expr.outline_literal, Expr.outline, reduceCtorEq, Expr.super.injEq] at h
    exact .super trivial h.2.1 h.2.2

theorem Expr.alike_of_outlineAll : (es : List Expr) → {es' : List Expr} →
    Expr.outlineAll es' = Expr.outlineAll es → List.Forall₂ (Expr.Alike .outline) es es'
  | [], [], _ => .nil
  | e :: es, _ :: _, h =>
    .cons (e.alike_of_outline (List.cons.inj h).1) (Expr.alike_of_outlineAll es (List.cons.inj h).2)

end

mutual

/-- Where no token of a constant is missing, to be of one outline is to differ in layout only. -/
theorem Expr.alike_layout : (e : Expr) → {e' : Expr} → e.Alike .outline e' → e.Alike .written e →
    e'.Alike .written e' → e.Alike .layout e'
  | .literal _ _ token, _, .literal _ htoken, .literal _ hsome, .literal _ hsome' => by
    obtain ⟨found, rfl⟩ := Option.isSome_iff_exists.mp hsome
    obtain ⟨found', rfl⟩ := Option.isSome_iff_exists.mp hsome'
    exact .literal trivial (.some htoken)
  | .var .., _, .var hnode hname, _, _ => .var hnode hname
  | .assign _ _ value, _, .assign hnode hname hv, .assign _ _ hw, .assign _ _ hw' =>
    .assign hnode hname (value.alike_layout hv hw hw')
  | .binary _ left _ right, _, .binary hnode hl ho hr, .binary _ hlw _ hrw, .binary _ hlw' _ hrw' =>
    .binary hnode (left.alike_layout hl hlw hlw') ho (right.alike_layout hr hrw hrw')
  | .logical _ left _ right, _, .logical hnode hl ho hr, .logical _ hlw _ hrw,
      .logical _ hlw' _ hrw' =>
    .logical hnode (left.alike_layout hl hlw hlw') ho (right.alike_layout hr hrw hrw')
  | .unary _ _ operand, _, .unary hnode ho h, .unary _ _ hw, .unary _ _ hw' =>
    .unary hnode ho (operand.alike_layout h hw hw')
  | .grouping _ inner, _, .grouping hnode h, .grouping _ hw, .grouping _ hw' =>
    .grouping hnode (inner.alike_layout h hw hw')
  | .call _ callee _ arguments, _, .call hnode hc hparen hall, .call _ hcw _ haw,
      .call _ hcw' _ haw' =>
    .call hnode (callee.alike_layout hc hcw hcw') hparen
      (Expr.alike_layout_all arguments hall haw haw')
  | .get _ object _, _, .get hnode ho hname, .get _ hw _, .get _ hw' _ =>
    .get hnode (object.alike_layout ho hw hw') hname
  | .set _ object _ value, _, .set hnode ho hname hv, .set _ how _ hvw, .set _ how' _ hvw' =>
    .set hnode (object.alike_layout ho how how') hname (value.alike_layout hv hvw hvw')
  | .this .., _, .this hnode hkeyword, _, _ => .this hnode hkeyword
  | .super .., _, .super hnode hkeyword hmethod, _, _ => .super hnode hkeyword hmethod

theorem Expr.alike_layout_all : (es : List Expr) → {es' : List Expr} →
    List.Forall₂ (Expr.Alike .outline) es es' → List.Forall₂ (Expr.Alike .written) es es →
    List.Forall₂ (Expr.Alike .written) es' es' → List.Forall₂ (Expr.Alike .layout) es es'
  | [], _, .nil, _, _ => .nil
  | e :: es, _, .cons h hall, .cons hw haw, .cons hw' haw' =>
    .cons (e.alike_layout h hw hw') (Expr.alike_layout_all es hall haw haw')

end

mutual

theorem Expr.outline_eq_of_alike : (e : Expr) → {e' : Expr} → e.Alike .outline e' →
    e'.outline = e.outline
  | .literal .., _, .literal _ htoken => by
    rw [Expr.outline_literal, Expr.outline_literal, htoken]
  | .var .., _, .var _ hname => by rw [Expr.outline, hname, Expr.outline]
  | .assign _ _ value, _, .assign _ hname hv => by
    rw [Expr.outline, hname, value.outline_eq_of_alike hv, Expr.outline]
  | .binary _ left _ right, _, .binary _ hl ho hr => by
    rw [Expr.outline, left.outline_eq_of_alike hl, ho, right.outline_eq_of_alike hr, Expr.outline]
  | .logical _ left _ right, _, .logical _ hl ho hr => by
    rw [Expr.outline, left.outline_eq_of_alike hl, ho, right.outline_eq_of_alike hr, Expr.outline]
  | .unary _ _ operand, _, .unary _ ho h => by
    rw [Expr.outline, ho, operand.outline_eq_of_alike h, Expr.outline]
  | .grouping _ inner, _, .grouping _ h => by
    rw [Expr.outline, inner.outline_eq_of_alike h, Expr.outline]
  | .call _ callee _ arguments, _, .call _ hc hparen hall => by
    rw [Expr.outline, callee.outline_eq_of_alike hc, hparen, Expr.outlineAll_eq_of_alike _ hall,
      Expr.outline]
  | .get _ object _, _, .get _ ho hname => by
    rw [Expr.outline, object.outline_eq_of_alike ho, hname, Expr.outline]
  | .set _ object _ value, _, .set _ ho hname hv => by
    rw [Expr.outline, object.outline_eq_of_alike ho, hname, value.outline_eq_of_alike hv,
      Expr.outline]
  | .this .., _, .this _ hkeyword => by rw [Expr.outline, hkeyword, Expr.outline]
  | .super .., _, .super _ hkeyword hmethod => by
    rw [Expr.outline, hkeyword, hmethod, Expr.outline]

theorem Expr.outlineAll_eq_of_alike : (es : List Expr) → {es' : List Expr} →
    List.Forall₂ (Expr.Alike .outline) es es' → Expr.outlineAll es' = Expr.outlineAll es
  | [], _, .nil => rfl
  | e :: es, _, .cons h hall => by
    rw [Expr.outlineAll, e.outline_eq_of_alike h, Expr.outlineAll_eq_of_alike es hall,
      Expr.outlineAll]

end

theorem Expr.outlineOptional_eq_of_alike {value value' : Option Expr}
    (h : Option.Rel (Expr.Alike .outline) value value') :
    value'.map Expr.outline = value.map Expr.outline := by
  cases h with
  | none => rfl
  | some he => exact congrArg some (Expr.outline_eq_of_alike _ he)

theorem NameRef.outline_eq_of_alike {parent parent' : Option NameRef}
    (h : Option.Rel (NameRef.Alike .outline) parent parent') :
    parent'.map NameRef.outline = parent.map NameRef.outline := by
  cases h with
  | none => rfl
  | some hp => exact congrArg (fun name => some (NameRef.mk 0 name)) hp.name

mutual

/-- Statements that are alike in outline have one outline. -/
theorem Stmt.outline_eq_of_alike : (a : Stmt) → {a' : Stmt} → a.Alike .outline a' →
    a'.outline = a.outline
  | .expression .., _, .expression _ h => by
    rw [Stmt.outline, Expr.outline_eq_of_alike _ h, Stmt.outline]
  | .print .., _, .print _ h => by
    rw [Stmt.outline, Expr.outline_eq_of_alike _ h, Stmt.outline]
  | .varDecl .., _, .varDecl _ hname h => by
    rw [Stmt.outline, hname, Expr.outlineOptional_eq_of_alike h, Stmt.outline]
  | .block _ body, _, .block _ h => by
    rw [Stmt.outline, Stmt.outlineAll_eq_of_alike body h, Stmt.outline]
  | .ifThen _ _ thenBranch, _, .ifThen _ hc h => by
    rw [Stmt.outline, Expr.outline_eq_of_alike _ hc, thenBranch.outline_eq_of_alike h, Stmt.outline]
  | .ifElse _ _ thenBranch elseBranch, _, .ifElse _ hc h h' => by
    rw [Stmt.outline, Expr.outline_eq_of_alike _ hc, thenBranch.outline_eq_of_alike h,
      elseBranch.outline_eq_of_alike h', Stmt.outline]
  | .whileLoop _ _ body, _, .whileLoop _ hc h => by
    rw [Stmt.outline, Expr.outline_eq_of_alike _ hc, body.outline_eq_of_alike h, Stmt.outline]
  | .funDecl f, _, .funDecl _ h _ => by
    rw [Stmt.outline, f.outline_eq_of_alike h, Stmt.outline]
  | .returnStmt .., _, .returnStmt _ hkeyword h => by
    rw [Stmt.outline, hkeyword, Expr.outlineOptional_eq_of_alike h, Stmt.outline]
  | .classDecl _ _ _ methods, _, .classDecl _ hname hparent hmethods _ => by
    rw [Stmt.outline, hname, NameRef.outline_eq_of_alike hparent,
      FunDecl.outlineAll_eq_of_alike methods hmethods, Stmt.outline]

theorem Stmt.outlineAll_eq_of_alike : (body : List Stmt) → {body' : List Stmt} →
    List.Forall₂ (Stmt.Alike .outline) body body' → Stmt.outlineAll body' = Stmt.outlineAll body
  | [], _, .nil => rfl
  | a :: rest, _, .cons h hall => by
    rw [Stmt.outlineAll, a.outline_eq_of_alike h, Stmt.outlineAll_eq_of_alike rest hall,
      Stmt.outlineAll]

theorem FunDecl.outline_eq_of_alike : (f : FunDecl) → {f' : FunDecl} → f.Alike .outline f' →
    f'.outline = f.outline
  | .mk _ _ _ body, _, .mk hname hparams h => by
    rw [FunDecl.outline, hname, map_outline_eq hparams, Stmt.outlineAll_eq_of_alike body h,
      FunDecl.outline]

theorem FunDecl.outlineAll_eq_of_alike : (fs : List FunDecl) → {fs' : List FunDecl} →
    List.Forall₂ (FunDecl.Alike .outline) fs fs' → FunDecl.outlineAll fs' = FunDecl.outlineAll fs
  | [], _, .nil => rfl
  | f :: rest, _, .cons h hall => by
    rw [FunDecl.outlineAll, f.outline_eq_of_alike h, FunDecl.outlineAll_eq_of_alike rest hall,
      FunDecl.outlineAll]

end

end Lox
