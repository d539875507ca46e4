/-
Trees that are shown alike. The word of a piece and the number of its parts say what
kind of node it shows (`Form`); only minus signs need the number. So two trees with
one piece have nodes of one kind, and by induction they are alike in all that is
shown of them (`Likeness.shown`).
-/
import Lox.Proofs.View.Shown
import Lox.Proofs.Rendering.Layout

namespace Lox

/-- To be alike but for the numbers of nodes, the places of tokens and the tokens of constants. -/
def Likeness.shown : Likeness where
  nodes _ _ := True
  tokens token token' := token'.outline = token.outline
  constants _ _ := True
  functions _ _ _ := True
  spelt same := Token.lexeme_of_outline same

theorem Likeness.lax_shown : shown.Lax := ⟨fun _ _ => trivial, id, trivial, fun _ _ _ => trivial⟩

-- ==================================================================== forms

/-- The kinds of nodes. -/
inductive Form where
  | literal | var | assign | binary | logical | unary | grouping | call | get | set | this | super
  | expression | print | varDecl | block | ifThen | ifElse | whileLoop | funDecl | returnStmt
  | classDecl
deriving DecidableEq

namespace Form

/-- What a word without brackets shows. -/
def ofAtom (spelling : String) : Form :=
  if spelling = "this" then .this
  else if spelling ∈ Text.reservedWords ∨ BeginsWithDigit spelling ∨ '"' ∈ spelling.toList then .literal
  else .var

/-- What a word with so many parts shows. -/
def ofWord (word : String) (parts : Nat) : Form :=
  if parts = 2 ∧ word ∈ binaryOperators then .binary
  else if word ∈ unaryOperators then .unary
  else
    match word with
    | "and" | "or" => .logical
    | "assign" => .assign
    | "group" => .grouping
    | "call" => .call
    | "get" => .get
    | "set" => .set
    | "super" => .super
    | ";" => .expression
    | "print" => .print
    | "var" => .varDecl
    | "block" => .block
    | "if" => .ifThen
    | "if-else" => .ifElse
    | "while" => .whileLoop
    | "return" => .returnStmt
    | "class" => .classDecl
    | _ => .funDecl

end Form

/-- What a piece shows. -/
def Piece.form : Piece → Form
  | .atom spelling => .ofAtom (String.ofList spelling)
  | .signature .. => .funDecl
  | .node word parts => .ofWord (String.ofList word) parts.length

def Expr.form : Expr → Form
  | .literal .. => .literal
  | .var .. => .var
  | .assign .. => .assign
  | .binary .. => .binary
  | .logical .. => .logical
  | .unary .. => .unary
  | .grouping .. => .grouping
  | .call .. => .call
  | .get .. => .get
  | .set .. => .set
  | .this .. => .this
  | .super .. => .super

def Stmt.form : Stmt → Form
  | .expression .. => .expression
  | .print .. => .print
  | .varDecl .. => .varDecl
  | .block .. => .block
  | .ifThen .. => .ifThen
  | .ifElse .. => .ifElse
  | .whileLoop .. => .whileLoop
  | .funDecl .. => .funDecl
  | .returnStmt .. => .returnStmt
  | .classDecl .. => .classDecl

theorem Piece.form_atom (spelling : String) :
    (Piece.atom spelling.toList).form = .ofAtom spelling := by
  show Form.ofAtom (String.ofList spelling.toList) = _
  rw [String.ofList_toList]

theorem Piece.form_under (word : String) (parts : List Piece) :
    (Piece.under word parts).form = .ofWord word parts.length := by
  show Form.ofWord (String.ofList word.toList) parts.length = _
  rw [String.ofList_toList]

theorem Form.ofWord_of_ne {word : String} {parts : Nat} (h : word ∉ binaryOperators)
    (h' : word ∉ unaryOperators) : Form.ofWord word parts = Form.ofWord word 0 := by
  unfold Form.ofWord
  simp only [h, h', and_false, if_false]

variable {numbers numbers' : Float → Prop}

theorem Token.IsName.form {t : Token} (h : t.IsName) : Form.ofAtom t.lexeme = .var := by
  obtain ⟨hne, hlength, hfree⟩ := h.2
  have hthis : t.lexeme ≠ "this" := by
    intro he
    exact hfree (he ▸ by decide)
  have hdigit : ¬ BeginsWithDigit t.lexeme := by
    unfold BeginsWithDigit
    cases hname : t.lexeme.toList with
    | nil => exact absurd hname hne
    | cons c rest =>
        rw [hname] at hlength
        unfold Text.nameLength at hlength
        dsimp only at hlength
        split at hlength
        · rename_i hfirst
          simp [isDigit_of_isNameStart hfirst]
        · cases hlength
  have hquote : '"' ∉ t.lexeme.toList := fun hmem => by cases h.plain.2 _ hmem
  unfold Form.ofAtom
  rw [if_neg hthis, if_neg (not_or.mpr ⟨hfree, not_or.mpr ⟨hdigit, hquote⟩⟩)]

theorem Constant.Legible.form {value : Constant} (h : value.Legible numbers) :
    Form.ofAtom value.view = .literal := by
  cases value with
  | nil => decide
  | boolean b => cases b <;> decide
  | number x =>
      have hthis : Decimal.Style.plain.write x ≠ "this" := by
        intro he
        have hbegins := h.1
        rw [he] at hbegins
        exact absurd hbegins (by decide)
      exact (if_neg hthis).trans (if_pos (.inr (.inl h.1)))
  | string s =>
      have hquote : '"' ∈ (Constant.string s).view.toList := by simp [Constant.view]
      have hthis : (Constant.string s).view ≠ "this" := by
        intro he
        rw [he] at hquote
        exact absurd hquote (by decide)
      exact (if_neg hthis).trans (if_pos (.inr (.inr hquote)))

/-- The piece of an expression shows what kind of expression it is. -/
theorem Expr.form_piece (e : Expr) (h : AllLegible numbers e.nodes) : e.piece.form = e.form := by
  have hnode := h _ e.mem_nodes
  cases e with
  | literal id value token =>
      rw [Expr.piece, Piece.form_atom]
      exact Constant.Legible.form hnode
  | var id name =>
      rw [Expr.piece, Token.piece, Piece.form_atom]
      exact Token.IsName.form hnode
  | this id keyword =>
      rw [Expr.piece, Piece.form_atom]
      rfl
  | binary id left operator right =>
      have hword : ∀ s ∈ binaryOperators, Form.ofWord s 2 = .binary := by decide
      rw [Expr.piece, Piece.form_under]
      exact hword _ hnode.2
  | unary id operator operand =>
      have hword : ∀ s ∈ unaryOperators, Form.ofWord s 1 = .unary := by decide
      rw [Expr.piece, Piece.form_under]
      exact hword _ hnode.2
  | logical id left operator right =>
      rw [Expr.piece, Piece.form_under]
      rcases hnode with hword | hword <;> rw [hword.2] <;> rfl
  | call id callee paren arguments =>
      rw [Expr.piece, Piece.form_under, Form.ofWord_of_ne (by decide) (by decide)]
      rfl
  | _ =>
      rw [Expr.piece, Piece.form_under]
      rfl

theorem FunDecl.form_piece (f : FunDecl) : f.piece.form = .funDecl := by
  obtain ⟨id, name, params, body⟩ := f
  rw [FunDecl.piece, Piece.form_under, Form.ofWord_of_ne (by decide) (by decide)]
  rfl

/-- The piece of a statement shows what kind of statement it is. -/
theorem Stmt.form_piece (s : Stmt) : s.piece.form = s.form := by
  cases s with
  | funDecl f => exact f.form_piece
  | _ =>
      rw [Stmt.piece, Piece.form_under, Form.ofWord_of_ne (by decide) (by decide)]
      rfl

-- ================================================================== likeness

@[simp] theorem Piece.under_inj {word word' : String} {parts parts' : List Piece} :
    Piece.under word parts = Piece.under word' parts' ↔ word = word' ∧ parts = parts' := by
  unfold Piece.under
  rw [Piece.node.injEq, String.toList_inj]

@[simp] theorem Token.piece_inj {t t' : Token} : t.piece = t'.piece ↔ t.lexeme = t'.lexeme := by
  unfold Token.piece
  rw [Piece.atom.injEq, String.toList_inj]

theorem Token.outline_eq {t t' : Token} (hkind : t.kind = t'.kind) (hlexeme : t.lexeme = t'.lexeme) :
    t'.outline = t.outline := by
  unfold Token.outline
  rw [hkind, hlexeme]

theorem Token.IsName.alike {t t' : Token} (h : t.IsName) (h' : t'.IsName)
    (heq : t.lexeme = t'.lexeme) : t'.outline = t.outline :=
  Token.outline_eq (h.1.trans h'.1.symm) heq

theorem Token.Is.alike {kind : TokenKind} {spelling : String} {t t' : Token}
    (h : t.Is kind spelling) (h' : t'.Is kind spelling) : t'.outline = t.outline :=
  Token.outline_eq (h.1.trans h'.1.symm) (h.2.trans h'.2.symm)

/-- Numbers on two sides look the same only if they are. -/
def NumbersApart (numbers numbers' : Float → Prop) : Prop :=
  ∀ x y, numbers x → numbers' y → Decimal.Style.plain.write x = Decimal.Style.plain.write y → x = y

namespace Constant

theorem toList_view_string (s : String) :
    (Constant.string s).view.toList = '"' :: (s.toList ++ ['"']) := by
  simp [view]

/-- Nothing but a number looks like a number. -/
theorem eq_number {value : Constant} {x : Float} (h : (Constant.number x).Legible numbers)
    (heq : value.view = (Constant.number x).view) : ∃ y, value = .number y := by
  have hbegins : BeginsWithDigit value.view := heq ▸ h.1
  cases value with
  | number y => exact ⟨y, rfl⟩
  | nil => exact absurd hbegins (by decide)
  | boolean b => cases b <;> exact absurd hbegins (by decide)
  | string s =>
      unfold BeginsWithDigit at hbegins
      rw [toList_view_string] at hbegins
      cases hbegins

/-- Nothing but a string looks like a string. -/
theorem eq_string {value : Constant} {s : String} (h : value.Legible numbers)
    (heq : value.view = (Constant.string s).view) : value = .string s := by
  have hlist := congrArg String.toList heq
  rw [toList_view_string] at hlist
  cases value with
  | nil => cases (List.cons.inj hlist).1
  | boolean b => cases b <;> cases (List.cons.inj hlist).1
  | number x =>
      obtain ⟨y, hy⟩ := eq_number h heq.symm
      cases hy
  | string s' =>
      rw [toList_view_string] at hlist
      have hcontent := List.append_cancel_right (List.cons.inj hlist).2
      rw [String.toList_inj.mp hcontent]

/-- Constants that look the same are the same if no two numbers do. -/
theorem eq_of_view (hapart : NumbersApart numbers numbers') {value value' : Constant}
    (h : value.Legible numbers) (h' : value'.Legible numbers')
    (heq : value.view = value'.view) : value = value' := by
  cases value' with
  | string s => exact eq_string h heq
  | number y =>
      obtain ⟨x, rfl⟩ := eq_number h' heq
      rw [hapart x y h.2 h'.2 heq]
  | nil =>
      cases value with
      | nil => rfl
      | boolean b => cases b <;> exact absurd heq (by decide)
      | number x =>
          obtain ⟨y, hy⟩ := eq_number h heq.symm
          cases hy
      | string s => exact (eq_string h' heq.symm).symm
  | boolean b' =>
      cases value with
      | nil => cases b' <;> exact absurd heq (by decide)
      | boolean b =>
          cases b <;> cases b'
          · rfl
          · exact absurd heq (by decide)
          · exact absurd heq (by decide)
          · rfl
      | number x =>
          obtain ⟨y, hy⟩ := eq_number h heq.symm
          cases hy
      | string s => exact (eq_string h' heq.symm).symm

end Constant

/-- Parameters that are spelt alike are alike. -/
theorem Token.names_alike {tokens tokens' : List Token} (h : ∀ t ∈ tokens, t.IsName)
    (h' : ∀ t ∈ tokens', t.IsName)
    (heq : tokens.map Token.lexeme = tokens'.map Token.lexeme) :
    List.Forall₂ Likeness.shown.tokens tokens tokens' := by
  have hlength := congrArg List.length heq
  rw [List.length_map, List.length_map] at hlength
  refine List.forall₂_iff_get.mpr ⟨hlength, fun i hi hi' => ?_⟩
  have hlexeme := congrArg (fun l : List String => l[i]?) heq
  simp only [List.getElem?_map, List.getElem?_eq_getElem hi, List.getElem?_eq_getElem hi',
    Option.map_some, Option.some.injEq] at hlexeme
  exact (h _ (List.getElem_mem hi)).alike (h' _ (List.getElem_mem hi')) hlexeme

theorem Expr.form_eq {e e' : Expr} (h : AllLegible numbers e.nodes) (h' : AllLegible numbers' e'.nodes)
    (heq : e.piece = e'.piece) : e'.form = e.form := by
  rw [← e.form_piece h, heq, e'.form_piece h']

theorem Stmt.form_eq {s s' : Stmt} (heq : s.piece = s'.piece) : s'.form = s.form := by
  rw [← s.form_piece, heq, s'.form_piece]

/-- The spelling of a word that joins truths says which it is. -/
theorem Token.logical_alike {t t' : Token} (h : t.Is .logicalOr "or" ∨ t.Is .logicalAnd "and")
    (h' : t'.Is .logicalOr "or" ∨ t'.Is .logicalAnd "and") (heq : t.lexeme = t'.lexeme) :
    t'.outline = t.outline := by
  rcases h with h | h
  · rcases h' with h' | h'
    · exact h.alike h'
    · rw [h.2, h'.2] at heq
      exact absurd heq (by decide)
  · rcases h' with h' | h'
    · rw [h.2, h'.2] at heq
      exact absurd heq (by decide)
    · exact h.alike h'

mutual

/-- Expressions of one piece are alike. -/
theorem Expr.alike_of_piece (hapart : NumbersApart numbers numbers') : ∀ {e e' : Expr},
    AllLegible numbers e.nodes → AllLegible numbers' e'.nodes → e.piece = e'.piece → e.Alike .shown e'
  | .literal _ value _, e', h, h', heq => by
      have hform := Expr.form_eq h h' heq
      cases e' with
      | literal _ value' _ =>
          have hview := String.toList_inj.mp (Piece.atom.inj heq)
          obtain rfl := Constant.eq_of_view hapart (h _ (Expr.mem_nodes _))
            (h' _ (Expr.mem_nodes _)) hview
          exact .literal trivial trivial
      | _ => cases hform
  | .var _ name, e', h, h', heq => by
      have hform := Expr.form_eq h h' heq
      cases e' with
      | var _ name' =>
          have hname : name.IsName := h _ (Expr.mem_nodes _)
          exact .var trivial (hname.alike (h' _ (Expr.mem_nodes _)) (Token.piece_inj.mp heq))
      | _ => cases hform
  | .assign _ name value, e', h, h', heq => by
      have hform := Expr.form_eq h h' heq
      cases e' with
      | assign _ name' value' =>
          simp only [Expr.nodes, allLegible_cons] at h h'
          obtain ⟨hname, hv⟩ := h
          obtain ⟨hname', hv'⟩ := h'
          simp only [Expr.piece, Piece.under_inj, List.cons.injEq, Token.piece_inj, and_true,
            true_and] at heq
          exact .assign trivial (Token.IsName.alike hname hname' heq.1)
            (Expr.alike_of_piece hapart hv hv' heq.2)
      | _ => cases hform
  | .binary _ left operator right, e', h, h', heq => by
      have hform := Expr.form_eq h h' heq
      cases e' with
      | binary _ left' operator' right' =>
          simp only [Expr.nodes, allLegible_cons, allLegible_append] at h h'
          obtain ⟨hop, hl, hr⟩ := h
          obtain ⟨hop', hl', hr'⟩ := h'
          simp only [Expr.piece, Piece.under_inj, List.cons.injEq, and_true] at heq
          obtain ⟨hlexeme, hleft, hright⟩ := heq
          exact .binary trivial (Expr.alike_of_piece hapart hl hl' hleft)
            (Token.outline_eq (hop.1.trans hop'.1.symm) hlexeme)
            (Expr.alike_of_piece hapart hr hr' hright)
      | _ => cases hform
  | .logical _ left operator right, e', h, h', heq => by
      have hform := Expr.form_eq h h' heq
      cases e' with
      | logical _ left' operator' right' =>
          simp only [Expr.nodes, allLegible_cons, allLegible_append] at h h'
          obtain ⟨hop, hl, hr⟩ := h
          obtain ⟨hop', hl', hr'⟩ := h'
          simp only [Expr.piece, Piece.under_inj, List.cons.injEq, and_true] at heq
          obtain ⟨hlexeme, hleft, hright⟩ := heq
          exact .logical trivial (Expr.alike_of_piece hapart hl hl' hleft)
            (Token.logical_alike hop hop' hlexeme) (Expr.alike_of_piece hapart hr hr' hright)
      | _ => cases hform
  | .unary _ operator operand, e', h, h', heq => by
      have hform := Expr.form_eq h h' heq
      cases e' with
      | unary _ operator' operand' =>
          simp only [Expr.nodes, allLegible_cons] at h h'
          simp only [Expr.piece, Piece.under_inj, List.cons.injEq, and_true] at heq
          exact .unary trivial (Token.outline_eq (h.1.1.trans h'.1.1.symm) heq.1)
            (Expr.alike_of_piece hapart h.2 h'.2 heq.2)
      | _ => cases hform
  | .grouping _ inner, e', h, h', heq => by
      have hform := Expr.form_eq h h' heq
      cases e' with
      | grouping _ inner' =>
          simp only [Expr.nodes, allLegible_cons] at h h'
          simp only [Expr.piece, Piece.under_inj, List.cons.injEq, and_true, true_and] at heq
          exact .grouping trivial (Expr.alike_of_piece hapart h.2 h'.2 heq)
      | _ => cases hform
  | .call _ callee paren arguments, e', h, h', heq => by
      have hform := Expr.form_eq h h' heq
      cases e' with
      | call _ callee' paren' arguments' =>
          simp only [Expr.nodes, allLegible_cons, allLegible_append] at h h'
          obtain ⟨hparen, hc, hall⟩ := h
          obtain ⟨hparen', hc', hall'⟩ := h'
          simp only [Expr.piece, Piece.under_inj, List.cons.injEq, true_and] at heq
          exact .call trivial (Expr.alike_of_piece hapart hc hc' heq.1)
            (Token.Is.alike hparen hparen') (Expr.alike_of_pieces hapart hall hall' heq.2)
      | _ => cases hform
  | .get _ object name, e', h, h', heq => by
      have hform := Expr.form_eq h h' heq
      cases e' with
      | get _ object' name' =>
          simp only [Expr.nodes, allLegible_cons] at h h'
          simp only [Expr.piece, Piece.under_inj, List.cons.injEq, Token.piece_inj, and_true,
            true_and] at heq
          exact .get trivial (Expr.alike_of_piece hapart h.2 h'.2 heq.1)
            (Token.IsName.alike h.1 h'.1 heq.2)
      | _ => cases hform
  | .set _ object name value, e', h, h', heq => by
      have hform := Expr.form_eq h h' heq
      cases e' with
      | set _ object' name' value' =>
          simp only [Expr.nodes, allLegible_cons, allLegible_append] at h h'
          obtain ⟨hname, hv, ho⟩ := h
          obtain ⟨hname', hv', ho'⟩ := h'
          simp only [Expr.piece, Piece.under_inj, List.cons.injEq, Token.piece_inj, and_true,
            true_and] at heq
          obtain ⟨hobject, hlexeme, hvalue⟩ := heq
          exact .set trivial (Expr.alike_of_piece hapart ho ho' hobject)
            (Token.IsName.alike hname hname' hlexeme) (Expr.alike_of_piece hapart hv hv' hvalue)
      | _ => cases hform
  | .this _ keyword, e', h, h', heq => by
      have hform := Expr.form_eq h h' heq
      cases e' with
      | this _ keyword' =>
          have hkeyword : keyword.Is .keyword "this" := h _ (Expr.mem_nodes _)
          exact .this trivial (hkeyword.alike (h' _ (Expr.mem_nodes _)))
      | _ => cases hform
  | .super _ keyword method, e', h, h', heq => by
      have hform := Expr.form_eq h h' heq
      cases e' with
      | super _ keyword' method' =>
          have hnode : keyword.Is .keyword "super" ∧ method.IsName := h _ (Expr.mem_nodes _)
          have hnode' : keyword'.Is .keyword "super" ∧ method'.IsName := h' _ (Expr.mem_nodes _)
          simp only [Expr.piece, Piece.under_inj, List.cons.injEq, Token.piece_inj, and_true,
            true_and] at heq
          exact .super trivial (hnode.1.alike hnode'.1) (hnode.2.alike hnode'.2 heq)
      | _ => cases hform

theorem Expr.alike_of_pieces (hapart : NumbersApart numbers numbers') : ∀ {es es' : List Expr},
    AllLegible numbers (Expr.nodesAll es) → AllLegible numbers' (Expr.nodesAll es') →
      Expr.pieces es = Expr.pieces es' → List.Forall₂ (Expr.Alike .shown) es es'
  | [], [], _, _, _ => .nil
  | [], _ :: _, _, _, heq => by cases heq
  | _ :: _, [], _, _, heq => by cases heq
  | _ :: _, _ :: _, h, h', heq =>
      have h := allLegible_append.mp h
      have h' := allLegible_append.mp h'
      have heq := List.cons.inj heq
      .cons (Expr.alike_of_piece hapart h.1 h'.1 heq.1) (Expr.alike_of_pieces hapart h.2 h'.2 heq.2)

end

theorem Expr.alike_of_piecesInit (hapart : NumbersApart numbers numbers') {o o' : Option Expr}
    (h : AllLegible numbers (Expr.nodesOptional o)) (h' : AllLegible numbers' (Expr.nodesOptional o'))
    (heq : Expr.piecesInit o = Expr.piecesInit o') : Option.Rel (Expr.Alike .shown) o o' := by
  cases o with
  | none =>
      cases o' with
      | none => exact .none
      | some e' => cases heq
  | some e =>
      cases o' with
      | none => cases heq
      | some e' =>
          simp only [Expr.piecesInit, List.cons.injEq, and_true, true_and] at heq
          exact .some (Expr.alike_of_piece hapart h h' heq)

theorem Expr.alike_of_piecesOptional (hapart : NumbersApart numbers numbers') {o o' : Option Expr}
    (h : AllLegible numbers (Expr.nodesOptional o)) (h' : AllLegible numbers' (Expr.nodesOptional o'))
    (heq : Expr.piecesOptional o = Expr.piecesOptional o') :
    Option.Rel (Expr.Alike .shown) o o' := by
  cases o with
  | none =>
      cases o' with
      | none => exact .none
      | some e' => cases heq
  | some e =>
      cases o' with
      | none => cases heq
      | some e' => exact .some (Expr.alike_of_piece hapart h h' (List.cons.inj heq).1)

/-- The piece of a function is no word. -/
theorem FunDecl.piece_ne_atom (f : FunDecl) (spelling : List Char) : f.piece ≠ .atom spelling := by
  cases f
  nofun

/-- A superclass ends where the first method begins. -/
theorem NameRef.alike_of_pieces {o o' : Option NameRef} {methods methods' : List FunDecl}
    (h : AllLegible numbers (NameRef.nodesOptional o))
    (h' : AllLegible numbers' (NameRef.nodesOptional o'))
    (heq : NameRef.pieces o ++ FunDecl.pieces methods
      = NameRef.pieces o' ++ FunDecl.pieces methods') :
    Option.Rel (NameRef.Alike .shown) o o' ∧ FunDecl.pieces methods = FunDecl.pieces methods' := by
  -- Only a superclass brings a sign in front of the methods.
  have hsign : ∀ (fs : List FunDecl) (rest : List Piece),
      FunDecl.pieces fs ≠ .atom "<".toList :: rest := by
    intro fs rest hfs
    cases fs with
    | nil => cases hfs
    | cons f fs => exact f.piece_ne_atom _ (List.cons.inj hfs).1
  cases o with
  | none =>
      cases o' with
      | none => exact ⟨.none, heq⟩
      | some parent' => exact absurd heq (hsign _ _)
  | some parent =>
      cases o' with
      | none => exact absurd heq.symm (hsign _ _)
      | some parent' =>
          simp only [NameRef.pieces, List.cons_append, List.nil_append, List.cons.injEq,
            Token.piece_inj, true_and] at heq
          have hname : parent.name.IsName := h _ List.mem_cons_self
          have hname' : parent'.name.IsName := h' _ List.mem_cons_self
          exact ⟨.some ⟨trivial, hname.alike hname' heq.1⟩, heq.2⟩

mutual

/-- Statements of one piece are alike. -/
theorem Stmt.alike_of_piece (hapart : NumbersApart numbers numbers') : ∀ {s s' : Stmt},
    AllLegible numbers s.nodes → AllLegible numbers' s'.nodes → s.piece = s'.piece → s.Alike .shown s'
  | .expression _ e, s', h, h', heq => by
      have hform := Stmt.form_eq heq
      cases s' with
      | expression _ e' =>
          simp only [Stmt.piece, Piece.under_inj, List.cons.injEq, and_true, true_and] at heq
          exact .expression trivial
            (Expr.alike_of_piece hapart (allLegible_cons.mp h).2 (allLegible_cons.mp h').2 heq)
      | _ => cases hform
  | .print _ e, s', h, h', heq => by
      have hform := Stmt.form_eq heq
      cases s' with
      | print _ e' =>
          simp only [Stmt.piece, Piece.under_inj, List.cons.injEq, and_true, true_and] at heq
          exact .print trivial
            (Expr.alike_of_piece hapart (allLegible_cons.mp h).2 (allLegible_cons.mp h').2 heq)
      | _ => cases hform
  | .varDecl _ name initializer, s', h, h', heq => by
      have hform := Stmt.form_eq heq
      cases s' with
      | varDecl _ name' initializer' =>
          simp only [Stmt.nodes, allLegible_cons] at h h'
          simp only [Stmt.piece, Piece.under_inj, List.cons.injEq, Token.piece_inj, true_and] at heq
          exact .varDecl trivial (Token.IsName.alike h.1 h'.1 heq.1)
            (Expr.alike_of_piecesInit hapart h.2 h'.2 heq.2)
      | _ => cases hform
  | .block _ body, s', h, h', heq => by
      have hform := Stmt.form_eq heq
      cases s' with
      | block _ body' =>
          simp only [Stmt.piece, Piece.under_inj, true_and] at heq
          exact .block trivial
            (Stmt.alike_of_pieces hapart (allLegible_cons.mp h).2 (allLegible_cons.mp h').2 heq)
      | _ => cases hform
  | .ifThen _ condition thenBranch, s', h, h', heq => by
      have hform := Stmt.form_eq heq
      cases s' with
      | ifThen _ condition' thenBranch' =>
          simp only [Stmt.nodes, allLegible_cons, allLegible_append] at h h'
          obtain ⟨-, hc, ht⟩ := h
          obtain ⟨-, hc', ht'⟩ := h'
          simp only [Stmt.piece, Piece.under_inj, List.cons.injEq, and_true, true_and] at heq
          exact .ifThen trivial (Expr.alike_of_piece hapart hc hc' heq.1)
            (Stmt.alike_of_piece hapart ht ht' heq.2)
      | _ => cases hform
  | .ifElse _ condition thenBranch elseBranch, s', h, h', heq => by
      have hform := Stmt.form_eq heq
      cases s' with
      | ifElse _ condition' thenBranch' elseBranch' =>
          simp only [Stmt.nodes, allLegible_cons, allLegible_append] at h h'
          obtain ⟨-, ⟨hc, ht⟩, he⟩ := h
          obtain ⟨-, ⟨hc', ht'⟩, he'⟩ := h'
          simp only [Stmt.piece, Piece.under_inj, List.cons.injEq, and_true, true_and] at heq
          obtain ⟨hcondition, hthen, helse⟩ := heq
          exact .ifElse trivial (Expr.alike_of_piece hapart hc hc' hcondition)
            (Stmt.alike_of_piece hapart ht ht' hthen) (Stmt.alike_of_piece hapart he he' helse)
      | _ => cases hform
  | .whileLoop _ condition body, s', h, h', heq => by
      have hform := Stmt.form_eq heq
      cases s' with
      | whileLoop _ condition' body' =>
          simp only [Stmt.nodes, allLegible_cons, allLegible_append] at h h'
          obtain ⟨-, hc, hb⟩ := h
          obtain ⟨-, hc', hb'⟩ := h'
          simp only [Stmt.piece, Piece.under_inj, List.cons.injEq, and_true, true_and] at heq
          exact .whileLoop trivial (Expr.alike_of_piece hapart hc hc' heq.1)
            (Stmt.alike_of_piece hapart hb hb' heq.2)
      | _ => cases hform
  | .funDecl f, s', h, h', heq => by
      have hform := Stmt.form_eq heq
      cases s' with
      | funDecl f' =>
          simp only [Stmt.nodes, allLegible_cons] at h h'
          exact .funDecl trivial (FunDecl.alike_of_piece hapart h.1 h'.1 h.2 h'.2 heq) trivial
      | _ => cases hform
  | .returnStmt _ keyword value, s', h, h', heq => by
      have hform := Stmt.form_eq heq
      cases s' with
      | returnStmt _ keyword' value' =>
          simp only [Stmt.nodes, allLegible_cons] at h h'
          simp only [Stmt.piece, Piece.under_inj, true_and] at heq
          exact .returnStmt trivial (Token.Is.alike h.1 h'.1)
            (Expr.alike_of_piecesOptional hapart h.2 h'.2 heq)
      | _ => cases hform
  | .classDecl _ name superclass methods, s', h, h', heq => by
      have hform := Stmt.form_eq heq
      cases s' with
      | classDecl _ name' superclass' methods' =>
          simp only [Stmt.nodes, allLegible_cons, allLegible_append] at h h'
          obtain ⟨⟨hname, hheads⟩, hparent, hm⟩ := h
          obtain ⟨⟨hname', hheads'⟩, hparent', hm'⟩ := h'
          simp only [Stmt.piece, Piece.under_inj, List.cons.injEq, Token.piece_inj, true_and] at heq
          obtain ⟨halike, hpieces⟩ := NameRef.alike_of_pieces hparent hparent' heq.2
          have hmethods := FunDecl.alike_of_pieces hapart hheads hheads' hm hm' hpieces
          exact .classDecl trivial (hname.alike hname' heq.1) halike hmethods
            (Likeness.lax_shown.methods hmethods)
      | _ => cases hform

theorem Stmt.alike_of_pieces (hapart : NumbersApart numbers numbers') : ∀ {body body' : List Stmt},
    AllLegible numbers (Stmt.nodesAll body) → AllLegible numbers' (Stmt.nodesAll body') →
      Stmt.pieces body = Stmt.pieces body' → List.Forall₂ (Stmt.Alike .shown) body body'
  | [], [], _, _, _ => .nil
  | [], _ :: _, _, _, heq => by cases heq
  | _ :: _, [], _, _, heq => by cases heq
  | _ :: _, _ :: _, h, h', heq =>
      have h := allLegible_append.mp h
      have h' := allLegible_append.mp h'
      have heq := List.cons.inj heq
      .cons (Stmt.alike_of_piece hapart h.1 h'.1 heq.1) (Stmt.alike_of_pieces hapart h.2 h'.2 heq.2)

theorem FunDecl.alike_of_piece (hapart : NumbersApart numbers numbers') : ∀ {f f' : FunDecl},
    f.Legible → f'.Legible → AllLegible numbers f.nodes → AllLegible numbers' f'.nodes →
      f.piece = f'.piece → f.Alike .shown f'
  | .mk _ name params body, .mk _ name' params' body', hhead, hhead', h, h', heq => by
      simp only [FunDecl.piece, Piece.under_inj, List.cons.injEq, Piece.signature.injEq,
        String.toList_inj, true_and] at heq
      obtain ⟨⟨hname, hparams⟩, hbody⟩ := heq
      have hlexemes : params.map Token.lexeme = params'.map Token.lexeme := by
        refine (List.map_injective_iff.mpr fun a b => String.toList_inj.mp) ?_
        rw [List.map_map, List.map_map]
        exact hparams
      exact .mk (hhead.name.alike hhead'.name hname)
        (Token.names_alike hhead.params hhead'.params hlexemes)
        (Stmt.alike_of_pieces hapart h h' hbody)

theorem FunDecl.alike_of_pieces (hapart : NumbersApart numbers numbers') :
    ∀ {fs fs' : List FunDecl}, (∀ f ∈ fs, f.Legible) → (∀ f ∈ fs', f.Legible) →
      AllLegible numbers (FunDecl.nodesAll fs) → AllLegible numbers' (FunDecl.nodesAll fs') →
        FunDecl.pieces fs = FunDecl.pieces fs' → List.Forall₂ (FunDecl.Alike .shown) fs fs'
  | [], [], _, _, _, _, _ => .nil
  | [], _ :: _, _, _, _, _, heq => by cases heq
  | _ :: _, [], _, _, _, _, heq => by cases heq
  | f :: _, f' :: _, hheads, hheads', h, h', heq =>
      have h := allLegible_append.mp h
      have h' := allLegible_append.mp h'
      have heq := List.cons.inj heq
      .cons (FunDecl.alike_of_piece hapart (hheads f List.mem_cons_self)
          (hheads' f' List.mem_cons_self) h.1 h'.1 heq.1)
        (FunDecl.alike_of_pieces hapart (fun g hg => hheads g (List.mem_cons_of_mem f hg))
          (fun g hg => hheads' g (List.mem_cons_of_mem f' hg)) h.2 h'.2 heq.2)

end

end Lox
