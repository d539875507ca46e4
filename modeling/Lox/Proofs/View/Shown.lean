/-
Trees as bracketed texts. The view of a tree is the text of a piece
(`Expr.toList_view`, `Stmt.toList_view`): the head of a node, which may hold blanks
and brackets of its own, is its word and the first of its parts. What is asked of
every node for that is little (`Node.Shown`): that its names and operators are spelt
as such, and that strings hold no quote. Which numbers may occur is left open, but
they have to begin with a digit.
-/
import Lox.Proofs.View.Piece
import Lox.Proofs.Reading.Program

namespace Lox

open Piece (isPlain Plain Quoted)

-- ================================================================== numbers

namespace Decimal

/-- Nothing in a text ends a word. -/
def Unbroken (s : String) : Prop := ∀ c ∈ s.toList, isPlain c = true

instance (s : String) : Decidable (Unbroken s) :=
  decidable_of_iff (s.toList.all isPlain = true) List.all_eq_true

namespace Unbroken

variable {s t : String}

theorem append (hs : Unbroken s) (ht : Unbroken t) : Unbroken (s ++ t) := by
  intro c hc
  rw [String.toList_append, List.mem_append] at hc
  exact hc.elim (hs c) (ht c)

theorem ofList {l : List Char} (h : ∀ c ∈ l, isPlain c = true) : Unbroken (String.ofList l) := by
  intro c hc
  rw [String.toList_ofList] at hc
  exact h c hc

theorem digits (n : Nat) : Unbroken (toString n) := by
  have hrow : ∀ c ∈ Nat.toDigits 10 n, isPlain c = true := fun c hc =>
    Piece.isPlain_of (by decide) (Nat.isDigit_of_mem_toDigits (b := 10) (by decide) (by decide) hc)
  exact ofList hrow

theorem zeros (n : Int) : Unbroken (zeros n) :=
  ofList fun _ hc => (List.eq_of_mem_replicate hc) ▸ (by decide)

theorem exponentText (e : Int) : Unbroken (exponentText e) := by
  have hsign : Unbroken (if e < 0 then "-" else "+") := by split <;> decide
  refine hsign.append ?_
  split
  · exact (show Unbroken "0" by decide).append (digits _)
  · exact digits _

end Unbroken

theorem Style.unbroken_layOut (style : Style) (x : Scaled) : Unbroken (style.layOut x) := by
  have hdigits := Unbroken.digits x.digits
  have hfirst : ∀ n, Unbroken (String.ofList ((toString x.digits).toList.take n)) := fun n =>
    .ofList fun c hc => hdigits c (List.mem_of_mem_take hc)
  have hrest : ∀ n, Unbroken (String.ofList ((toString x.digits).toList.drop n)) := fun n =>
    .ofList fun c hc => hdigits c (List.mem_of_mem_drop hc)
  have hpoint : Unbroken "." := by decide
  unfold Style.layOut
  dsimp only
  split
  · split
    · exact ((show Unbroken "0." by decide).append (.zeros _)).append hdigits
    split
    · exact ((hfirst _).append hpoint).append (hrest _)
    · refine (hdigits.append (.zeros _)).append ?_
      split <;> decide
  · refine (((hfirst _).append ?_).append (by decide)).append (.exponentText _)
    split
    · decide
    · exact hpoint.append (hrest _)

/-- However a number is written, there is no blank in it, no bracket and no quote. -/
theorem Style.unbroken_write (x : Float) : Unbroken (Style.plain.write x) := by
  have hsign : ∀ negative : Bool, Unbroken (if negative then "-" else "") := by decide
  unfold Style.write
  dsimp only
  split
  · decide
  · exact (hsign _).append (by decide)
  · exact (hsign _).append (plain.unbroken_layOut _)
  · exact (hsign _).append (plain.unbroken_layOut _)

end Decimal

-- ==================================================================== nodes

/-- A name as a text can have it. -/
def Token.IsName (t : Token) : Prop := t.kind = .identifier ∧ (Word.name t.lexeme).Valid

/-- A text that begins with a digit. -/
def BeginsWithDigit (s : String) : Prop := s.toList.head?.any Text.isDigit = true

instance (s : String) : Decidable (BeginsWithDigit s) :=
  inferInstanceAs (Decidable (s.toList.head?.any Text.isDigit = true))

/-- A constant as a text can have it. A number is one of the given ones and finite, so that it is
not shown as a word. -/
def Constant.Legible (numbers : Float → Prop) : Constant → Prop
  | .number x => BeginsWithDigit (Decimal.Style.plain.write x) ∧ numbers x
  | .string s => '"' ∉ s.toList
  | .nil | .boolean _ => True

structure FunDecl.Legible (f : FunDecl) : Prop where
  name : f.name.IsName
  params : ∀ param ∈ f.params, param.IsName

/-- Names, operators and constants of a node are what the grammar makes of them. -/
def Node.Legible (numbers : Float → Prop) : Node → Prop
  | .expression (.literal _ value _) => value.Legible numbers
  | .expression (.var _ name) => name.IsName
  | .expression (.assign _ name _) => name.IsName
  | .expression (.binary _ _ operator _) =>
    operator.kind = .operator ∧ operator.lexeme ∈ binaryOperators
  | .expression (.logical _ _ operator _) =>
    operator.Is .logicalOr "or" ∨ operator.Is .logicalAnd "and"
  | .expression (.unary _ operator _) =>
    operator.kind = .operator ∧ operator.lexeme ∈ unaryOperators
  | .expression (.grouping ..) => True
  | .expression (.call _ _ paren _) => paren.Is .rightParen ")"
  | .expression (.get _ _ name) => name.IsName
  | .expression (.set _ _ name _) => name.IsName
  | .expression (.this _ keyword) => keyword.Is .keyword "this"
  | .expression (.super _ keyword method) => keyword.Is .keyword "super" ∧ method.IsName
  | .statement (.varDecl _ name _) => name.IsName
  | .statement (.funDecl f) => f.Legible
  | .statement (.returnStmt _ keyword _) => keyword.Is .keyword "return"
  | .statement (.classDecl _ name _ methods) => name.IsName ∧ ∀ f ∈ methods, f.Legible
  | .statement _ => True

/-- All of some nodes are legible. -/
def AllLegible (numbers : Float → Prop) (nodes : List Node) : Prop :=
  ∀ m ∈ nodes, m.Legible numbers

section

variable {numbers : Float → Prop} {m : Node} {nodes more : List Node}

@[simp] theorem allLegible_nil : AllLegible numbers [] := nofun

@[simp] theorem allLegible_cons :
    AllLegible numbers (m :: nodes) ↔ m.Legible numbers ∧ AllLegible numbers nodes :=
  List.forall_mem_cons

@[simp] theorem allLegible_append :
    AllLegible numbers (nodes ++ more) ↔ AllLegible numbers nodes ∧ AllLegible numbers more :=
  List.forall_mem_append

end

-- =================================================================== pieces

/-- A node with a word of letters. -/
def Piece.under (word : String) (parts : List Piece) : Piece := .node word.toList parts

def Token.piece (t : Token) : Piece := .atom t.lexeme.toList

mutual

/-- An expression as a bracketed text. -/
def Expr.piece : Expr → Piece
  | .literal _ value _ => .atom value.view.toList
  | .var _ name => name.piece
  | .assign _ name value => .under "assign" [name.piece, value.piece]
  | .binary _ left operator right => .under operator.lexeme [left.piece, right.piece]
  | .logical _ left operator right => .under operator.lexeme [left.piece, right.piece]
  | .unary _ operator operand => .under operator.lexeme [operand.piece]
  | .grouping _ inner => .under "group" [inner.piece]
  | .call _ callee _ arguments => .under "call" (callee.piece :: Expr.pieces arguments)
  | .get _ object name => .under "get" [object.piece, name.piece]
  | .set _ object name value => .under "set" [object.piece, name.piece, value.piece]
  | .this _ _ => .atom "this".toList
  | .super _ _ method => .under "super" [method.piece]

def Expr.pieces : List Expr → List Piece
  | [] => []
  | e :: rest => e.piece :: Expr.pieces rest

end

/-- The initializer of a variable, behind its sign. -/
def Expr.piecesInit : Option Expr → List Piece
  | none => []
  | some e => [.atom "=".toList, e.piece]

def Expr.piecesOptional : Option Expr → List Piece
  | none => []
  | some e => [e.piece]

/-- The superclass of a class, behind its sign. -/
def NameRef.pieces : Option NameRef → List Piece
  | none => []
  | some parent => [.atom "<".toList, parent.name.piece]

mutual

/-- A statement as a bracketed text. -/
def Stmt.piece : Stmt → Piece
  | .expression _ e => .under ";" [e.piece]
  | .print _ e => .under "print" [e.piece]
  | .varDecl _ name initializer => .under "var" (name.piece :: Expr.piecesInit initializer)
  | .block _ body => .under "block" (Stmt.pieces body)
  | .ifThen _ condition thenBranch => .under "if" [condition.piece, thenBranch.piece]
  | .ifElse _ condition thenBranch elseBranch =>
    .under "if-else" [condition.piece, thenBranch.piece, elseBranch.piece]
  | .whileLoop _ condition body => .under "while" [condition.piece, body.piece]
  | .funDecl f => f.piece
  | .returnStmt _ _ value => .under "return" (Expr.piecesOptional value)
  | .classDecl _ name superclass methods =>
    .under "class" (name.piece :: (NameRef.pieces superclass ++ FunDecl.pieces methods))

def Stmt.pieces : List Stmt → List Piece
  | [] => []
  | s :: rest => s.piece :: Stmt.pieces rest

def FunDecl.piece : FunDecl → Piece
  | .mk _ name params body =>
    .under "fun" (.signature name.lexeme.toList (params.map fun param => param.lexeme.toList)
      :: Stmt.pieces body)

def FunDecl.pieces : List FunDecl → List Piece
  | [] => []
  | f :: rest => f.piece :: FunDecl.pieces rest

end

-- ============================================================ views as pieces

/-- A text is that of a good piece. -/
structure Piece.Writes (p : Piece) (s : String) : Prop where
  good : p.Good
  text : s.toList = p.text

namespace Piece

variable {p : Piece} {ps heads : List Piece} {s word : String} {parts : List String}

theorem Good.text_ne_nil (h : p.Good) : p.text ≠ [] := by
  cases p with
  | atom spelling =>
      rcases h with h | ⟨content, rfl, -⟩
      · exact h.1
      · exact List.cons_ne_nil _ _
  | signature name params =>
      intro hnil
      exact h.1.1 (List.append_eq_nil_iff.mp hnil).1
  | node word parts => exact List.cons_ne_nil _ _

theorem textAll_append (some more : List Piece) :
    textAll (some ++ more) = textAll some ++ textAll more := by
  induction some with
  | nil => rfl
  | cons p rest ih => simp only [List.cons_append, textAll, ih, List.append_assoc]

theorem goodAll_append {some more : List Piece} (h : GoodAll some) (h' : GoodAll more) :
    GoodAll (some ++ more) := by
  rw [goodAll_iff] at *
  exact List.forall_mem_append.mpr ⟨h, h'⟩

/-- Parts with blanks between them. -/
theorem textAll_eq_intercalate (hne : ps ≠ []) :
    textAll ps = ' ' :: [' '].intercalate (ps.map text) := by
  induction ps with
  | nil => exact absurd rfl hne
  | cons p rest ih =>
      cases rest with
      | nil => simp [textAll]
      | cons q rest =>
          rw [List.map_cons, List.map_cons, List.intercalate_cons_cons, textAll,
            ih (List.cons_ne_nil _ _), List.map_cons]
          simp

theorem writes_all (h : List.Forall₂ Writes ps parts) :
    GoodAll ps ∧ parts.map String.toList = ps.map text := by
  induction h with
  | nil => exact ⟨trivial, rfl⟩
  | cons first _ ih =>
      rw [List.map_cons, List.map_cons, first.text, ih.2]
      exact ⟨⟨first.good, ih.1⟩, rfl⟩

/-- The first parts of a node may stand in the word that the view begins with. -/
theorem Writes.bracket {w : List Char} (hword : word.toList = w ++ textAll heads) (hw : Plain w)
    (hheads : GoodAll heads) (hparts : List.Forall₂ Writes ps parts) :
    (Piece.node w (heads ++ ps)).Writes (bracket word parts) := by
  obtain ⟨hgood, htexts⟩ := writes_all hparts
  refine ⟨⟨hw, goodAll_append hheads hgood⟩, ?_⟩
  have hinner : (" ".intercalate parts).toList = [' '].intercalate (ps.map Piece.text) := by
    rw [String.toList_intercalate, htexts]
    rfl
  unfold Lox.bracket
  dsimp only
  rw [Piece.text, textAll_append]
  cases hps : ps with
  | nil =>
      subst hps
      cases hparts
      have hempty : (" ".intercalate ([] : List String)).isEmpty = true := by decide
      rw [if_pos hempty]
      simp [hword, textAll]
  | cons p rest =>
      have hsome : (" ".intercalate parts).isEmpty = false := by
        rw [Bool.eq_false_iff]
        intro hempty
        rw [String.isEmpty_iff.mp hempty, hps] at hinner
        have hp : p.Good := by
          rw [hps] at hgood
          exact hgood.1
        cases rest with
        | nil => exact hp.text_ne_nil (by simpa using hinner.symm)
        | cons q rest =>
            rw [List.map_cons, List.map_cons, List.intercalate_cons_cons] at hinner
            simp at hinner
      have hparts : textAll ps = ' ' :: (" ".intercalate parts).toList := by
        rw [textAll_eq_intercalate (by simp [hps]), hinner]
      rw [hsome, if_neg Bool.false_ne_true, ← hps, hparts]
      simp [hword]

/-- Nothing but parts. -/
theorem Writes.under (hw : Plain word.toList) (hparts : List.Forall₂ Writes ps parts) :
    (Piece.under word ps).Writes (Lox.bracket word parts) := by
  have hword : word.toList = word.toList ++ textAll [] := (List.append_nil _).symm
  exact Writes.bracket hword hw trivial hparts

end Piece

open Piece (Writes)

-- =================================================================== words

/-- All characters of a name are of the kinds that names are made of. -/
theorem Token.IsName.forall_mem {t : Token} (h : t.IsName) {p : Char → Bool}
    (hstart : ∀ c, Text.isNameStart c = true → p c = true)
    (hchar : ∀ c, Text.isNameChar c = true → p c = true) : ∀ c ∈ t.lexeme.toList, p c = true := by
  obtain ⟨-, -, hlength, -⟩ := h
  cases hname : t.lexeme.toList with
  | nil => nofun
  | cons c rest =>
      rw [hname] at hlength
      unfold Text.nameLength at hlength
      dsimp only at hlength
      split at hlength
      · rename_i hfirst
        have hall : rest.takeWhile Text.isNameChar = rest :=
          (List.takeWhile_prefix _).eq_of_length (by simpa [Nat.add_comm] using hlength)
        refine List.forall_mem_cons.mpr ⟨hstart c hfirst, fun d hd => hchar d ?_⟩
        rw [← hall] at hd
        exact List.all_eq_true.mp List.all_takeWhile d hd
      · cases hlength

theorem Token.IsName.plain {t : Token} (h : t.IsName) : Plain t.lexeme.toList :=
  ⟨h.2.1, h.forall_mem (fun _ => Piece.isPlain_of (by decide)) fun _ =>
    Piece.isPlain_of (by decide)⟩

theorem Token.IsName.writes {t : Token} (h : t.IsName) : t.piece.Writes t.lexeme :=
  ⟨.inl h.plain, rfl⟩

variable {numbers : Float → Prop}

theorem Constant.Legible.writes {value : Constant} (h : value.Legible numbers) :
    (Piece.atom value.view.toList).Writes value.view := by
  refine ⟨?_, rfl⟩
  cases value with
  | nil => exact .inl (by decide)
  | boolean b => cases b <;> exact .inl (by decide)
  | number x =>
      refine .inl ⟨fun hnil => ?_, Decimal.Style.unbroken_write x⟩
      have hbegins := h.1
      unfold BeginsWithDigit at hbegins
      rw [show (Decimal.Style.plain.write x).toList = [] from hnil] at hbegins
      cases hbegins
  | string s =>
      refine .inr ⟨s.toList, ?_, h⟩
      simp [Constant.view]

mutual

/-- The view of a legible expression is the text of its piece. -/
theorem Expr.writes : ∀ e : Expr, AllLegible numbers e.nodes → e.piece.Writes e.view
  | .literal _ _ _, h => (h _ List.mem_cons_self : Constant.Legible _ _).writes
  | .var _ _, h => (h _ List.mem_cons_self : Token.IsName _).writes
  | .assign _ name value, h => by
      simp only [Expr.nodes, allLegible_cons] at h
      obtain ⟨hname, hv⟩ := h
      have hname : name.piece.Writes name.lexeme := Token.IsName.writes hname
      have hword : ("assign " ++ name.lexeme).toList
          = "assign".toList ++ Piece.textAll [name.piece] := by
        simp [Piece.textAll, Token.piece, Piece.text]
      exact .bracket hword (by decide) ⟨hname.good, trivial⟩ (.cons (value.writes hv) .nil)
  | .binary _ left operator right, h => by
      simp only [Expr.nodes, allLegible_cons, allLegible_append] at h
      obtain ⟨hop, hl, hr⟩ := h
      have hplain : ∀ s ∈ binaryOperators, Plain s.toList := by decide
      exact .under (hplain _ hop.2) (.cons (left.writes hl) (.cons (right.writes hr) .nil))
  | .logical _ left operator right, h => by
      simp only [Expr.nodes, allLegible_cons, allLegible_append] at h
      obtain ⟨hop, hl, hr⟩ := h
      have hplain : Plain operator.lexeme.toList := by
        rcases hop with hop | hop
        · rw [hop.2]
          decide
        · rw [hop.2]
          decide
      exact .under hplain (.cons (left.writes hl) (.cons (right.writes hr) .nil))
  | .unary _ operator operand, h => by
      simp only [Expr.nodes, allLegible_cons] at h
      have hplain : ∀ s ∈ unaryOperators, Plain s.toList := by decide
      exact .under (hplain _ h.1.2) (.cons (operand.writes h.2) .nil)
  | .grouping _ inner, h => by
      simp only [Expr.nodes, allLegible_cons] at h
      exact .under (by decide) (.cons (inner.writes h.2) .nil)
  | .call _ callee paren arguments, h => by
      simp only [Expr.nodes, allLegible_cons, allLegible_append] at h
      obtain ⟨-, hc, hall⟩ := h
      exact .under (by decide) (.cons (callee.writes hc) (Expr.writesAll arguments hall))
  | .get _ object name, h => by
      simp only [Expr.nodes, allLegible_cons] at h
      exact .under (by decide) (.cons (object.writes h.2) (.cons (Token.IsName.writes h.1) .nil))
  | .set _ object name value, h => by
      simp only [Expr.nodes, allLegible_cons, allLegible_append] at h
      obtain ⟨hname, hv, ho⟩ := h
      exact .under (by decide) (.cons (object.writes ho)
        (.cons (Token.IsName.writes hname) (.cons (value.writes hv) .nil)))
  | .this _ _, _ => ⟨.inl (by decide), rfl⟩
  | .super _ _ method, h => by
      simp only [Expr.nodes, allLegible_cons] at h
      exact .under (by decide) (.cons (Token.IsName.writes h.1.2) .nil)

theorem Expr.writesAll : ∀ es : List Expr, AllLegible numbers (Expr.nodesAll es) →
    List.Forall₂ Writes (Expr.pieces es) (Expr.viewAll es)
  | [], _ => .nil
  | e :: rest, h =>
      have h := allLegible_append.mp h
      .cons (e.writes h.1) (Expr.writesAll rest h.2)

end

mutual

/-- The view of a legible statement is the text of its piece. -/
theorem Stmt.writes : ∀ s : Stmt, AllLegible numbers s.nodes → s.piece.Writes s.view
  | .expression _ e, h => .under (by decide) (.cons (e.writes (allLegible_cons.mp h).2) .nil)
  | .print _ e, h => .under (by decide) (.cons (e.writes (allLegible_cons.mp h).2) .nil)
  | .varDecl _ name none, h => by
      simp only [Stmt.nodes, allLegible_cons] at h
      exact .under (by decide) (.cons (Token.IsName.writes h.1) .nil)
  | .varDecl _ name (some e), h => by
      simp only [Stmt.nodes, allLegible_cons] at h
      have hsign : (Piece.atom "=".toList).Writes "=" := ⟨.inl (by decide), rfl⟩
      exact .under (by decide)
        (.cons (Token.IsName.writes h.1) (.cons hsign (.cons (e.writes h.2) .nil)))
  | .block _ body, h => .under (by decide) (Stmt.writesAll body (allLegible_cons.mp h).2)
  | .ifThen _ condition thenBranch, h => by
      simp only [Stmt.nodes, allLegible_cons, allLegible_append] at h
      obtain ⟨-, hc, ht⟩ := h
      exact .under (by decide) (.cons (condition.writes hc) (.cons (thenBranch.writes ht) .nil))
  | .ifElse _ condition thenBranch elseBranch, h => by
      simp only [Stmt.nodes, allLegible_cons, allLegible_append] at h
      obtain ⟨-, ⟨hc, ht⟩, he⟩ := h
      exact .under (by decide) (.cons (condition.writes hc)
        (.cons (thenBranch.writes ht) (.cons (elseBranch.writes he) .nil)))
  | .whileLoop _ condition body, h => by
      simp only [Stmt.nodes, allLegible_cons, allLegible_append] at h
      obtain ⟨-, hc, hb⟩ := h
      exact .under (by decide) (.cons (condition.writes hc) (.cons (body.writes hb) .nil))
  | .funDecl f, h => by
      simp only [Stmt.nodes, allLegible_cons] at h
      exact f.writes h.1 h.2
  | .returnStmt _ _ none, _ => .under (by decide) .nil
  | .returnStmt _ _ (some e), h =>
      .under (by decide) (.cons (e.writes (allLegible_cons.mp h).2) .nil)
  | .classDecl _ name none methods, h => by
      simp only [Stmt.nodes, allLegible_cons, allLegible_append] at h
      obtain ⟨⟨hname, hheads⟩, -, hmethods⟩ := h
      have hname := hname.writes
      have hword : ("class " ++ name.lexeme).toList
          = "class".toList ++ Piece.textAll [name.piece] := by
        simp [Piece.textAll, Token.piece, Piece.text]
      exact .bracket hword (by decide) ⟨hname.good, trivial⟩
        (FunDecl.writesAll methods hheads hmethods)
  | .classDecl _ name (some parent) methods, h => by
      simp only [Stmt.nodes, NameRef.nodesOptional, allLegible_cons, allLegible_append] at h
      obtain ⟨⟨hname, hheads⟩, ⟨hparent, -⟩, hmethods⟩ := h
      have hname := hname.writes
      have hparent : parent.name.piece.Writes parent.name.lexeme := Token.IsName.writes hparent
      have hsign : (Piece.atom "<".toList).Good := .inl (by decide)
      have hword : ("class " ++ (name.lexeme ++ " < " ++ parent.name.lexeme)).toList
          = "class".toList ++ Piece.textAll [name.piece, .atom "<".toList, parent.name.piece] := by
        simp [Piece.textAll, Token.piece, Piece.text]
      exact .bracket hword (by decide) ⟨hname.good, hsign, hparent.good, trivial⟩
        (FunDecl.writesAll methods hheads hmethods)

theorem Stmt.writesAll : ∀ body : List Stmt, AllLegible numbers (Stmt.nodesAll body) →
    List.Forall₂ Writes (Stmt.pieces body) (Stmt.viewAll body)
  | [], _ => .nil
  | s :: rest, h =>
      have h := allLegible_append.mp h
      .cons (s.writes h.1) (Stmt.writesAll rest h.2)

theorem FunDecl.writes : ∀ f : FunDecl, f.Legible → AllLegible numbers f.nodes →
    f.piece.Writes f.view
  | .mk _ name params body, hhead, h => by
      have hparams : ∀ param ∈ params.map fun param => param.lexeme.toList, Plain param := by
        intro param hparam
        obtain ⟨token, htoken, rfl⟩ := List.mem_map.mp hparam
        exact (hhead.params token htoken).plain
      have hword : ("fun " ++ name.lexeme ++ "("
            ++ " ".intercalate (params.map Token.lexeme) ++ ")").toList
          = "fun".toList ++ Piece.textAll [.signature name.lexeme.toList
            (params.map fun param => param.lexeme.toList)] := by
        simp [Piece.textAll, Piece.text, String.toList_intercalate, Function.comp_def]
      exact .bracket hword (by decide) ⟨⟨hhead.name.plain, hparams⟩, trivial⟩
        (Stmt.writesAll body h)

theorem FunDecl.writesAll : ∀ fs : List FunDecl, (∀ f ∈ fs, f.Legible) →
    AllLegible numbers (FunDecl.nodesAll fs) →
      List.Forall₂ Writes (FunDecl.pieces fs) (FunDecl.viewAll fs)
  | [], _, _ => .nil
  | f :: rest, hheads, h =>
      have h := allLegible_append.mp h
      .cons (f.writes (hheads f List.mem_cons_self) h.1)
        (FunDecl.writesAll rest (fun g hg => hheads g (List.mem_cons_of_mem f hg)) h.2)

end

end Lox
