/-
Words that stand side by side. The grammar never puts two words next to each
other that could run into one: a number never follows a name, and what follows
an operator is no equals sign. So white space is needed between letters only, and
the words of a text are those that the readers found.
-/
import Lox.Proofs.Reading.Expression

namespace Lox

namespace Word

/-- Words of an operand: it may stand behind punctuation and keywords, and before anything that
is no number. -/
structure Operand (ws : List Word) : Prop where
  chain : ws.IsChain Apart
  first : ∀ w ∈ ws.head?, ∀ s, (symbol s).Apart w
  last : ∀ w ∈ ws.getLast?, ∀ next : Word, (∀ s, next ≠ .number s) → w.Apart next

/-- A word that separates: no operand, and with no sign behind it that could belong to it. -/
inductive Divides : Word → Prop
  | symbol (s : String) : Divides (.symbol s)
  | keyword (s : String) : Divides (.keyword s)

variable {ws more : List Word} {w : Word}

theorem Divides.ne_number (h : w.Divides) (s : String) : w ≠ .number s := by
  cases h <;> nofun

theorem Divides.apart {next : Word} (h : w.Divides) (hnext : ∀ s, (Word.symbol s).Apart next) :
    w.Apart next := by
  cases h with
  | symbol s => exact hnext s
  | keyword s => trivial

theorem apart_symbol_of {s : String} (hs : s ∉ ["!", "<", ">"]) (next : Word) :
    (symbol s).Apart next := by
  cases next with
  | symbol t => exact fun h => absurd h hs
  | _ => trivial

namespace Operand

theorem name (s : String) : Operand [.name s] where
  chain := List.isChain_singleton _
  first w hw s := by
    cases hw
    trivial
  last w hw next hnext := by
    cases hw
    cases next with
    | number t => exact absurd rfl (hnext t)
    | _ => trivial

theorem number (s : String) : Operand [.number s] where
  chain := List.isChain_singleton _
  first w hw s := by
    cases hw
    trivial
  last w hw next hnext := by
    cases hw
    trivial

theorem string (s : String) : Operand [.string s] where
  chain := List.isChain_singleton _
  first w hw s := by
    cases hw
    trivial
  last w hw next hnext := by
    cases hw
    trivial

theorem keyword (s : String) : Operand [.keyword s] where
  chain := List.isChain_singleton _
  first w hw s := by
    cases hw
    trivial
  last w hw next hnext := by
    cases hw
    trivial

/-- Two operands with something between them. -/
theorem between (h : Operand ws) (hne : ws ≠ []) (hw : w.Divides) (h' : Operand more)
    (hmore : more ≠ []) : Operand (ws ++ w :: more) where
  chain := by
    refine List.isChain_append.mpr ⟨h.chain, List.isChain_cons.mpr ⟨fun next hn => ?_, h'.chain⟩,
      fun x hx y hy => ?_⟩
    · exact hw.apart (h'.first next hn)
    · cases hy
      exact h.last x hx w hw.ne_number
  first x hx := by
    rw [List.head?_append_of_ne_nil _ hne] at hx
    exact h.first x hx
  last x hx := by
    rw [List.getLast?_append_of_ne_nil _ (List.cons_ne_nil _ _)] at hx
    obtain ⟨y, rest, rfl⟩ := List.exists_cons_of_ne_nil hmore
    rw [List.getLast?_cons_cons] at hx
    exact h'.last x hx

/-- An operand behind a sign. -/
theorem behind {s : String} (hs : s ≠ "=" ∧ s ≠ "==") (h : Operand ws) (hne : ws ≠ []) :
    Operand (.symbol s :: ws) where
  chain := List.isChain_cons.mpr ⟨fun next hn => h.first next hn s, h.chain⟩
  first x hx t := by
    cases hx
    exact fun _ => hs
  last x hx := by
    obtain ⟨y, rest, rfl⟩ := List.exists_cons_of_ne_nil hne
    rw [List.getLast?_cons_cons] at hx
    exact h.last x hx

/-- Words in brackets. -/
theorem brackets (h : ws = [] ∨ Operand ws) : Operand (.symbol "(" :: (ws ++ [.symbol ")"])) where
  chain := by
    refine List.isChain_cons.mpr ⟨fun next _ => apart_symbol_of (by decide) next, ?_⟩
    rcases h with rfl | h
    · exact List.isChain_singleton _
    · refine List.isChain_append.mpr ⟨h.chain, List.isChain_singleton _, fun x hx y hy => ?_⟩
      cases hy
      exact h.last x hx _ nofun
  first x hx t := by
    cases hx
    exact fun _ => ⟨by decide, by decide⟩
  last x hx next _ := by
    rw [← List.cons_append, List.getLast?_append_of_ne_nil _ (List.cons_ne_nil _ _)] at hx
    cases hx
    exact apart_symbol_of (by decide) next

/-- Brackets behind an operand. -/
theorem append (h : Operand ws) (hne : ws ≠ []) (h' : Operand (.symbol "(" :: more)) :
    Operand (ws ++ .symbol "(" :: more) where
  chain := by
    refine List.isChain_append.mpr ⟨h.chain, h'.chain, fun x hx y hy => ?_⟩
    cases hy
    exact h.last x hx _ nofun
  first x hx := by
    rw [List.head?_append_of_ne_nil _ hne] at hx
    exact h.first x hx
  last x hx := by
    rw [List.getLast?_append_of_ne_nil _ (List.cons_ne_nil _ _)] at hx
    exact h'.last x hx

theorem commasMore {items : List (List Word)} (h : Operand ws) (hne : ws ≠ [])
    (hall : ∀ item ∈ items, Operand item ∧ item ≠ []) : Operand (ws ++ Word.commasMore items) := by
  induction items generalizing ws with
  | nil =>
      rw [Word.commasMore, List.flatMap_nil, List.append_nil]
      exact h
  | cons item rest ih =>
      obtain ⟨hitem, hitem_ne⟩ := hall item List.mem_cons_self
      have hboth := h.between hne (.symbol ",") hitem hitem_ne
      have hfurther := ih hboth (by simp) fun x hx => hall x (List.mem_cons_of_mem _ hx)
      rw [Word.commasMore, List.flatMap_cons, ← List.append_assoc]
      exact hfurther

theorem commas {items : List (List Word)} (hall : ∀ item ∈ items, Operand item ∧ item ≠ []) :
    Word.commas items = [] ∨ Operand (Word.commas items) := by
  cases items with
  | nil => exact .inl rfl
  | cons item rest =>
      obtain ⟨hitem, hne⟩ := hall item List.mem_cons_self
      exact .inr (hitem.commasMore hne fun x hx => hall x (List.mem_cons_of_mem _ hx))

end Operand

end Word

open Word (Operand)

theorem Token.word_of_identifier {token : Token} (h : token.kind = .identifier) :
    token.word = .name token.lexeme := by
  rw [Token.word, h]

theorem Token.word_of_operator {token : Token} (h : token.kind = .operator) :
    token.word = .symbol token.lexeme := by
  rw [Token.word, h]

theorem Token.Is.word_keyword {token : Token} {spelling : String}
    (h : token.Is .keyword spelling) : token.word = .keyword spelling := by
  rw [Token.word, h.1, h.2]

theorem Token.Is.word_rightParen {token : Token} {spelling : String}
    (h : token.Is .rightParen spelling) : token.word = .symbol spelling := by
  rw [Token.word, h.1, h.2]

theorem Token.operand_of_identifier {token : Token} (h : token.kind = .identifier) :
    Operand [token.word] := by
  rw [Token.word_of_identifier h]
  exact .name _

theorem Token.Denotes.operand {token : Token} {value : Constant} (h : token.Denotes value) :
    Operand [token.word] := by
  cases h with
  | number kind =>
      rw [Token.word, kind]
      exact .number _
  | string kind =>
      rw [Token.word, kind]
      exact .string _
  | true is | false is | nil is =>
      rw [is.word_keyword]
      exact .keyword _

theorem Token.divides_logical {token : Token}
    (h : token.kind = .logicalOr ∨ token.kind = .logicalAnd) : token.word.Divides := by
  rcases h with h | h <;> rw [Token.word, h] <;> exact .keyword _

mutual

/-- The words of an expression are the words of an operand. -/
theorem Expr.operand : (e : Expr) → e.Canonical → Operand e.words
  | .literal _ _ none, _ => .keyword "true"
  | .literal _ _ (some _), h => h.operand
  | .var _ _, h => Token.operand_of_identifier h
  | .assign _ name value, h => by
    have hname := Token.operand_of_identifier h.1
    exact hname.between (List.cons_ne_nil _ _) (.symbol "=") (value.operand h.2) value.words_ne_nil
  | .binary _ left operator right, h => by
    obtain ⟨hkind, -, -, -, hl, hr⟩ := h
    refine (left.operand hl).between left.words_ne_nil ?_ (right.operand hr) right.words_ne_nil
    rw [Token.word_of_operator hkind]
    exact .symbol _
  | .logical _ left operator right, h => by
    obtain ⟨hop, hl, hr⟩ := h
    refine (left.operand hl).between left.words_ne_nil ?_ (right.operand hr) right.words_ne_nil
    rcases hop with ⟨hop, -⟩ | ⟨hop, -⟩
    · exact Token.divides_logical (.inl hop.1)
    · exact Token.divides_logical (.inr hop.1)
  | .unary _ operator operand, h => by
    obtain ⟨hkind, hlexeme, -, hc⟩ := h
    rw [Expr.words, Token.word_of_operator hkind]
    have hne : ∀ s ∈ unaryOperators, s ≠ "=" ∧ s ≠ "==" := by decide
    exact (operand.operand hc).behind (hne _ hlexeme) operand.words_ne_nil
  | .grouping _ inner, h => Word.Operand.brackets (.inr (inner.operand h))
  | .call _ callee paren arguments, h => by
    obtain ⟨-, hc, hparen, -, hall⟩ := h
    rw [Expr.words, hparen.word_rightParen, Expr.wordsAll_eq]
    refine (callee.operand hc).append callee.words_ne_nil (.brackets (Word.Operand.commas ?_))
    intro item hitem
    exact Expr.operandAll arguments hall item hitem
  | .get _ object name, h => by
    obtain ⟨-, ho, hname⟩ := h
    exact (object.operand ho).between object.words_ne_nil (.symbol ".")
      (Token.operand_of_identifier hname) (List.cons_ne_nil _ _)
  | .set _ object name value, h => by
    obtain ⟨-, ho, hname, hv⟩ := h
    have hvalue := (Token.operand_of_identifier hname).between (List.cons_ne_nil _ _) (.symbol "=")
      (value.operand hv) value.words_ne_nil
    exact (object.operand ho).between object.words_ne_nil (.symbol ".") hvalue
      (List.cons_ne_nil _ _)
  | .this _ _, h => by
    rw [Expr.words, Token.Is.word_keyword h]
    exact .keyword _
  | .super _ keyword method, h => by
    rw [Expr.words, h.1.word_keyword]
    exact (Word.Operand.keyword _).between (List.cons_ne_nil _ _) (.symbol ".")
      (Token.operand_of_identifier h.2) (List.cons_ne_nil _ _)

theorem Expr.operandAll : (es : List Expr) → Expr.CanonicalAll es →
    ∀ item ∈ es.map Expr.words, Operand item ∧ item ≠ []
  | [], _, _, hitem => by cases hitem
  | e :: rest, h, item, hitem => by
    rw [List.map_cons] at hitem
    rcases List.mem_cons.mp hitem with rfl | hitem
    · exact ⟨e.operand h.1, e.words_ne_nil⟩
    · exact Expr.operandAll rest h.2 item hitem

end

end Lox
