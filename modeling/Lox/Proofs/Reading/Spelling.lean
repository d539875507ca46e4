/-
How a tree was spelt. The words that the grammar reads as a tree are those of the
tree itself, except where a loop of the longer kind became other statements. Which
words they are is kept here beside the tree, with what the grammar asks of the parts
(`Stmt.Spells`): enough to read the tree off the same words once more.

A spelling is open when an `else` behind it would belong to it. That is a matter of
the words and not of the tree, for the body of a loop ends up in a block.
-/
import Lox.Proofs.Likeness.Grammar
import Lox.Proofs.Reading.Apart

namespace Lox

-- ============================================================== expressions

/-- No constant lacks its token. -/
def Likeness.written : Likeness where
  nodes _ _ := True
  tokens t t' := t' = t
  constants o _ := o.isSome = true
  functions _ _ _ := True
  spelt same := congrArg Token.lexeme same

/-- An expression as it is read: canonical, and with all its tokens. -/
structure Expr.Verbatim (e : Expr) : Prop where
  canonical : e.Canonical
  written : e.Alike .written e

theorem Likeness.reads_written : Likeness.written.Reads :=
  ⟨fun _ => rfl, fun _ => rfl, fun _ _ _ => trivial⟩

/-- No constant that is read lacks its token. -/
theorem Parser.written_of_assignment {depth : Nat} {s t : Progress} {e : Expr}
    (h : assignment depth s = .ok e t) : e.Alike .written e := by
  have hends := alike_assignment Likeness.reads_written depth s s ⟨rfl, rfl, rfl, fun _ => trivial⟩
  rw [h] at hends
  cases hends with
  | ok found _ => exact found

-- ==================================================================== loops

/-- What stands for the condition of a loop that may have none. -/
inductive LoopCondition : Option Expr → Expr → Prop
  | missing (id : NodeId) : LoopCondition none (.literal id (.boolean true) none)
  | given (e : Expr) : LoopCondition (some e) e

/-- A body with the increment behind it. -/
inductive LoopBody (body : Stmt) : Option Expr → Stmt → Prop
  | plain : LoopBody body none body
  | stepped (id id' : NodeId) (e : Expr) :
      LoopBody body (some e) (.block id [body, .expression id' e])

/-- A loop with the first clause in front of it. -/
inductive LoopBlock (loop : Stmt) : Option Stmt → Stmt → Prop
  | plain : LoopBlock loop none loop
  | started (id : NodeId) (first : Stmt) : LoopBlock loop (some first) (.block id [first, loop])

/-- A statement is what a `for` with these parts becomes. -/
inductive IsLoop (initializer : Option Stmt) (condition increment : Option Expr) (body : Stmt) :
    Stmt → Prop
  | mk {id : NodeId} {condition' : Expr} {body' whole : Stmt}
      (hcondition : LoopCondition condition condition') (hbody : LoopBody body increment body')
      (hwhole : LoopBlock (.whileLoop id condition' body') initializer whole) :
      IsLoop initializer condition increment body whole

variable {initializer : Option Stmt} {condition increment : Option Expr} {body whole : Stmt}

theorem LoopCondition.canonical {e : Expr} (h : LoopCondition condition e)
    (hc : Expr.CanonicalOptional condition) : e.Canonical := by
  cases h with
  | missing => rfl
  | given => exact hc

theorem LoopBody.canonical (h : LoopBody body increment whole)
    (hi : Expr.CanonicalOptional increment) (hbody : body.Canonical)
    (hplain : body.declares = none) : whole.Canonical ∧ whole.declares = none := by
  cases h with
  | plain => exact ⟨hbody, hplain⟩
  | stepped => exact ⟨⟨hbody, hi, trivial⟩, rfl⟩

namespace IsLoop

theorem declares (h : IsLoop initializer condition increment body whole) :
    whole.declares = none := by
  obtain ⟨-, -, hwhole⟩ := h
  cases hwhole <;> rfl

theorem canonical (h : IsLoop initializer condition increment body whole)
    (hfirst : Stmt.CanonicalAll initializer.toList) (hc : Expr.CanonicalOptional condition)
    (hi : Expr.CanonicalOptional increment) (hbody : body.Canonical)
    (hplain : body.declares = none) : whole.Canonical := by
  obtain ⟨hcondition, hstepped, hwhole⟩ := h
  have hloop := And.intro (hcondition.canonical hc) (hstepped.canonical hi hbody hplain)
  cases hwhole with
  | plain => exact hloop
  | started => exact ⟨hfirst.1, hloop, trivial⟩

end IsLoop

/-- The words of the first clause of a `for`. -/
inductive Stmt.Starts (P : Expr → Prop) : Option Stmt → List Word → Prop
  | nothing : Starts P none [.symbol ";"]
  | declaration {id : NodeId} {name : Token} {initializer : Option Expr}
      (hname : name.kind = .identifier) (he : ∀ e ∈ initializer, P e) :
      Starts P (some (.varDecl id name initializer))
        (.keyword "var" :: name.word :: (Expr.wordsInit initializer ++ [.symbol ";"]))
  | expression {id : NodeId} {e : Expr} (he : P e) :
      Starts P (some (.expression id e)) (e.words ++ [.symbol ";"])

-- =============================================================== statements

mutual

/-- The grammar reads these words as this statement. The flag says whether the spelling is open, and
`P` is what is asked of the expressions. -/
inductive Stmt.Spells (P : Expr → Prop) : Stmt → Bool → List Word → Prop
  | expression {id : NodeId} {e : Expr} (he : P e) :
      Stmt.Spells P (.expression id e) false (e.words ++ [.symbol ";"])
  | print {id : NodeId} {e : Expr} (he : P e) :
      Stmt.Spells P (.print id e) false (.keyword "print" :: (e.words ++ [.symbol ";"]))
  | varDecl {id : NodeId} {name : Token} {initializer : Option Expr}
      (hname : name.kind = .identifier) (he : ∀ e ∈ initializer, P e) :
      Stmt.Spells P (.varDecl id name initializer) false
        (.keyword "var" :: name.word :: (Expr.wordsInit initializer ++ [.symbol ";"]))
  | returnStmt {id : NodeId} {keyword : Token} {value : Option Expr}
      (hkeyword : keyword.Is .keyword "return") (he : ∀ e ∈ value, P e) :
      Stmt.Spells P (.returnStmt id keyword value) false
        (.keyword "return" :: (Expr.wordsOptional value ++ [.symbol ";"]))
  | block {id : NodeId} {body : List Stmt} {ws : List Word} (h : Stmt.SpellsAll P body ws) :
      Stmt.Spells P (.block id body) false (.symbol "\x7b" :: (ws ++ [.symbol "\x7d"]))
  | ifThen {id : NodeId} {condition : Expr} {thenBranch : Stmt} {o : Bool} {ws : List Word}
      (hc : P condition) (h : Stmt.Spells P thenBranch o ws)
      (hplain : thenBranch.declares = none) :
      Stmt.Spells P (.ifThen id condition thenBranch) true
        (.keyword "if" :: .symbol "(" :: (condition.words ++ .symbol ")" :: ws))
  | ifElse {id : NodeId} {condition : Expr} {thenBranch elseBranch : Stmt} {o : Bool}
      {ws more : List Word} (hc : P condition) (h : Stmt.Spells P thenBranch false ws)
      (hplain : thenBranch.declares = none) (h' : Stmt.Spells P elseBranch o more)
      (hplain' : elseBranch.declares = none) :
      Stmt.Spells P (.ifElse id condition thenBranch elseBranch) o
        (.keyword "if" :: .symbol "(" :: (condition.words ++ .symbol ")" :: (ws
          ++ .keyword "else" :: more)))
  | whileLoop {id : NodeId} {condition : Expr} {body : Stmt} {o : Bool} {ws : List Word}
      (hc : P condition) (h : Stmt.Spells P body o ws) (hplain : body.declares = none) :
      Stmt.Spells P (.whileLoop id condition body) o
        (.keyword "while" :: .symbol "(" :: (condition.words ++ .symbol ")" :: ws))
  | forLoop {initializer : Option Stmt} {condition increment : Option Expr} {body whole : Stmt}
      {o : Bool} {first ws : List Word} (hfirst : Stmt.Starts P initializer first)
      (hc : ∀ e ∈ condition, P e) (hi : ∀ e ∈ increment, P e)
      (h : Stmt.Spells P body o ws) (hplain : body.declares = none)
      (hloop : IsLoop initializer condition increment body whole) :
      Stmt.Spells P whole o (.keyword "for" :: .symbol "(" :: (first
        ++ (Expr.wordsOptional condition ++ .symbol ";" :: (Expr.wordsOptional increment
          ++ .symbol ")" :: ws))))
  | funDecl {f : FunDecl} {ws : List Word} (h : FunDecl.Spells P f ws) :
      Stmt.Spells P (.funDecl f) false (.keyword "fun" :: ws)
  | classDecl {id : NodeId} {name : Token} {superclass : Option NameRef} {methods : List FunDecl}
      {ws : List Word} (hname : name.kind = .identifier) (hparent : ∀ p ∈ superclass, p.Canonical)
      (h : FunDecl.SpellsAll P methods ws) :
      Stmt.Spells P (.classDecl id name superclass methods) false
        (.keyword "class" :: name.word :: (NameRef.words superclass
          ++ .symbol "\x7b" :: (ws ++ [.symbol "\x7d"])))

inductive Stmt.SpellsAll (P : Expr → Prop) : List Stmt → List Word → Prop
  | nil : Stmt.SpellsAll P [] []
  | cons {a : Stmt} {rest : List Stmt} {o : Bool} {ws more : List Word} (h : Stmt.Spells P a o ws)
      (hrest : Stmt.SpellsAll P rest more) : Stmt.SpellsAll P (a :: rest) (ws ++ more)

inductive FunDecl.Spells (P : Expr → Prop) : FunDecl → List Word → Prop
  | mk {id : NodeId} {name : Token} {params : List Token} {body : List Stmt} {ws : List Word}
      (hname : name.kind = .identifier) (hparams : ∀ param ∈ params, param.kind = .identifier)
      (hfew : params.length ≤ maxArguments) (h : Stmt.SpellsAll P body ws) :
      FunDecl.Spells P (.mk id name params body)
        (name.word :: .symbol "(" :: (Token.wordsAll params ++ .symbol ")" :: .symbol "\x7b"
          :: (ws ++ [.symbol "\x7d"])))

inductive FunDecl.SpellsAll (P : Expr → Prop) : List FunDecl → List Word → Prop
  | nil : FunDecl.SpellsAll P [] []
  | cons {f : FunDecl} {rest : List FunDecl} {ws more : List Word} (h : FunDecl.Spells P f ws)
      (hrest : FunDecl.SpellsAll P rest more) : FunDecl.SpellsAll P (f :: rest) (ws ++ more)

end

section

variable {P : Expr → Prop} {o : Bool} {ws : List Word} {id : NodeId}

theorem Stmt.Spells.starts_varDecl {name : Token} {initializer : Option Expr}
    (h : (Stmt.varDecl id name initializer).Spells P o ws) :
    Stmt.Starts P (some (.varDecl id name initializer)) ws := by
  cases h with
  | varDecl hname he => exact .declaration hname he
  | forLoop _ _ _ _ _ hloop => cases hloop.declares

theorem Stmt.Spells.starts_expression {e : Expr} (h : (Stmt.expression id e).Spells P o ws) :
    Stmt.Starts P (some (.expression id e)) ws := by
  cases h with
  | expression he => exact .expression he
  | forLoop _ _ _ _ _ hloop =>
      obtain ⟨-, -, hwhole⟩ := hloop
      cases hwhole

end

/-- A tree to which an `else` would belong has an open spelling. -/
theorem Stmt.Spells.isOpen {P : Expr → Prop} {a : Stmt} {o : Bool} {ws : List Word}
    (h : a.Spells P o ws) (hopen : a.isOpen = true) : o = true := by
  cases h with
  | ifThen => rfl
  | ifElse _ _ _ h' => exact h'.isOpen hopen
  | whileLoop _ h => exact h.isOpen hopen
  | forLoop _ _ _ h _ hloop =>
      obtain ⟨_, hbody, hwhole⟩ := hloop
      cases hwhole with
      | started => cases hopen
      | plain =>
          cases hbody with
          | plain => exact h.isOpen hopen
          | stepped => cases hopen
  | _ => cases hopen

-- =============================================================== own words

theorem Expr.canonical_of_mem {value : Option Expr} (hc : Expr.CanonicalOptional value) :
    ∀ e ∈ value, e.Canonical := by
  rintro e rfl
  exact hc

mutual

/-- A canonical tree is spelt by its own words. -/
theorem Stmt.spells_words : (a : Stmt) → a.Canonical → a.Spells Expr.Canonical a.isOpen a.words
  | .expression .., hc => .expression hc
  | .print .., hc => .print hc
  | .varDecl .., hc => .varDecl hc.1 (Expr.canonical_of_mem hc.2)
  | .block _ body, hc => .block (Stmt.spellsAll_words body hc)
  | .ifThen _ _ thenBranch, ⟨hc, hthen, hplain⟩ =>
    .ifThen hc (thenBranch.spells_words hthen) hplain
  | .ifElse _ _ thenBranch elseBranch, ⟨hc, hthen, hplain, hclosed, helse, hplain'⟩ =>
    .ifElse hc (hclosed ▸ thenBranch.spells_words hthen) hplain (elseBranch.spells_words helse)
      hplain'
  | .whileLoop _ _ body, ⟨hc, hbody, hplain⟩ => .whileLoop hc (body.spells_words hbody) hplain
  | .funDecl f, hc => .funDecl (f.spells_words hc)
  | .returnStmt _ _ _, ⟨hkeyword, hc⟩ => by
    rw [Stmt.words, Token.Is.word_keyword hkeyword]
    exact .returnStmt hkeyword (Expr.canonical_of_mem hc)
  | .classDecl _ _ _ methods, ⟨hname, hparent, hmethods⟩ =>
    .classDecl hname hparent (FunDecl.spellsAll_words methods hmethods)

theorem Stmt.spellsAll_words : (body : List Stmt) → Stmt.CanonicalAll body →
    Stmt.SpellsAll Expr.Canonical body (Stmt.wordsAll body)
  | [], _ => .nil
  | a :: rest, hc => .cons (a.spells_words hc.1) (Stmt.spellsAll_words rest hc.2)

theorem FunDecl.spells_words : (f : FunDecl) → f.Canonical → f.Spells Expr.Canonical f.words
  | .mk _ _ _ body, ⟨hname, hparams, hfew, hbody⟩ =>
    .mk hname hparams hfew (Stmt.spellsAll_words body hbody)

theorem FunDecl.spellsAll_words : (fs : List FunDecl) → FunDecl.CanonicalAll fs →
    FunDecl.SpellsAll Expr.Canonical fs (FunDecl.wordsAll fs)
  | [], _ => .nil
  | f :: rest, hc => .cons (f.spells_words hc.1) (FunDecl.spellsAll_words rest hc.2)

end

end Lox
