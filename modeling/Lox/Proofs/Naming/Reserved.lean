/-
No name is a reserved word. The reader of names refuses a reserved word only where it
ends at a word boundary, and letters of every script belong to words, while a name is
spelt in ASCII alone: a reserved word with a foreign letter behind it is taken for a
name. No accepted text has one. What the grammar allows behind a name never begins with
such a letter, and so the names of a tree are what they look like: spelt like names,
as long as the text allows on both sides, and no reserved words
(`names_stand_alone`).
-/
import Lox.Proofs.Naming.Grammar

namespace Lox

-- ================================================================ the names

mutual

/-- The names of a tree, in the order of the text: what is declared, mentioned or asked for. -/
def Expr.names : Expr → List Token
  | .literal .. | .this .. => []
  | .var _ name => [name]
  | .assign _ name value => name :: value.names
  | .binary _ left _ right | .logical _ left _ right => left.names ++ right.names
  | .unary _ _ operand => operand.names
  | .grouping _ inner => inner.names
  | .call _ callee _ arguments => callee.names ++ Expr.namesAll arguments
  | .get _ object name => object.names ++ [name]
  | .set _ object name value => object.names ++ name :: value.names
  | .super _ _ method => [method]

def Expr.namesAll : List Expr → List Token
  | [] => []
  | e :: rest => e.names ++ Expr.namesAll rest

end

def Expr.namesOptional : Option Expr → List Token
  | none => []
  | some e => e.names

mutual

/-- Functions, methods, parameters, classes and superclasses have names as well. -/
def Stmt.names : Stmt → List Token
  | .expression _ e | .print _ e => e.names
  | .varDecl _ name initializer => name :: Expr.namesOptional initializer
  | .block _ body => Stmt.namesAll body
  | .ifThen _ condition thenBranch => condition.names ++ thenBranch.names
  | .ifElse _ condition thenBranch elseBranch =>
    condition.names ++ thenBranch.names ++ elseBranch.names
  | .whileLoop _ condition body => condition.names ++ body.names
  | .funDecl f => f.names
  | .returnStmt _ _ value => Expr.namesOptional value
  | .classDecl _ name superclass methods =>
    name :: NameRef.tokensOptional superclass ++ FunDecl.namesAll methods

def Stmt.namesAll : List Stmt → List Token
  | [] => []
  | s :: rest => s.names ++ Stmt.namesAll rest

def FunDecl.names : FunDecl → List Token
  | .mk _ name params body => name :: params ++ Stmt.namesAll body

def FunDecl.namesAll : List FunDecl → List Token
  | [] => []
  | f :: rest => f.names ++ FunDecl.namesAll rest

end

/-- The tokens that are spelt as names. -/
def Token.identifiers (tokens : List Token) : List Token :=
  tokens.filter fun t => t.kind = .identifier

namespace Token

@[simp] theorem identifiers_nil : identifiers [] = [] := rfl

@[simp] theorem identifiers_append (tokens more : List Token) :
    identifiers (tokens ++ more) = identifiers tokens ++ identifiers more :=
  List.filter_append _ _

theorem identifiers_cons_of_name {t : Token} (tokens : List Token) (h : t.kind = .identifier) :
    identifiers (t :: tokens) = t :: identifiers tokens :=
  List.filter_cons_of_pos (by simpa using h)

theorem identifiers_cons_of_other {t : Token} (tokens : List Token) (h : t.kind ≠ .identifier) :
    identifiers (t :: tokens) = identifiers tokens :=
  List.filter_cons_of_neg (by simpa using h)

theorem identifiers_of_names {tokens : List Token} (h : ∀ t ∈ tokens, t.kind = .identifier) :
    identifiers tokens = tokens :=
  List.filter_eq_self.mpr fun t ht => by simpa using h t ht

theorem Is.ne_identifier {t : Token} {kind : TokenKind} {spelling : String}
    (h : t.Is kind spelling) (hkind : kind ≠ .identifier) : t.kind ≠ .identifier := by
  rw [h.1]
  exact hkind

theorem Denotes.ne_identifier {t : Token} {value : Constant} (h : t.Denotes value) :
    t.kind ≠ .identifier := by
  cases h with
  | number kind => simp [kind]
  | string kind => simp [kind]
  | true is | false is | nil is => exact is.ne_identifier (by decide)

end Token

open Token

mutual

/-- The names of a tree are its identifiers. -/
theorem Expr.identifiers_tokens : (e : Expr) → e.Canonical → identifiers e.tokens = e.names
  | .literal _ _ none, _ => rfl
  | .literal _ _ (some _), hc => identifiers_cons_of_other [] hc.ne_identifier
  | .var _ _, hc => identifiers_cons_of_name [] hc
  | .assign _ _ value, hc => by
    rw [Expr.tokens, identifiers_cons_of_name _ hc.1, value.identifiers_tokens hc.2, Expr.names]
  | .binary _ left operator right, hc => by
    obtain ⟨hkind, -, -, -, hl, hr⟩ := hc
    rw [Expr.tokens, identifiers_append, identifiers_cons_of_other _ (by simp [hkind]),
      left.identifiers_tokens hl, right.identifiers_tokens hr, Expr.names]
  | .logical _ left operator right, hc => by
    obtain ⟨hop, hl, hr⟩ := hc
    have hkind : operator.kind ≠ .identifier := by
      rcases hop with ⟨hop, -⟩ | ⟨hop, -⟩ <;> exact hop.ne_identifier (by decide)
    rw [Expr.tokens, identifiers_append, identifiers_cons_of_other _ hkind,
      left.identifiers_tokens hl, right.identifiers_tokens hr, Expr.names]
  | .unary _ operator operand, hc => by
    rw [Expr.tokens, identifiers_cons_of_other _ (by simp [hc.1]),
      operand.identifiers_tokens hc.2.2.2, Expr.names]
  | .grouping _ inner, hc => inner.identifiers_tokens hc
  | .call _ callee paren arguments, hc => by
    obtain ⟨-, hcallee, hparen, -, hall⟩ := hc
    rw [Expr.tokens, identifiers_append, identifiers_append, callee.identifiers_tokens hcallee,
      Expr.identifiers_tokensAll arguments hall,
      identifiers_cons_of_other [] (hparen.ne_identifier (by decide)), identifiers_nil,
      List.append_nil, Expr.names]
  | .get _ object _, hc => by
    rw [Expr.tokens, identifiers_append, object.identifiers_tokens hc.2.1,
      identifiers_cons_of_name [] hc.2.2, identifiers_nil, Expr.names]
  | .set _ object _ value, hc => by
    obtain ⟨-, ho, hname, hv⟩ := hc
    rw [Expr.tokens, identifiers_append, object.identifiers_tokens ho,
      identifiers_cons_of_name _ hname, value.identifiers_tokens hv, Expr.names]
  | .this _ _, hc => identifiers_cons_of_other [] (Token.Is.ne_identifier hc (by decide))
  | .super _ _ _, hc => by
    rw [Expr.tokens, identifiers_cons_of_other _ (hc.1.ne_identifier (by decide)),
      identifiers_cons_of_name [] hc.2, identifiers_nil, Expr.names]

theorem Expr.identifiers_tokensAll : (es : List Expr) → Expr.CanonicalAll es →
    identifiers (Expr.tokensAll es) = Expr.namesAll es
  | [], _ => rfl
  | e :: rest, hc => by
    rw [Expr.tokensAll, identifiers_append, e.identifiers_tokens hc.1,
      Expr.identifiers_tokensAll rest hc.2, Expr.namesAll]

end

theorem Expr.identifiers_tokensOptional {value : Option Expr} (hc : Expr.CanonicalOptional value) :
    identifiers (Expr.tokensOptional value) = Expr.namesOptional value := by
  cases value with
  | none => rfl
  | some e => exact e.identifiers_tokens hc

theorem NameRef.identifiers_tokensOptional {parent : Option NameRef}
    (hc : ∀ p ∈ parent, p.Canonical) :
    identifiers (NameRef.tokensOptional parent) = NameRef.tokensOptional parent := by
  cases parent with
  | none => rfl
  | some p => exact identifiers_cons_of_name [] (hc p rfl)

mutual

theorem Stmt.identifiers_tokens : (s : Stmt) → s.Canonical → identifiers s.tokens = s.names
  | .expression _ e, hc | .print _ e, hc => e.identifiers_tokens hc
  | .varDecl _ _ _, hc => by
    rw [Stmt.tokens, identifiers_cons_of_name _ hc.1, Expr.identifiers_tokensOptional hc.2,
      Stmt.names]
  | .block _ body, hc => Stmt.identifiers_tokensAll body hc
  | .ifThen _ condition thenBranch, hc => by
    rw [Stmt.tokens, identifiers_append, condition.identifiers_tokens hc.1,
      thenBranch.identifiers_tokens hc.2.1, Stmt.names]
  | .ifElse _ condition thenBranch elseBranch, hc => by
    obtain ⟨hcondition, hthen, -, -, helse, -⟩ := hc
    rw [Stmt.tokens, identifiers_append, identifiers_append,
      condition.identifiers_tokens hcondition, thenBranch.identifiers_tokens hthen,
      elseBranch.identifiers_tokens helse, Stmt.names]
  | .whileLoop _ condition body, hc => by
    rw [Stmt.tokens, identifiers_append, condition.identifiers_tokens hc.1,
      body.identifiers_tokens hc.2.1, Stmt.names]
  | .funDecl f, hc => f.identifiers_tokens hc
  | .returnStmt _ _ _, hc => by
    rw [Stmt.tokens, identifiers_cons_of_other _ (hc.1.ne_identifier (by decide)),
      Expr.identifiers_tokensOptional hc.2, Stmt.names]
  | .classDecl _ _ _ methods, hc => by
    obtain ⟨hname, hparent, hmethods⟩ := hc
    rw [Stmt.tokens, identifiers_append, identifiers_cons_of_name _ hname,
      NameRef.identifiers_tokensOptional hparent, FunDecl.identifiers_tokensAll methods hmethods,
      Stmt.names]

theorem Stmt.identifiers_tokensAll : (body : List Stmt) → Stmt.CanonicalAll body →
    identifiers (Stmt.tokensAll body) = Stmt.namesAll body
  | [], _ => rfl
  | s :: rest, hc => by
    rw [Stmt.tokensAll, identifiers_append, s.identifiers_tokens hc.1,
      Stmt.identifiers_tokensAll rest hc.2, Stmt.namesAll]

theorem FunDecl.identifiers_tokens : (f : FunDecl) → f.Canonical → identifiers f.tokens = f.names
  | .mk _ _ params body, hc => by
    obtain ⟨hname, hparams, -, hbody⟩ := hc
    rw [FunDecl.tokens, identifiers_append, identifiers_cons_of_name _ hname,
      identifiers_of_names hparams, Stmt.identifiers_tokensAll body hbody, FunDecl.names]

theorem FunDecl.identifiers_tokensAll : (fs : List FunDecl) → FunDecl.CanonicalAll fs →
    identifiers (FunDecl.tokensAll fs) = FunDecl.namesAll fs
  | [], _ => rfl
  | f :: rest, hc => by
    rw [FunDecl.tokensAll, identifiers_append, f.identifiers_tokens hc.1,
      FunDecl.identifiers_tokensAll rest hc.2, FunDecl.namesAll]

end

-- ================================================================= spelling

mutual

/-- Every token of a tree is among its words. -/
theorem Expr.word_mem : (e : Expr) → ∀ t ∈ e.tokens, t.word ∈ e.words
  | .literal _ _ none, _, ht => by cases ht
  | .literal _ _ (some _), t, ht | .var .., t, ht | .this .., t, ht | .super .., t, ht => by
    simp only [Expr.tokens, Option.toList_some, List.mem_cons, List.not_mem_nil, or_false] at ht
    rcases ht with rfl | rfl <;> simp [Expr.words]
  | .assign _ _ value, t, ht => by
    have := value.word_mem t
    simp only [Expr.tokens, Expr.words, List.mem_cons] at ht ⊢
    grind
  | .binary _ left _ right, t, ht | .logical _ left _ right, t, ht => by
    have := left.word_mem t
    have := right.word_mem t
    simp only [Expr.tokens, Expr.words, List.mem_cons, List.mem_append] at ht ⊢
    grind
  | .unary _ _ inner, t, ht | .grouping _ inner, t, ht => by
    have := inner.word_mem t
    simp only [Expr.tokens, Expr.words, List.mem_cons, List.mem_append] at ht ⊢
    grind
  | .get _ object _, t, ht => by
    have := object.word_mem t
    simp only [Expr.tokens, Expr.words, List.mem_cons, List.mem_append] at ht ⊢
    grind
  | .set _ object _ value, t, ht => by
    have := object.word_mem t
    have := value.word_mem t
    simp only [Expr.tokens, Expr.words, List.mem_cons, List.mem_append] at ht ⊢
    grind
  | .call _ callee _ arguments, t, ht => by
    have := callee.word_mem t
    have : t ∈ Expr.tokensAll arguments → t.word ∈ Expr.wordsAll arguments := by
      intro ht
      obtain ⟨e, he, ht⟩ := Expr.mem_tokensAll.mp ht
      rw [Expr.wordsAll_eq]
      exact Word.mem_commas (List.mem_map.mpr ⟨e, he, rfl⟩) (Expr.word_memAll arguments e he t ht)
    simp only [Expr.tokens, Expr.words, List.mem_cons, List.mem_append] at ht ⊢
    grind

theorem Expr.word_memAll : (es : List Expr) → ∀ e ∈ es, ∀ t ∈ e.tokens, t.word ∈ e.words
  | [], _, he, _, _ => by cases he
  | e :: rest, _, he, t, ht => by
    rcases List.mem_cons.mp he with heq | he
    · rw [heq] at ht ⊢
      exact e.word_mem t ht
    · exact Expr.word_memAll rest _ he t ht

end

theorem Expr.word_memOptional (value : Option Expr) :
    ∀ t ∈ Expr.tokensOptional value, t.word ∈ Expr.wordsOptional value := by
  cases value with
  | none => nofun
  | some e => exact e.word_mem

theorem Expr.word_memInit (value : Option Expr) :
    ∀ t ∈ Expr.tokensOptional value, t.word ∈ Expr.wordsInit value := by
  cases value with
  | none => nofun
  | some e => exact fun t ht => List.mem_cons_of_mem _ (e.word_mem t ht)

theorem NameRef.word_mem (parent : Option NameRef) :
    ∀ t ∈ NameRef.tokensOptional parent, t.word ∈ NameRef.words parent := by
  cases parent with
  | none => nofun
  | some p => simp [NameRef.tokensOptional, NameRef.words]

mutual

theorem Stmt.word_mem : (s : Stmt) → ∀ t ∈ s.tokens, t.word ∈ s.words
  | .expression _ e, t, ht | .print _ e, t, ht => by
    have := e.word_mem t
    simp only [Stmt.tokens, Stmt.words, List.mem_cons, List.mem_append] at ht ⊢
    grind
  | .varDecl _ _ initializer, t, ht => by
    have := Expr.word_memInit initializer t
    simp only [Stmt.tokens, Stmt.words, List.mem_cons, List.mem_append] at ht ⊢
    grind
  | .block _ body, t, ht => by
    have := Stmt.word_memAll body t
    simp only [Stmt.tokens, Stmt.words, List.mem_cons, List.mem_append] at ht ⊢
    grind
  | .ifThen _ condition body, t, ht | .whileLoop _ condition body, t, ht => by
    have := condition.word_mem t
    have := body.word_mem t
    simp only [Stmt.tokens, Stmt.words, List.mem_cons, List.mem_append] at ht ⊢
    grind
  | .ifElse _ condition thenBranch elseBranch, t, ht => by
    have := condition.word_mem t
    have := thenBranch.word_mem t
    have := elseBranch.word_mem t
    simp only [Stmt.tokens, Stmt.words, List.mem_cons, List.mem_append] at ht ⊢
    grind
  | .funDecl f, t, ht => by
    have := f.word_mem t
    simp only [Stmt.tokens, Stmt.words, List.mem_cons] at ht ⊢
    grind
  | .returnStmt _ _ value, t, ht => by
    have := Expr.word_memOptional value t
    simp only [Stmt.tokens, Stmt.words, List.mem_cons, List.mem_append] at ht ⊢
    grind
  | .classDecl _ _ superclass methods, t, ht => by
    have := NameRef.word_mem superclass t
    have := FunDecl.word_memAll methods t
    simp only [Stmt.tokens, Stmt.words, List.mem_cons, List.mem_append] at ht ⊢
    grind

theorem Stmt.word_memAll : (body : List Stmt) → ∀ t ∈ Stmt.tokensAll body,
    t.word ∈ Stmt.wordsAll body
  | [], _, ht => by cases ht
  | s :: rest, t, ht => by
    rw [Stmt.tokensAll, List.mem_append] at ht
    rw [Stmt.wordsAll, List.mem_append]
    exact ht.imp (s.word_mem t) (Stmt.word_memAll rest t)

theorem FunDecl.word_mem : (f : FunDecl) → ∀ t ∈ f.tokens, t.word ∈ f.words
  | .mk _ _ params body, t, ht => by
    have : t ∈ params → t.word ∈ Token.wordsAll params := Token.mem_wordsAll
    have := Stmt.word_memAll body t
    simp only [FunDecl.tokens, FunDecl.words, List.mem_cons, List.mem_append] at ht ⊢
    grind

theorem FunDecl.word_memAll : (fs : List FunDecl) → ∀ t ∈ FunDecl.tokensAll fs,
    t.word ∈ FunDecl.wordsAll fs
  | [], _, ht => by cases ht
  | f :: rest, t, ht => by
    rw [FunDecl.tokensAll, List.mem_append] at ht
    rw [FunDecl.wordsAll, List.mem_append]
    exact ht.imp (f.word_mem t) (FunDecl.word_memAll rest t)

end

-- ============================================================ accepted texts

/-- Every token of an accepted text that is a name stands alone in the text. -/
theorem settled_of_program {text : List Char} {nextId : NodeId} {body : List Stmt}
    (h : (readProgram text nextId).program = .ok body) :
    Token.AllSettled text (Stmt.tokensAll body) := by
  obtain ⟨t, hrun, hclean, -⟩ := exists_run_of_program h
  have hfresh : (Cursor.start text).Fresh text := ⟨Cursor.on_start text, .inl rfl⟩
  exact (Parser.Does.holds (Parser.Leads.program _) hrun (by rw [hclean]) hfresh).1

/-- The names of an accepted text are its identifiers. Each is spelt as a name is, stands in the
text with nothing on either side that could belong to it, and is no reserved word, neither `this`
nor `super` in particular. -/
theorem names_stand_alone {text : List Char} {nextId : NodeId} {body : List Stmt}
    (h : (readProgram text nextId).program = .ok body) :
    Token.identifiers (Stmt.tokensAll body) = Stmt.namesAll body
      ∧ ∀ t ∈ Stmt.namesAll body, t.StandsAlone text ∧ t.lexeme ∉ Text.reservedWords
        ∧ t.lexeme ≠ "this" ∧ t.lexeme ≠ "super" := by
  have hread := readAs_of_program h
  have hnames := Stmt.identifiers_tokensAll body hread.canonical
  refine ⟨hnames, fun t ht => ?_⟩
  rw [← hnames] at ht
  obtain ⟨htoken, hkind⟩ := List.mem_filter.mp ht
  have hkind : t.kind = .identifier := of_decide_eq_true hkind
  have hvalid := hread.valid _ (Stmt.word_memAll body t htoken)
  rw [Token.word_of_identifier hkind] at hvalid
  have hfree : t.lexeme ∉ Text.reservedWords := hvalid.2.2
  refine ⟨settled_of_program h t htoken hkind, hfree, ?_, ?_⟩
  · exact fun hthis => hfree (hthis ▸ by decide)
  · exact fun hsuper => hfree (hsuper ▸ by decide)

/-- A reserved word with a foreign letter behind it is taken for a name, and the letter refused. -/
example : (readProgram "var thisé = 1;".toList 0).program.toOption.isNone = true := by
  decide +kernel

/-- Foreign letters stand in comments and strings, and names that begin like reserved words. -/
def neighbouringText : List Char :=
  "class thisOne < superb { init(form) { this.ifs = form; } } // é\nvar var_ = \"ü\";".toList

theorem names_stand_alone_neighbouring :
    ∃ body, (readProgram neighbouringText 0).program = .ok body
      ∧ (Stmt.namesAll body).map Token.lexeme
        = ["thisOne", "superb", "init", "form", "ifs", "form", "var_"]
      ∧ ∀ t ∈ Stmt.namesAll body, t.StandsAlone neighbouringText := by
  have haccepted : (readProgram neighbouringText 0).program.toOption.map
      (fun body => (Stmt.namesAll body).map Token.lexeme)
        = some ["thisOne", "superb", "init", "form", "ifs", "form", "var_"] := by decide +kernel
  cases h : (readProgram neighbouringText 0).program with
  | error faults =>
      rw [h] at haccepted
      cases haccepted
  | ok body =>
      rw [h] at haccepted
      exact ⟨body, rfl, Option.some.inj haccepted,
        fun t ht => ((names_stand_alone h).2 t ht).1⟩

end Lox
