/-
The tree view is unambiguous. Whatever reading brings, a whole program or a part of
one, is canonical and has valid words (`Node.Parsed`), and so have all its nodes; so
every node is legible, and two nodes that look the same are alike in everything that
a view shows (`view_unambiguous`).

A number of more digits than a double can hold is infinite and shown as a word, like
a variable. Such numbers have to be left out.
-/
import Lox.Proofs.View.Distinct
import Lox.Proofs.Likeness.Listing
import Lox.Proofs.Reading.Steady

namespace Lox

-- ============================================================= parsed nodes

/-- Words that can all be read. -/
def Word.AllValid (ws : List Word) : Prop := ∀ w ∈ ws, w.Valid

@[simp] theorem Word.allValid_cons {w : Word} {ws : List Word} :
    Word.AllValid (w :: ws) ↔ w.Valid ∧ Word.AllValid ws := List.forall_mem_cons

@[simp] theorem Word.allValid_append {ws more : List Word} :
    Word.AllValid (ws ++ more) ↔ Word.AllValid ws ∧ Word.AllValid more := List.forall_mem_append

structure Expr.Parsed (e : Expr) : Prop where
  canonical : e.Canonical
  valid : Word.AllValid e.words

structure Stmt.Parsed (s : Stmt) : Prop where
  canonical : s.Canonical
  valid : Word.AllValid s.words

structure FunDecl.Parsed (f : FunDecl) : Prop where
  canonical : f.Canonical
  valid : Word.AllValid f.words

/-- A node that the grammar has, with words that can be read. -/
def Node.Parsed : Node → Prop
  | .expression e => e.Parsed
  | .statement s => s.Parsed

/-- The parts of a list between commas. -/
theorem Expr.allValid_words {es : List Expr} (h : Word.AllValid (Expr.wordsAll es)) :
    ∀ e ∈ es, Word.AllValid e.words := by
  intro e he w hw
  refine h w ?_
  rw [Expr.wordsAll_eq]
  cases es with
  | nil => cases he
  | cons first rest =>
      rw [List.map_cons, Word.commas]
      rcases List.mem_cons.mp he with rfl | he
      · exact List.mem_append_left _ hw
      · refine List.mem_append_right _ (List.mem_flatMap.mpr ⟨e.words, List.mem_map_of_mem he, ?_⟩)
        exact List.mem_cons_of_mem _ hw

theorem FunDecl.Parsed.of_mem {fs : List FunDecl} (hc : FunDecl.CanonicalAll fs)
    (hw : Word.AllValid (FunDecl.wordsAll fs)) : ∀ f ∈ fs, f.Parsed := fun f hf =>
  ⟨FunDecl.canonicalAll_iff.mp hc f hf, fun w hmem => hw w (FunDecl.mem_wordsAll hf w hmem)⟩

mutual

/-- All nodes of a parsed expression are parsed. -/
theorem Expr.parsed_nodes : ∀ e : Expr, e.Parsed → ∀ n ∈ e.nodes, n.Parsed
  | .literal .., h, n, hn | .var .., h, n, hn | .this .., h, n, hn | .super .., h, n, hn => by
      obtain rfl := List.mem_singleton.mp hn
      exact h
  | .assign _ name value, h, n, hn => by
      rcases List.mem_cons.mp hn with rfl | hn
      · exact h
      obtain ⟨hc, hw⟩ := h
      simp only [Expr.words, Word.allValid_cons] at hw
      exact value.parsed_nodes ⟨hc.2, hw.2.2⟩ n hn
  | .binary _ left operator right, h, n, hn => by
      rcases List.mem_cons.mp hn with rfl | hn
      · exact h
      obtain ⟨⟨-, -, -, -, hl, hr⟩, hw⟩ := h
      simp only [Expr.words, Word.allValid_cons, Word.allValid_append] at hw
      rcases List.mem_append.mp hn with hn | hn
      · exact left.parsed_nodes ⟨hl, hw.1⟩ n hn
      · exact right.parsed_nodes ⟨hr, hw.2.2⟩ n hn
  | .logical _ left operator right, h, n, hn => by
      rcases List.mem_cons.mp hn with rfl | hn
      · exact h
      obtain ⟨⟨-, hl, hr⟩, hw⟩ := h
      simp only [Expr.words, Word.allValid_cons, Word.allValid_append] at hw
      rcases List.mem_append.mp hn with hn | hn
      · exact left.parsed_nodes ⟨hl, hw.1⟩ n hn
      · exact right.parsed_nodes ⟨hr, hw.2.2⟩ n hn
  | .unary _ operator operand, h, n, hn => by
      rcases List.mem_cons.mp hn with rfl | hn
      · exact h
      obtain ⟨⟨-, -, -, hc⟩, hw⟩ := h
      simp only [Expr.words, Word.allValid_cons] at hw
      exact operand.parsed_nodes ⟨hc, hw.2⟩ n hn
  | .grouping _ inner, h, n, hn => by
      rcases List.mem_cons.mp hn with rfl | hn
      · exact h
      obtain ⟨hc, hw⟩ := h
      simp only [Expr.words, Word.allValid_cons, Word.allValid_append] at hw
      exact inner.parsed_nodes ⟨hc, hw.2.1⟩ n hn
  | .call _ callee paren arguments, h, n, hn => by
      rcases List.mem_cons.mp hn with rfl | hn
      · exact h
      obtain ⟨⟨-, hcallee, -, -, hall⟩, hw⟩ := h
      simp only [Expr.words, Word.allValid_cons, Word.allValid_append] at hw
      obtain ⟨hfirst, -, harguments, -⟩ := hw
      rcases List.mem_append.mp hn with hn | hn
      · exact callee.parsed_nodes ⟨hcallee, hfirst⟩ n hn
      · refine Expr.parsed_nodesAll arguments (fun e he => ?_) n hn
        exact ⟨Expr.canonicalAll_iff.mp hall e he, Expr.allValid_words harguments e he⟩
  | .get _ object name, h, n, hn => by
      rcases List.mem_cons.mp hn with rfl | hn
      · exact h
      obtain ⟨⟨-, ho, -⟩, hw⟩ := h
      simp only [Expr.words, Word.allValid_append] at hw
      exact object.parsed_nodes ⟨ho, hw.1⟩ n hn
  | .set _ object name value, h, n, hn => by
      rcases List.mem_cons.mp hn with rfl | hn
      · exact h
      obtain ⟨⟨-, ho, -, hv⟩, hw⟩ := h
      simp only [Expr.words, Word.allValid_cons, Word.allValid_append] at hw
      obtain ⟨hobject, -, -, -, hvalue⟩ := hw
      rcases List.mem_append.mp hn with hn | hn
      · exact value.parsed_nodes ⟨hv, hvalue⟩ n hn
      · exact object.parsed_nodes ⟨ho, hobject⟩ n hn

theorem Expr.parsed_nodesAll : ∀ es : List Expr, (∀ e ∈ es, e.Parsed) →
    ∀ n ∈ Expr.nodesAll es, n.Parsed
  | [], _, _, hn => by cases hn
  | e :: rest, h, n, hn => by
      rcases List.mem_append.mp hn with hn | hn
      · exact e.parsed_nodes (h e List.mem_cons_self) n hn
      · exact Expr.parsed_nodesAll rest (fun e' he => h e' (List.mem_cons_of_mem e he)) n hn

end

mutual

/-- All nodes of a parsed statement are parsed. -/
theorem Stmt.parsed_nodes : ∀ s : Stmt, s.Parsed → ∀ n ∈ s.nodes, n.Parsed
  | .expression _ e, h, n, hn | .print _ e, h, n, hn => by
      rcases List.mem_cons.mp hn with rfl | hn
      · exact h
      obtain ⟨hc, hw⟩ := h
      simp only [Stmt.words, Word.allValid_cons, Word.allValid_append] at hw
      exact e.parsed_nodes ⟨hc, by tauto⟩ n hn
  | .varDecl _ name none, h, n, hn => by
      rcases List.mem_cons.mp hn with rfl | hn
      · exact h
      · cases hn
  | .varDecl _ name (some e), h, n, hn => by
      rcases List.mem_cons.mp hn with rfl | hn
      · exact h
      obtain ⟨⟨-, hc⟩, hw⟩ := h
      simp only [Stmt.words, Expr.wordsInit, Word.allValid_cons, Word.allValid_append] at hw
      exact e.parsed_nodes ⟨hc, hw.2.2.1.2⟩ n hn
  | .block _ body, h, n, hn => by
      rcases List.mem_cons.mp hn with rfl | hn
      · exact h
      obtain ⟨hc, hw⟩ := h
      simp only [Stmt.words, Word.allValid_cons, Word.allValid_append] at hw
      exact Stmt.parsed_nodesAll body hc hw.2.1 n hn
  | .ifThen _ condition thenBranch, h, n, hn => by
      rcases List.mem_cons.mp hn with rfl | hn
      · exact h
      obtain ⟨⟨hc, ht, -⟩, hw⟩ := h
      simp only [Stmt.words, Word.allValid_cons, Word.allValid_append] at hw
      obtain ⟨-, -, hcondition, -, hthen⟩ := hw
      rcases List.mem_append.mp hn with hn | hn
      · exact condition.parsed_nodes ⟨hc, hcondition⟩ n hn
      · exact thenBranch.parsed_nodes ⟨ht, hthen⟩ n hn
  | .ifElse _ condition thenBranch elseBranch, h, n, hn => by
      rcases List.mem_cons.mp hn with rfl | hn
      · exact h
      obtain ⟨⟨hc, ht, -, -, he, -⟩, hw⟩ := h
      simp only [Stmt.words, Word.allValid_cons, Word.allValid_append] at hw
      obtain ⟨-, -, hcondition, -, hthen, -, helse⟩ := hw
      rcases List.mem_append.mp hn with hn | hn
      · rcases List.mem_append.mp hn with hn | hn
        · exact condition.parsed_nodes ⟨hc, hcondition⟩ n hn
        · exact thenBranch.parsed_nodes ⟨ht, hthen⟩ n hn
      · exact elseBranch.parsed_nodes ⟨he, helse⟩ n hn
  | .whileLoop _ condition body, h, n, hn => by
      rcases List.mem_cons.mp hn with rfl | hn
      · exact h
      obtain ⟨⟨hc, hb, -⟩, hw⟩ := h
      simp only [Stmt.words, Word.allValid_cons, Word.allValid_append] at hw
      obtain ⟨-, -, hcondition, -, hbody⟩ := hw
      rcases List.mem_append.mp hn with hn | hn
      · exact condition.parsed_nodes ⟨hc, hcondition⟩ n hn
      · exact body.parsed_nodes ⟨hb, hbody⟩ n hn
  | .funDecl f, h, n, hn => by
      rcases List.mem_cons.mp hn with rfl | hn
      · exact h
      · exact f.parsed_nodes ⟨h.canonical, (Word.allValid_cons.mp h.valid).2⟩ n hn
  | .returnStmt _ keyword none, h, n, hn => by
      rcases List.mem_cons.mp hn with rfl | hn
      · exact h
      · cases hn
  | .returnStmt _ keyword (some e), h, n, hn => by
      rcases List.mem_cons.mp hn with rfl | hn
      · exact h
      obtain ⟨⟨-, hc⟩, hw⟩ := h
      simp only [Stmt.words, Expr.wordsOptional, Word.allValid_cons, Word.allValid_append] at hw
      exact e.parsed_nodes ⟨hc, hw.2.1⟩ n hn
  | .classDecl _ name superclass methods, h, n, hn => by
      rcases List.mem_cons.mp hn with rfl | hn
      · exact h
      obtain ⟨⟨-, hparent, hmethods⟩, hw⟩ := h
      simp only [Stmt.words, Word.allValid_cons, Word.allValid_append] at hw
      obtain ⟨-, -, hsuperclass, -, hbodies, -⟩ := hw
      rcases List.mem_append.mp hn with hn | hn
      · cases superclass with
        | none => cases hn
        | some parent =>
            obtain rfl := List.mem_singleton.mp hn
            exact ⟨hparent parent rfl, (Word.allValid_cons.mp hsuperclass).2⟩
      · exact FunDecl.parsed_nodesAll methods (FunDecl.Parsed.of_mem hmethods hbodies) n hn

theorem Stmt.parsed_nodesAll : ∀ body : List Stmt, Stmt.CanonicalAll body →
    Word.AllValid (Stmt.wordsAll body) → ∀ n ∈ Stmt.nodesAll body, n.Parsed
  | [], _, _, _, hn => by cases hn
  | s :: rest, hc, hw, n, hn => by
      simp only [Stmt.wordsAll, Word.allValid_append] at hw
      rcases List.mem_append.mp hn with hn | hn
      · exact s.parsed_nodes ⟨hc.1, hw.1⟩ n hn
      · exact Stmt.parsed_nodesAll rest hc.2 hw.2 n hn

theorem FunDecl.parsed_nodes : ∀ f : FunDecl, f.Parsed → ∀ n ∈ f.nodes, n.Parsed
  | .mk _ name params body, ⟨⟨_, _, _, hc⟩, hw⟩, n, hn => by
      simp only [FunDecl.words, Word.allValid_cons, Word.allValid_append] at hw
      exact Stmt.parsed_nodesAll body hc (by tauto) n hn

theorem FunDecl.parsed_nodesAll : ∀ fs : List FunDecl, (∀ f ∈ fs, f.Parsed) →
    ∀ n ∈ FunDecl.nodesAll fs, n.Parsed
  | [], _, _, hn => by cases hn
  | f :: rest, h, n, hn => by
      rcases List.mem_append.mp hn with hn | hn
      · exact f.parsed_nodes (h f List.mem_cons_self) n hn
      · exact FunDecl.parsed_nodesAll rest (fun g hg => h g (List.mem_cons_of_mem f hg)) n hn

end

-- =========================================================== what is legible

/-- The number that a node writes down. -/
def Node.number? : Node → Option Float
  | .expression (.literal _ (.number x) _) => some x
  | _ => none

variable {allowed : Float → Prop}

theorem Token.IsName.of_valid {t : Token} (hkind : t.kind = .identifier) (h : t.word.Valid) :
    t.IsName :=
  ⟨hkind, Token.word_of_identifier hkind ▸ h⟩

theorem FunDecl.Parsed.legible {f : FunDecl} (h : f.Parsed) : f.Legible := by
  obtain ⟨id, name, params, body⟩ := f
  obtain ⟨⟨hname, hparams, -, -⟩, hw⟩ := h
  simp only [FunDecl.words, Word.allValid_cons, Word.allValid_append] at hw
  obtain ⟨hfirst, -, hrest, -⟩ := hw
  exact ⟨.of_valid hname hfirst, fun param hparam =>
    .of_valid (hparams param hparam) (hrest _ (Token.mem_wordsAll hparam))⟩

/-- What a token denotes can be read off its view. -/
theorem Token.Denotes.legible {token : Token} {value : Constant} (h : token.Denotes value)
    (hvalid : token.word.Valid)
    (hnumber : ∀ x, value = .number x → BeginsWithDigit (Decimal.Style.plain.write x) ∧ allowed x) :
    value.Legible allowed := by
  cases h with
  | number _ => exact hnumber _ rfl
  | string kind =>
      rw [Token.word, kind] at hvalid
      exact hvalid
  | true | false | nil => trivial

/-- A parsed node is legible if its number is. -/
theorem Node.Parsed.legible {n : Node} (h : n.Parsed)
    (hnumber : ∀ x ∈ n.number?, BeginsWithDigit (Decimal.Style.plain.write x) ∧ allowed x) :
    n.Legible allowed := by
  cases n with
  | expression e =>
      obtain ⟨hc, hw⟩ := h
      cases e with
      | literal id value token =>
          cases token with
          | none =>
              obtain rfl : value = .boolean true := hc
              trivial
          | some token =>
              refine Token.Denotes.legible hc (Word.allValid_cons.mp hw).1 fun x hx => ?_
              subst hx
              exact hnumber x rfl
      | var id name => exact .of_valid hc (Word.allValid_cons.mp hw).1
      | assign id name value => exact .of_valid hc.1 (Word.allValid_cons.mp hw).1
      | binary id left operator right => exact ⟨hc.1, hc.2.1⟩
      | logical id left operator right => exact hc.1.imp (·.1) (·.1)
      | unary id operator operand => exact ⟨hc.1, hc.2.1⟩
      | grouping => trivial
      | call id callee paren arguments => exact hc.2.2.1
      | get id object name =>
          simp only [Expr.words, Word.allValid_cons, Word.allValid_append] at hw
          exact .of_valid hc.2.2 hw.2.2.1
      | set id object name value =>
          simp only [Expr.words, Word.allValid_cons, Word.allValid_append] at hw
          exact .of_valid hc.2.2.1 hw.2.2.1
      | this id keyword => exact hc
      | super id keyword method =>
          simp only [Expr.words, Word.allValid_cons] at hw
          exact ⟨hc.1, .of_valid hc.2 hw.2.2.1⟩
  | statement s =>
      obtain ⟨hc, hw⟩ := h
      cases s with
      | varDecl id name initializer =>
          simp only [Stmt.words, Word.allValid_cons] at hw
          exact .of_valid hc.1 hw.2.1
      | funDecl f =>
          simp only [Stmt.words, Word.allValid_cons] at hw
          exact FunDecl.Parsed.legible ⟨hc, hw.2⟩
      | returnStmt id keyword value => exact hc.1
      | classDecl id name superclass methods =>
          simp only [Stmt.words, Word.allValid_cons, Word.allValid_append] at hw
          obtain ⟨-, hname, -, -, hmethods, -⟩ := hw
          exact ⟨.of_valid hc.1 hname, fun f hf =>
            (FunDecl.Parsed.of_mem hc.2.2 hmethods f hf).legible⟩
      | _ => trivial

-- ========================================================= what reading brings

theorem Parser.does_parsed (depth : Nat) : Does (singleExpression depth) fun e _ _ => e.Parsed := by
  refine ((does_expression depth).bind fun e => does_endOfText.bind fun _ => Does.pure e).mono
    fun e s t h => ?_
  obtain ⟨found, u, ⟨hv, hreads⟩, _, _, ⟨hend, -⟩, rfl, rfl⟩ := h
  exact ⟨hv.canonical, hreads.passes.spans.valid hend (Expr.operand _ hv.canonical).chain⟩

/-- An expression that was read is parsed. -/
theorem parsed_of_expression {text : List Char} {nextId : NodeId} {e : Expr}
    (h : (readExpression text nextId).result = .ok e) : e.Parsed := by
  obtain ⟨t, hrun, hclean, -⟩ := exists_run_of_expression h
  exact (Parser.does_parsed _).holds hrun (congrArg List.length hclean)

/-- A statement or an expression that reading brings: a part of an accepted program, with its
methods as functions of their own, or a part of an expression that was read alone. -/
inductive Node.Produced : Node → Prop
  | program {text : List Char} {nextId : NodeId} {body : List Stmt} {n : Node}
      (hread : (readProgram text nextId).program = .ok body) (hn : n ∈ Stmt.nodesAll body) :
      Produced n
  | method {text : List Char} {nextId id : NodeId} {body : List Stmt} {name : Token}
      {superclass : Option NameRef} {methods : List FunDecl} {f : FunDecl}
      (hread : (readProgram text nextId).program = .ok body)
      (hclass : .statement (.classDecl id name superclass methods) ∈ Stmt.nodesAll body)
      (hf : f ∈ methods) : Produced (.statement (.funDecl f))
  | expression {text : List Char} {nextId : NodeId} {e : Expr} {n : Node}
      (hread : (readExpression text nextId).result = .ok e) (hn : n ∈ e.nodes) : Produced n

theorem parsed_of_program {text : List Char} {nextId : NodeId} {body : List Stmt}
    (h : (readProgram text nextId).program = .ok body) : ∀ n ∈ Stmt.nodesAll body, n.Parsed :=
  have hread := readAs_of_program h
  Stmt.parsed_nodesAll body hread.canonical hread.valid

/-- Whatever reading brings is parsed. -/
theorem Node.Produced.parsed {n : Node} (h : n.Produced) : n.Parsed := by
  cases h with
  | program hread hn => exact parsed_of_program hread n hn
  | expression hread hn => exact Expr.parsed_nodes _ (parsed_of_expression hread) n hn
  | @method text nextId id body name superclass methods f hread hclass hf =>
      obtain ⟨hc, hw⟩ := parsed_of_program hread _ hclass
      simp only [Stmt.words, Word.allValid_cons, Word.allValid_append] at hw
      obtain ⟨-, -, -, -, hmethods, -⟩ := hw
      have hparsed := FunDecl.Parsed.of_mem hc.2.2 hmethods f hf
      have hfun : (Word.keyword "fun").Valid := by
        show "fun" ∈ Text.reservedWords
        decide
      exact ⟨hparsed.canonical, Word.allValid_cons.mpr ⟨hfun, hparsed.valid⟩⟩

-- ================================================================= the theorem

namespace Node

def nodes : Node → List Node
  | .expression e => e.nodes
  | .statement s => s.nodes

def view : Node → String
  | .expression e => e.view
  | .statement s => s.view

def piece : Node → Piece
  | .expression e => e.piece
  | .statement s => s.piece

/-- The numbers that are written down in a node and its parts. -/
def numbers (n : Node) : List Float := n.nodes.filterMap Node.number?

/-- Trees of one sort that are alike. -/
inductive Alike (ρ : Likeness) : Node → Node → Prop
  | expression {e e' : Expr} (h : e.Alike ρ e') : Alike ρ (.expression e) (.expression e')
  | statement {s s' : Stmt} (h : s.Alike ρ s') : Alike ρ (.statement s) (.statement s')

theorem Alike.view_eq {ρ : Likeness} {n n' : Node} (h : n.Alike ρ n') : n.view = n'.view := by
  cases h with
  | expression h => exact h.view_eq.symm
  | statement h => exact h.view_eq.symm

/-- A parsed node whose numbers are shown as numbers is legible in all its parts. -/
theorem Parsed.legible_nodes {n : Node} (h : n.Parsed)
    (hdigit : ∀ x ∈ n.numbers, BeginsWithDigit (Decimal.Style.plain.write x)) :
    AllLegible (· ∈ n.numbers) n.nodes := by
  have hparsed : ∀ m ∈ n.nodes, m.Parsed := by
    cases n with
    | expression e => exact e.parsed_nodes h
    | statement s => exact s.parsed_nodes h
  intro m hm
  refine (hparsed m hm).legible fun x hx => ?_
  have hmem : x ∈ n.numbers := List.mem_filterMap.mpr ⟨m, hm, hx⟩
  exact ⟨hdigit x hmem, hmem⟩

theorem piece_writes {n : Node} (h : AllLegible allowed n.nodes) :
    n.piece.Writes n.view := by
  cases n with
  | expression e => exact e.writes h
  | statement s => exact s.writes h

end Node

/-- Forms that statements have. -/
def Form.isStatement : Form → Bool
  | .expression | .print | .varDecl | .block | .ifThen | .ifElse | .whileLoop | .funDecl
  | .returnStmt | .classDecl => true
  | _ => false

/-- No expression looks like a statement. -/
theorem Expr.piece_ne_statement {e : Expr} (h : AllLegible allowed e.nodes) (s : Stmt) :
    e.piece ≠ s.piece := by
  intro heq
  have he : e.form.isStatement = false := by cases e <;> rfl
  have hs : s.form.isStatement = true := by cases s <;> rfl
  have hform : e.form = s.form := by rw [← e.form_piece h, heq, s.form_piece]
  rw [hform, hs] at he
  cases he

/-- Nodes of one piece are alike. -/
theorem Node.alike_of_piece {allowed' : Float → Prop} (hapart : NumbersApart allowed allowed')
    {n n' : Node} (h : AllLegible allowed n.nodes) (h' : AllLegible allowed' n'.nodes)
    (heq : n.piece = n'.piece) : n.Alike .shown n' := by
  cases n with
  | expression e =>
      cases n' with
      | expression e' => exact .expression (Expr.alike_of_piece hapart h h' heq)
      | statement s' => exact absurd heq (Expr.piece_ne_statement h s')
  | statement s =>
      cases n' with
      | expression e' => exact absurd heq.symm (Expr.piece_ne_statement h' s)
      | statement s' => exact .statement (Stmt.alike_of_piece hapart h h' heq)

/-- Of statements and expressions that reading brings, those and only those that are alike look the
same, as long as numbers are shown as such and apart. -/
theorem view_unambiguous {n n' : Node} (hn : n.Produced) (hn' : n'.Produced)
    (hdigit : ∀ x ∈ n.numbers ++ n'.numbers, BeginsWithDigit (Decimal.Style.plain.write x))
    (hapart : ∀ x ∈ n.numbers, ∀ y ∈ n'.numbers,
      Decimal.Style.plain.write x = Decimal.Style.plain.write y → x = y) :
    n.view = n'.view ↔ n.Alike .shown n' := by
  refine ⟨fun heq => ?_, Node.Alike.view_eq⟩
  have h := hn.parsed.legible_nodes fun x hx => hdigit x (List.mem_append_left _ hx)
  have h' := hn'.parsed.legible_nodes fun x hx => hdigit x (List.mem_append_right _ hx)
  have hwrites := Node.piece_writes h
  have hwrites' := Node.piece_writes h'
  have htext : n.piece.text = n'.piece.text := by rw [← hwrites.text, heq, hwrites'.text]
  exact Node.alike_of_piece (fun x y hx hy => hapart x hx y hy) h h'
    (Piece.eq_of_text hwrites.good hwrites'.good htext)

/-- The first statement of a text. -/
def firstStatement? (text : List Char) : Option Stmt :=
  (readProgram text 0).program.toOption.bind List.head?

theorem Node.Produced.of_firstStatement {text : List Char} {s : Stmt}
    (h : firstStatement? text = some s) : (Node.statement s).Produced := by
  unfold firstStatement? at h
  obtain ⟨body, hbody, hs⟩ := Option.bind_eq_some_iff.mp h
  cases hread : (readProgram text 0).program with
  | error faults =>
      rw [hread] at hbody
      cases hbody
  | ok found =>
      rw [hread] at hbody
      cases hbody
      refine .program hread ?_
      obtain ⟨rest, rfl⟩ : ∃ rest, body = s :: rest := by
        cases body with
        | nil => cases hs
        | cons first rest => exact ⟨rest, by rw [Option.some.inj hs]⟩
      exact List.mem_append_left _ s.mem_nodes

/-- A string of brackets, and minus signs of two kinds. -/
def bracketedText : List Char := "class A < B \x7b m(x, y) \x7b return -x - 1 + \") (set x\"; \x7d \x7d".toList

/-- The same on several lines, with another spelling of the number. -/
def relaidText : List Char :=
  "class A < B \x7b\n  // m\n  m(x, y) \x7b\n    return - x-1.0 + \") (set x\";\n  \x7d\n\x7d".toList

theorem view_unambiguous_relaid :
    ∃ s s', firstStatement? bracketedText = some s ∧ firstStatement? relaidText = some s'
      ∧ s.view = "(class A < B (fun m(x y) (return (+ (- (- x) 1.0) \") (set x\"))))"
      ∧ (Node.statement s).numbers ≠ [] ∧ Node.Alike .shown (.statement s) (.statement s') := by
  have hchecked : (firstStatement? bracketedText).any (fun s =>
      (firstStatement? relaidText).any fun s' => decide <|
        s.view = "(class A < B (fun m(x y) (return (+ (- (- x) 1.0) \") (set x\"))))"
          ∧ (Node.statement s).numbers ≠ [] ∧ s.view = s'.view
          ∧ (∀ x ∈ (Node.statement s).numbers ++ (Node.statement s').numbers,
            BeginsWithDigit (Decimal.Style.plain.write x))
          ∧ ∀ x ∈ (Node.statement s).numbers, ∀ y ∈ (Node.statement s').numbers,
            Decimal.Style.plain.write x = Decimal.Style.plain.write y → x = y) = true := by
    decide +kernel
  obtain ⟨s, hs, hrest⟩ := (Option.any_eq_true _ _).mp hchecked
  obtain ⟨s', hs', hfacts⟩ := (Option.any_eq_true _ _).mp hrest
  obtain ⟨hview, hnumbers, hsame, hdigit, hapart⟩ := of_decide_eq_true hfacts
  exact ⟨s, s', hs, hs', hview, hnumbers, (view_unambiguous (.of_firstStatement hs)
    (.of_firstStatement hs') hdigit hapart).mp hsame⟩

end Lox
