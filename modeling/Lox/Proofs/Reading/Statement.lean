/-
What the readers of statements read. A `for` becomes other statements, so the
words that were read are those of the tree only where no `for` is among them; in
any case every word of the tree that a program can choose was read (`Writes`), and
the words that were read spell the tree (`Stmt.Spells`).
-/
import Lox.Proofs.Reading.Apart
import Lox.Proofs.Reading.Refusal
import Lox.Proofs.Reading.Spelling

namespace Lox

-- ================================================================ statements

theorem Stmt.canonicalAll_iff {body : List Stmt} :
    Stmt.CanonicalAll body ↔ ∀ s ∈ body, s.Canonical := by
  induction body with
  | nil => simp [Stmt.CanonicalAll]
  | cons s rest ih => simp [Stmt.CanonicalAll, ih]

theorem Stmt.wordsAll_eq (body : List Stmt) : Stmt.wordsAll body = body.flatMap Stmt.words := by
  induction body with
  | nil => rfl
  | cons s rest ih => rw [Stmt.wordsAll, ih, List.flatMap_cons]

theorem Stmt.idsAll_eq (body : List Stmt) : Stmt.idsAll body = body.flatMap Stmt.ids := by
  unfold Stmt.idsAll
  induction body with
  | nil => rfl
  | cons s rest ih => rw [Stmt.nodesAll, List.map_append, ih, List.flatMap_cons, Stmt.ids]

theorem FunDecl.canonicalAll_iff {fs : List FunDecl} :
    FunDecl.CanonicalAll fs ↔ ∀ f ∈ fs, f.Canonical := by
  induction fs with
  | nil => simp [FunDecl.CanonicalAll]
  | cons f rest ih => simp [FunDecl.CanonicalAll, ih]

theorem FunDecl.wordsAll_eq (fs : List FunDecl) :
    FunDecl.wordsAll fs = fs.flatMap FunDecl.words := by
  induction fs with
  | nil => rfl
  | cons f rest ih => rw [FunDecl.wordsAll, ih, List.flatMap_cons]

theorem FunDecl.idsAll_eq (fs : List FunDecl) : FunDecl.idsAll fs = fs.flatMap FunDecl.ids := by
  unfold FunDecl.idsAll
  induction fs with
  | nil => rfl
  | cons f rest ih => rw [FunDecl.nodesAll, List.map_append, ih, List.flatMap_cons, FunDecl.ids]

/-- Methods have a number of their own, which no run enters. -/
theorem FunDecl.ids_sublist (fs : List FunDecl) :
    (fs.flatMap FunDecl.ids).Sublist (fs.flatMap fun f => f.id :: f.ids) := by
  induction fs with
  | nil => exact .slnil
  | cons f rest ih =>
      rw [List.flatMap_cons, List.flatMap_cons]
      exact (List.sublist_cons_self _ _).append ih

namespace Word

variable {ws more own others : List Word} {w : Word}

/-- Words that anything may follow. -/
structure Sealed (ws : List Word) : Prop where
  chain : ws.IsChain Apart
  last : ∀ w ∈ ws.getLast?, ∀ next : Word, w.Apart next

theorem Sealed.nil : Sealed [] := ⟨.nil, nofun⟩

theorem Sealed.one (h : ∀ next : Word, w.Apart next) : Sealed [w] := by
  refine ⟨List.isChain_singleton _, fun x hx => ?_⟩
  cases hx
  exact h

theorem Sealed.keyword (s : String) : Sealed [.keyword s] := .one fun _ => trivial

theorem Sealed.symbol (s : String) (hs : s ∉ ["!", "<", ">"]) : Sealed [.symbol s] :=
  .one (apart_symbol_of hs)

theorem Sealed.append (h : Sealed ws) (h' : Sealed more) : Sealed (ws ++ more) where
  chain := List.isChain_append.mpr ⟨h.chain, h'.chain, fun x hx y _ => h.last x hx y⟩
  last x hx next := by
    by_cases hmore : more = []
    · rw [hmore, List.append_nil] at hx
      exact h.last x hx next
    · rw [List.getLast?_append_of_ne_nil _ hmore] at hx
      exact h'.last x hx next

/-- An operand is sealed by punctuation behind it. -/
theorem Operand.seal (h : Operand ws) (s : String) (hs : s ∉ ["!", "<", ">"]) :
    Sealed (ws ++ [.symbol s]) where
  chain := by
    refine List.isChain_append.mpr ⟨h.chain, List.isChain_singleton _, fun x hx y hy => ?_⟩
    cases hy
    exact h.last x hx _ nofun
  last x hx next := by
    rw [List.getLast?_append_of_ne_nil _ (List.cons_ne_nil _ _)] at hx
    cases hx
    exact apart_symbol_of hs next

/-- Words that were read, and those of the tree they became. -/
structure Writes (ws own : List Word) : Prop where
  is_sealed : Sealed ws
  same : .keyword "for" ∉ ws → ws = own
  known : ∀ w ∈ own, w ∈ ws ∨ w.Fixed

theorem Sealed.writes (h : Sealed ws) : Writes ws ws := ⟨h, fun _ => rfl, fun _ hw => .inl hw⟩

theorem Writes.append (h : Writes ws own) (h' : Writes more others) :
    Writes (ws ++ more) (own ++ others) where
  is_sealed := h.is_sealed.append h'.is_sealed
  same hfor := by
    rw [List.mem_append, not_or] at hfor
    rw [h.same hfor.1, h'.same hfor.2]
  known w hw := by
    rcases List.mem_append.mp hw with hw | hw
    · exact (h.known w hw).imp_left (List.mem_append_left _)
    · exact (h'.known w hw).imp_left (List.mem_append_right _)

theorem Writes.ne_nil (h : Writes ws own) (hown : own ≠ []) : ws ≠ [] := by
  intro hnil
  rw [hnil] at h
  exact hown (h.same List.not_mem_nil).symm

end Word

theorem Stmt.words_ne_nil (s : Stmt) : s.words ≠ [] := by
  cases s <;> simp [Stmt.words]

namespace Parser

open Does (Row)
open Word (Sealed Operand Writes)

variable {α : Type} {s t u : Progress}

/-- Something was read from words that write it, and the words are good for it. -/
def IsRead (own : List Word) (ids : List NodeId) (good : List Word → Prop) (s t : Progress) :
    Prop :=
  ∃ ws, Writes ws own ∧ Reads s t ws ids ∧ good ws

abbrev IsExpression (e : Expr) (s t : Progress) : Prop := e.Verbatim ∧ Reads s t e.words e.ids

abbrev IsStmt (a : Stmt) (s t : Progress) : Prop :=
  IsRead a.words a.ids (fun ws => a.Canonical ∧ ∃ o, a.Spells Expr.Verbatim o ws) s t

/-- A statement was read to which no `else` would belong. -/
abbrev IsClosed (a : Stmt) (s t : Progress) : Prop :=
  IsRead a.words a.ids (fun ws => a.Canonical ∧ a.Spells Expr.Verbatim false ws) s t

/-- Statements one after another were read. -/
abbrev IsBody (body : List Stmt) (s t : Progress) : Prop :=
  IsRead (Stmt.wordsAll body) (Stmt.idsAll body)
    (fun ws => Stmt.CanonicalAll body ∧ Stmt.SpellsAll Expr.Verbatim body ws) s t

/-- The body of a block or of a function was read, braces included. -/
abbrev IsBlock (body : List Stmt) (s t : Progress) : Prop :=
  IsRead (.symbol "\x7b" :: (Stmt.wordsAll body ++ [.symbol "\x7d"])) (Stmt.idsAll body)
    (fun ws => Stmt.CanonicalAll body ∧ ∃ inner, ws = .symbol "\x7b" :: (inner ++ [.symbol "\x7d"])
      ∧ Stmt.SpellsAll Expr.Verbatim body inner) s t

abbrev IsFun (f : FunDecl) (s t : Progress) : Prop :=
  IsRead f.words (f.id :: f.ids) (fun ws => f.Canonical ∧ f.Spells Expr.Verbatim ws) s t

theorem IsRead.mono {own : List Word} {ids : List NodeId} {good better : List Word → Prop}
    (h : IsRead own ids good s t) (hgood : ∀ ws, good ws → better ws) :
    IsRead own ids better s t := by
  obtain ⟨ws, hwrites, hreads, hws⟩ := h
  exact ⟨ws, hwrites, hreads, hgood ws hws⟩

theorem IsClosed.isStmt {a : Stmt} (h : IsClosed a s t) : IsStmt a s t :=
  h.mono fun _ ⟨hc, hspells⟩ => ⟨hc, _, hspells⟩

theorem IsRead.of_skipTrivia {own : List Word} {ids : List NodeId} {good : List Word → Prop}
    (h : IsRead own ids good s t) (hne : own ≠ []) (hcursor : s.cursor = u.cursor.skipTrivia)
    (hids : u.nextId ≤ s.nextId) : IsRead own ids good u t := by
  obtain ⟨ws, hwrites, hreads, hgood⟩ := h
  exact ⟨ws, hwrites, hreads.of_skipTrivia (hwrites.ne_nil hne) hcursor hids, hgood⟩

theorem Row.isRead (own : α → List Word) (ids : α → List NodeId) {good : α → List Word → Prop}
    (all : List α → List Word → Prop) (hnil : all [] [])
    (hcons : ∀ a as ws more, good a ws → all as more → all (a :: as) (ws ++ more)) {as : List α}
    (h : Row (fun a => IsRead (own a) (ids a) (good a)) as s t) :
    IsRead (as.flatMap own) (as.flatMap ids) (all as) s t := by
  induction h with
  | nil same ids_le => exact ⟨[], Sealed.nil.writes, .skip same ids_le, hnil⟩
  | cons first _ ih =>
      obtain ⟨ws, hwrites, hreads, hgood⟩ := first
      obtain ⟨more, hwrites', hreads', hall⟩ := ih
      exact ⟨ws ++ more, hwrites.append hwrites', hreads.trans hreads', hcons _ _ _ _ hgood hall⟩

theorem Row.filterMap {post : α → Progress → Progress → Prop} {os : List (Option α)}
    (h : Row (fun o s t => ∃ a, o = some a ∧ post a s t) os s t) :
    Row post (os.filterMap id) s t := by
  induction h with
  | nil same ids_le => exact .nil same ids_le
  | cons first _ ih =>
      obtain ⟨a, rfl, ha⟩ := first
      exact .cons ha ih

theorem does_word (spelling : String) (h : spelling ∈ Text.reservedWords) :
    Does (word spelling) fun _ s t => Reads s t [.keyword spelling] [] := by
  unfold word
  refine ((does_keyword .keyword spelling h).bind fun _ => Does.pure ()).mono fun _ s t h => ?_
  obtain ⟨_, _, ⟨-, hreads⟩, -, rfl⟩ := h
  exact hreads

-- ============================================================= declarations

/-- A declaration that recovery passed over put a fault on record, so of one that did not all is
known that is known of declarations. -/
theorem Does.recovering {declaration : Parser Stmt} {post : Stmt → Progress → Progress → Prop}
    (closer : Option Char) (hd : Does declaration post) :
    Does (recovering closer declaration) fun o s t =>
      ∃ a, o = some a ∧ post a { s with cursor := s.cursor.skipTrivia } t := by
  unfold Parser.recovering
  refine (Does.skipTrivia.bind fun _ => (?_ : Does _ fun o s t =>
    ∃ a, o = some a ∧ post a s t)).mono fun o s u h => ?_
  · intro s
    dsimp only
    by_cases hend : (s.cursor.skipGap.atEnd || s.cursor.skipGap.rest.head? == closer) = true
    · rw [if_pos hend]
      exact .refl s
    · rw [if_neg hend]
      cases hrun : declaration s with
      | ok a t => exact ⟨hd.grown hrun, fun hclean => ⟨a, rfl, hd.holds hrun hclean⟩⟩
      | error e t =>
          have hg := hd.grown_error hrun
          have hfaults := hg.faults
          refine ⟨⟨hg.ids, ?_⟩, fun hclean => ?_⟩
          · simp only [List.length_append]
            omega
          · simp only [List.length_append, List.length_singleton] at hclean
            omega
  · obtain ⟨_, _, rfl, h⟩ := h
    exact h

theorem does_recovering {declaration : Parser Stmt} (closer : Option Char)
    (hd : Does declaration IsStmt) :
    Does (recovering closer declaration) fun o s t => ∃ a, o = some a ∧ IsStmt a s t :=
  (hd.recovering closer).mono fun _ _ _ ⟨a, ho, ha⟩ =>
    ⟨a, ho, ha.of_skipTrivia a.words_ne_nil rfl (Nat.le_refl _)⟩

theorem does_declarations {declaration : Parser Stmt} (closer : Option Char)
    (hd : Does declaration IsStmt) : Does (declarations closer declaration) IsBody := by
  unfold declarations
  refine ((does_recovering closer hd).many.bind fun found => Does.pure _).mono fun body s t h => ?_
  obtain ⟨found, _, hrow, rfl, rfl⟩ := h
  rw [IsBody, Stmt.wordsAll_eq, Stmt.idsAll_eq]
  refine Row.isRead _ _
    (fun body ws => Stmt.CanonicalAll body ∧ Stmt.SpellsAll Expr.Verbatim body ws) ⟨trivial, .nil⟩
    (fun a as ws more ha has => ?_) (Row.filterMap hrow)
  obtain ⟨hc, o, hspells⟩ := ha
  exact ⟨⟨hc, has.1⟩, .cons hspells has.2⟩

theorem does_braced {declaration : Parser Stmt} (hd : Does declaration IsStmt) :
    Does (braced declaration) IsBlock := by
  unfold braced
  refine ((does_symbol "\x7b" rfl (by decide) (by decide)).bind fun _ =>
    ((does_declarations _ hd).bind fun body =>
      (does_symbol "\x7d" rfl (by decide) (by decide)).bind fun _ =>
        Does.pure body).committed).mono fun body s t h => ?_
  obtain ⟨_, _, hopen, body, _, ⟨ws, hwrites, hreads, hc, hspells⟩, _, _, hclose, rfl, rfl⟩ := h
  have hstart : Sealed [.symbol "\x7b"] := .symbol _ (by decide)
  have hend : Sealed [.symbol "\x7d"] := .symbol _ (by decide)
  have hall := hopen.trans (hreads.trans hclose)
  rw [List.nil_append, List.append_nil] at hall
  exact ⟨_, hstart.writes.append (hwrites.append hend.writes), hall, hc, ws, rfl, hspells⟩

variable {expression : Parser Expr} {block : Parser (List Stmt)} {statement : Parser Stmt}

-- ======================================================= simple statements

theorem does_expressionStmt (he : Does expression IsExpression) :
    Does (expressionStmt expression) fun a s t => IsClosed a s t ∧ ∃ id e, a = .expression id e := by
  unfold expressionStmt
  refine (he.bind fun e => ((does_symbol ";" rfl (by decide) (by decide)).bind fun _ =>
    Does.freshId.bind fun id => Does.pure _).committed).mono fun a s t h => ?_
  obtain ⟨e, _, ⟨hv, hreads⟩, _, _, hend, _, _, ⟨rfl, rfl⟩, rfl, rfl⟩ := h
  have hall := (hreads.trans hend).numbered
  rw [List.append_nil] at hall
  have hsealed := (e.operand hv.canonical).seal ";" (by decide)
  exact ⟨⟨_, hsealed.writes, hall, hv.canonical, .expression hv⟩, _, _, rfl⟩

theorem does_printStmt (he : Does expression IsExpression) :
    Does (printStmt expression) fun a s t => IsClosed a s t ∧ ∃ id e, a = .print id e := by
  unfold printStmt
  refine ((does_word "print" (by decide)).bind fun _ => (he.bind fun e =>
    (does_symbol ";" rfl (by decide) (by decide)).bind fun _ =>
      Does.freshId.bind fun id => Does.pure _).committed).mono fun a s t h => ?_
  obtain ⟨_, _, hword, e, _, ⟨hv, hreads⟩, _, _, hend, _, _, ⟨rfl, rfl⟩, rfl, rfl⟩ := h
  have hall := (hword.trans (hreads.trans hend)).numbered
  rw [List.nil_append, List.append_nil] at hall
  have hsealed := (Sealed.keyword "print").append ((e.operand hv.canonical).seal ";" (by decide))
  exact ⟨⟨_, hsealed.writes, hall, hv.canonical, .print hv⟩, _, _, rfl⟩

theorem canonical_optional {value : Option Expr} (hv : ∀ e ∈ value, e.Verbatim) :
    Expr.CanonicalOptional value := by
  cases value with
  | none => trivial
  | some e => exact (hv e rfl).canonical

/-- An expression that may be left out, and the punctuation behind it. -/
theorem sealed_optional {value : Option Expr} (hv : Expr.CanonicalOptional value) (s : String)
    (hs : s ∉ ["!", "<", ">"]) : Sealed (Expr.wordsOptional value ++ [.symbol s]) := by
  cases value with
  | none => exact .symbol s hs
  | some e => exact (e.operand hv).seal s hs

theorem does_optionalExpr (he : Does expression IsExpression) :
    Does (optional expression) fun value s t => (∀ e ∈ value, e.Verbatim)
      ∧ Reads s t (Expr.wordsOptional value) ((Expr.nodesOptional value).map Node.id) := by
  refine he.optional.mono fun value s t h => ?_
  cases value with
  | none => exact ⟨nofun, .skip (h.2 rfl).1 (h.2 rfl).2.1⟩
  | some e =>
      obtain ⟨⟨hv, hreads⟩, -⟩ := h.1 e rfl
      refine ⟨fun e' he' => ?_, hreads⟩
      cases he'
      exact hv

theorem does_returnStmt (he : Does expression IsExpression) :
    Does (returnStmt expression) fun a s t =>
      IsClosed a s t ∧ ∃ id keyword value, a = .returnStmt id keyword value := by
  unfold returnStmt
  refine ((does_keyword .keyword "return" (by decide)).bind fun token =>
    ((does_optionalExpr he).bind fun value =>
      (does_symbol ";" rfl (by decide) (by decide)).bind fun _ =>
        Does.freshId.bind fun id => Does.pure _).committed).mono fun a s t h => ?_
  obtain ⟨token, _, ⟨his, htoken⟩, value, _, ⟨hv, hreads⟩, _, _, hend, _, _, ⟨rfl, rfl⟩, rfl,
    rfl⟩ := h
  have hall := (htoken.trans (hreads.trans hend)).numbered
  rw [List.nil_append, List.append_nil] at hall
  have hc := canonical_optional hv
  have hsealed := (Sealed.keyword "return").append (sealed_optional hc ";" (by decide))
  refine ⟨⟨_, ?_, hall, ⟨his, hc⟩, .returnStmt his hv⟩, _, _, _, rfl⟩
  rw [Stmt.words, his.word_keyword]
  exact hsealed.writes

theorem does_varDecl (he : Does expression IsExpression) :
    Does (varDecl expression) fun a s t =>
      IsClosed a s t ∧ ∃ id name initializer, a = .varDecl id name initializer := by
  unfold varDecl
  refine ((does_word "var" (by decide)).bind fun _ => (does_identifier.bind fun name =>
    (Does.optional (does_equalSign.bind fun _ => he)).bind fun initializer =>
      (does_symbol ";" rfl (by decide) (by decide)).bind fun _ =>
        Does.freshId.bind fun id => Does.pure _).committed).mono fun a s t h => ?_
  obtain ⟨_, _, hword, name, t', ⟨hkind, hname⟩, initializer, u, ⟨hsome, hnone⟩, _, _, hend, _, _,
    ⟨rfl, rfl⟩, rfl, rfl⟩ := h
  have hoperand := Token.operand_of_identifier hkind
  have hinit : (∀ e ∈ initializer, e.Verbatim)
      ∧ Reads t' u (Expr.wordsInit initializer) ((Expr.nodesOptional initializer).map Node.id)
      ∧ Sealed ([name.word] ++ Expr.wordsInit initializer ++ [.symbol ";"]) := by
    cases initializer with
    | none =>
        exact ⟨nofun, .skip (hnone rfl).1 (hnone rfl).2.1, hoperand.seal ";" (by decide)⟩
    | some e =>
        obtain ⟨⟨_, _, hequals, hv, hreads⟩, -⟩ := hsome e rfl
        have hboth := hoperand.between (List.cons_ne_nil _ _) (.symbol "=")
          (e.operand hv.canonical) e.words_ne_nil
        refine ⟨fun e' he' => ?_, hequals.trans hreads, hboth.seal ";" (by decide)⟩
        cases he'
        exact hv
  obtain ⟨hv, hreads, hsealed⟩ := hinit
  have hall := (hword.trans (hname.trans (hreads.trans hend))).numbered
  rw [List.nil_append, List.nil_append, List.append_nil] at hall
  rw [List.append_assoc] at hsealed
  exact ⟨⟨_, ((Sealed.keyword "var").append hsealed).writes, hall, ⟨hkind, canonical_optional hv⟩,
    .varDecl hkind hv⟩, _, _, _, rfl⟩

theorem does_blockStmt (hb : Does block IsBlock) :
    Does (blockStmt block) fun a s t => IsClosed a s t ∧ ∃ id body, a = .block id body := by
  unfold blockStmt
  refine (hb.bind fun body => Does.freshId.bind fun id => Does.pure _).mono fun a s t h => ?_
  obtain ⟨body, _, ⟨_, hwrites, hreads, hc, _, rfl, hspells⟩, _, _, ⟨rfl, rfl⟩, rfl, rfl⟩ := h
  exact ⟨⟨_, hwrites, hreads.numbered, hc, .block hspells⟩, _, _, rfl⟩

-- ===================================================== compound statements

/-- No `else` with a statement behind it can be read. -/
def NoElse (expression : Parser Expr) (block : Parser (List Stmt)) (t : Progress) : Prop :=
  ∀ n u, u.cursor = t.cursor → ∀ a v,
    (do word "else"; Parser.statement expression block n) u ≠ .ok a v

/-- A statement was read that may stand as a branch. Where an `else` would belong to it, there is
none. -/
structure IsBranch (expression : Parser Expr) (block : Parser (List Stmt)) (a : Stmt)
    (s t : Progress) : Prop where
  read : IsRead a.words a.ids (fun ws => a.Canonical
    ∧ ∃ o, a.Spells Expr.Verbatim o ws ∧ (o = true → NoElse expression block t)) s t
  declares : a.declares = none

theorem IsBranch.isStmt {a : Stmt} (h : IsBranch expression block a s t) : IsStmt a s t :=
  h.read.mono fun _ ⟨hc, o, hspells, _⟩ => ⟨hc, o, hspells⟩

theorem IsClosed.isBranch {a : Stmt} (h : IsClosed a s t) (hplain : a.declares = none) :
    IsBranch expression block a s t :=
  ⟨h.mono fun _ ⟨hc, hspells⟩ => ⟨hc, false, hspells, nofun⟩, hplain⟩

/-- The head of a statement with a condition. -/
theorem reads_head {word : String} {e : Expr} {s₁ s₂ s₃ : Progress} (hc : e.Canonical)
    (hword : Reads s s₁ [.keyword word] []) (hopen : Reads s₁ s₂ [.symbol "("] [])
    (he : Reads s₂ s₃ e.words e.ids) (hclose : Reads s₃ t [.symbol ")"] []) :
    Reads s t (.keyword word :: .symbol "(" :: (e.words ++ [.symbol ")"])) e.ids
      ∧ Sealed (.keyword word :: .symbol "(" :: (e.words ++ [.symbol ")"])) := by
  have hall := hword.trans (hopen.trans (he.trans hclose))
  rw [List.nil_append, List.nil_append, List.append_nil] at hall
  have hparen : Sealed [.symbol "("] := .symbol "(" (by decide)
  exact ⟨hall, (Sealed.keyword word).append (hparen.append ((e.operand hc).seal ")" (by decide)))⟩

theorem does_whileStmt (he : Does expression IsExpression)
    (hs : Does statement (IsBranch expression block)) :
    Does (whileStmt expression statement) (IsBranch expression block) := by
  unfold whileStmt
  refine ((does_word "while" (by decide)).bind fun _ =>
    ((does_symbol "(" rfl (by decide) (by decide)).bind fun _ => he.bind fun condition =>
      (does_symbol ")" rfl (by decide) (by decide)).bind fun _ => hs.bind fun body =>
        Does.freshId.bind fun id => Does.pure _).committed).mono fun a s t h => ?_
  obtain ⟨_, _, hword, _, _, hopen, condition, _, ⟨hv, hcondition⟩, _, _, hclose, body, u, hbody,
    _, _, ⟨rfl, rfl⟩, rfl, rfl⟩ := h
  have hc := hv.canonical
  obtain ⟨hhead, hsealed⟩ := reads_head hc hword hopen hcondition hclose
  obtain ⟨⟨ws, hwrites, hreads, hbc, o, hspells, helse⟩, hdeclares⟩ := hbody
  have hwhole := (hhead.trans hreads).numbered
  have hall := hsealed.writes.append hwrites
  simp only [List.cons_append, List.append_assoc, List.nil_append] at hall hwhole
  refine ⟨⟨_, hall, hwhole.perm ?_, ⟨hc, hbc, hdeclares⟩, o, .whileLoop hv hspells hdeclares, helse⟩,
    rfl⟩
  simp [Stmt.ids, Stmt.nodes, Expr.ids, Node.id, Stmt.id]

/-- Where the branch of an `else` could not be read, it cannot be read by an outer `if` either. -/
theorem noElse_of_declines (hfe : Firm expression expression) (hfb : Firm block block) {depth : Nat}
    (hdepth : depth ≠ 0) (hcursor : t.cursor = s.cursor)
    (h : Declines (do word "else"; Parser.statement expression block depth) s) :
    NoElse expression block t := by
  obtain ⟨m, rfl⟩ := Nat.exists_eq_succ_of_ne_zero hdepth
  intro n u hu a v hrun
  cases n with
  | zero =>
      obtain ⟨_, _, -, hrun⟩ := bind_eq_ok hrun
      cases hrun
  | succ n =>
      have hfirm := Firm.bind_local (Local.word "else") fun _ => Firm.statement hfe hfb m n
      exact hfirm s u (hu.trans hcursor) h a v hrun

theorem does_ifStmt (hfe : Firm expression expression) (hfb : Firm block block)
    (he : Does expression IsExpression) {depth : Nat}
    (hs : Does (Parser.statement expression block depth) fun a s t =>
      IsBranch expression block a s t ∧ depth ≠ 0) :
    Does (ifStmt expression (Parser.statement expression block depth))
      (IsBranch expression block) := by
  unfold ifStmt
  refine ((does_word "if" (by decide)).bind fun _ =>
    ((does_symbol "(" rfl (by decide) (by decide)).bind fun _ => he.bind fun condition =>
      (does_symbol ")" rfl (by decide) (by decide)).bind fun _ => hs.bind fun thenBranch =>
        (Does.optional ((does_word "else" (by decide)).bind fun _ => hs)).bind fun elseBranch =>
          (?_ : Does _ fun a s t => t = { s with nextId := s.nextId + 1 }
            ∧ (elseBranch = none → a = .ifThen s.nextId condition thenBranch)
            ∧ ∀ b, elseBranch = some b →
              a = .ifElse s.nextId condition thenBranch b)).committed).mono fun a s t h => ?_
  · cases elseBranch with
    | none =>
        refine (Does.freshId.bind fun id => Does.pure _).mono fun a s t h => ?_
        obtain ⟨_, _, ⟨rfl, rfl⟩, rfl, rfl⟩ := h
        exact ⟨rfl, fun _ => rfl, nofun⟩
    | some b =>
        refine (Does.freshId.bind fun id => Does.pure _).mono fun a s t h => ?_
        obtain ⟨_, _, ⟨rfl, rfl⟩, rfl, rfl⟩ := h
        refine ⟨rfl, nofun, fun c hc => ?_⟩
        cases hc
        rfl
  obtain ⟨_, _, hword, _, _, hopen, condition, _, ⟨hv, hcondition⟩, _, _, hclose, thenBranch, v,
    ⟨hthen, hdepth⟩, elseBranch, u, ⟨hsome, hnone⟩, rfl, hifThen, hifElse⟩ := h
  have hc := hv.canonical
  obtain ⟨hhead, hsealed⟩ := reads_head hc hword hopen hcondition hclose
  obtain ⟨⟨ws, hwrites, hreads, htc, o, hspells, helse⟩, hdeclares⟩ := hthen
  have hboth := hsealed.writes.append hwrites
  cases elseBranch with
  | none =>
      obtain ⟨hcursor, hids, hdeclines⟩ := hnone rfl
      have hskip : Reads v u [] [] := .skip hcursor hids
      have hall := (hhead.trans (hreads.trans hskip)).numbered
      rw [List.append_nil, List.append_nil] at hall
      simp only [List.cons_append, List.append_assoc, List.nil_append] at hboth hall
      rw [hifThen rfl]
      refine ⟨⟨_, hboth, hall.perm ?_, ⟨hc, htc, hdeclares⟩, true, .ifThen hv hspells hdeclares,
        fun _ => ?_⟩, rfl⟩
      · simp [Stmt.ids, Stmt.nodes, Expr.ids, Node.id, Stmt.id]
      · exact noElse_of_declines hfe hfb hdepth hcursor hdeclines
  | some b =>
      obtain ⟨⟨_, _, hkeyword, ⟨⟨more, hwrites', hreads', hbc, o', hspells', helse'⟩, hdeclares'⟩, -⟩,
        hrun⟩ := hsome b rfl
      obtain rfl : o = false := by
        cases o with
        | false => rfl
        | true => exact absurd hrun (helse rfl depth v rfl b _)
      have hclosed : thenBranch.isOpen = false :=
        Bool.eq_false_iff.mpr fun hopen => Bool.noConfusion (hspells.isOpen hopen)
      have hall := (hhead.trans (hreads.trans (hkeyword.trans hreads'))).numbered
      have hwhole := hboth.append ((Sealed.keyword "else").writes.append hwrites')
      simp only [List.cons_append, List.append_assoc, List.nil_append] at hwhole hall
      rw [hifElse b rfl]
      refine ⟨⟨_, hwhole, hall.perm ?_, ⟨hc, htc, hdeclares, hclosed, hbc, hdeclares'⟩, o',
        .ifElse hv hspells hdeclares hspells' hdeclares', helse'⟩, rfl⟩
      simp [Stmt.ids, Stmt.nodes, Expr.ids, Node.id, Stmt.id]

-- =================================================================== loops

/-- Parts were put together to a new tree: the words and the numbers of the tree are those of its
parts, apart from words that are always the same and from numbers that were handed out. -/
structure Builds (parts whole : List Word) (ids wholeIds : List NodeId) (s t : Progress) : Prop where
  cursor : t.cursor = s.cursor
  ids : ∃ fresh, Reads s t [] fresh ∧ wholeIds.Perm (ids ++ fresh)
  words : ∀ w ∈ whole, w ∈ parts ∨ w.Fixed

theorem Builds.trans {parts whole more last : List Word} {ids wholeIds moreIds lastIds : List NodeId}
    (h : Builds parts whole ids wholeIds s t)
    (h' : Builds (more ++ whole) last (moreIds ++ wholeIds) lastIds t u) :
    Builds (more ++ parts) last (moreIds ++ ids) lastIds s u where
  cursor := h'.cursor.trans h.cursor
  ids := by
    obtain ⟨fresh, hreads, hperm⟩ := h.ids
    obtain ⟨fresh', hreads', hperm'⟩ := h'.ids
    refine ⟨fresh ++ fresh', hreads.trans hreads', hperm'.trans ?_⟩
    grind
  words w hw := by
    rcases h'.words w hw with hw | hw
    · rcases List.mem_append.mp hw with hw | hw
      · exact .inl (List.mem_append_left _ hw)
      · exact (h.words w hw).imp_left (List.mem_append_right _)
    · exact .inr hw

theorem Builds.refl (ws : List Word) (ids : List NodeId) (s : Progress) : Builds ws ws ids ids s s where
  cursor := rfl
  ids := ⟨[], .refl s, by simp⟩
  words _ hw := .inl hw

theorem Builds.swap {parts more whole : List Word} {ids moreIds wholeIds : List NodeId}
    (h : Builds (parts ++ more) whole (ids ++ moreIds) wholeIds s t) :
    Builds (more ++ parts) whole (moreIds ++ ids) wholeIds s t where
  cursor := h.cursor
  ids := by
    obtain ⟨fresh, hreads, hperm⟩ := h.ids
    refine ⟨fresh, hreads, hperm.trans ?_⟩
    grind
  words w hw := by
    have hmem := h.words w hw
    simp only [List.mem_append] at hmem ⊢
    tauto

/-- A node was put around parts. -/
theorem Builds.node {parts whole : List Word} {ids wholeIds : List NodeId}
    (hids : wholeIds.Perm (s.nextId :: ids)) (hwords : ∀ w ∈ whole, w ∈ parts ∨ w.Fixed) :
    Builds parts whole ids wholeIds s { s with nextId := s.nextId + 1 } where
  cursor := rfl
  ids := ⟨_, .fresh s, hids.trans (List.perm_append_singleton _ _).symm⟩
  words := hwords

theorem does_loopCondition (condition : Option Expr) :
    Does (loopCondition condition) fun e s t => LoopCondition condition e
      ∧ Builds (Expr.wordsOptional condition) e.words
        ((Expr.nodesOptional condition).map Node.id) e.ids s t := by
  cases condition with
  | some e =>
      refine (Does.pure e).mono fun e s t h => ?_
      obtain ⟨rfl, rfl⟩ := h
      exact ⟨.given _, .refl _ _ _⟩
  | none =>
      refine (Does.freshId.bind fun id => Does.pure _).mono fun e s t h => ?_
      obtain ⟨_, _, ⟨rfl, rfl⟩, rfl, rfl⟩ := h
      refine ⟨.missing _, .node (.refl _) fun w hw => .inr ?_⟩
      obtain rfl := List.mem_singleton.mp hw
      show "true" ∈ Text.reservedWords
      decide

theorem does_loopBody (increment : Option Expr) (body : Stmt) :
    Does (loopBody body increment) fun a s t => LoopBody body increment a
      ∧ Builds (body.words ++ Expr.wordsOptional increment) a.words
        (body.ids ++ (Expr.nodesOptional increment).map Node.id) a.ids s t := by
  cases increment with
  | none =>
      refine (Does.pure body).mono fun e s t h => ?_
      obtain ⟨rfl, rfl⟩ := h
      refine ⟨.plain, ?_⟩
      rw [Expr.wordsOptional, Expr.nodesOptional, List.map_nil, List.append_nil, List.append_nil]
      exact .refl _ _ _
  | some e =>
      refine (Does.freshId.bind fun id => Does.freshId.bind fun id' => Does.pure _).mono
        fun a s t h => ?_
      obtain ⟨_, _, ⟨rfl, rfl⟩, _, _, ⟨rfl, rfl⟩, rfl, rfl⟩ := h
      refine ⟨.stepped .., ?_⟩
      have hstep : Builds e.words (e.words ++ [.symbol ";"]) e.ids (s.nextId :: e.ids) s
          { s with nextId := s.nextId + 1 } := by
        refine .node (.refl _) fun w hw => ?_
        simp only [List.mem_append, List.mem_singleton] at hw
        rcases hw with hw | rfl
        · exact .inl hw
        · exact .inr (by decide : ";" ∈ symbols)
      refine hstep.trans (.node ?_ fun w hw => ?_)
      · simp [Stmt.ids, Stmt.nodes, Stmt.nodesAll, Expr.ids, Node.id, Stmt.id]
      · simp only [Stmt.words, Stmt.wordsAll, List.mem_cons, List.mem_append, List.not_mem_nil,
          or_false] at hw ⊢
        rcases hw with rfl | hw | rfl
        · exact .inr (by decide : "\x7b" ∈ symbols)
        · exact .inl hw
        · exact .inr (by decide : "\x7d" ∈ symbols)

theorem does_loopBlock (initializer : Option Stmt) (loop : Stmt) :
    Does (loopBlock loop initializer) fun a s t => LoopBlock loop initializer a
      ∧ Builds (Stmt.wordsAll initializer.toList ++ loop.words) a.words
        (Stmt.idsAll initializer.toList ++ loop.ids) a.ids s t := by
  cases initializer with
  | none =>
      refine (Does.pure loop).mono fun e s t h => ?_
      obtain ⟨rfl, rfl⟩ := h
      exact ⟨.plain, .refl _ _ _⟩
  | some first =>
      refine (Does.freshId.bind fun id => Does.pure _).mono fun a s t h => ?_
      obtain ⟨_, _, ⟨rfl, rfl⟩, rfl, rfl⟩ := h
      refine ⟨.started .., .node ?_ fun w hw => ?_⟩
      · simp [Stmt.ids, Stmt.idsAll, Stmt.nodes, Stmt.nodesAll, Node.id, Stmt.id]
      · simp only [Stmt.words, Stmt.wordsAll, Option.toList_some, List.mem_cons, List.mem_append,
          List.not_mem_nil, or_false] at hw ⊢
        rcases hw with rfl | hw | rfl
        · exact .inr (by decide : "\x7b" ∈ symbols)
        · exact .inl hw
        · exact .inr (by decide : "\x7d" ∈ symbols)

theorem does_forLoop (initializer : Option Stmt) (condition increment : Option Expr)
    (body : Stmt) :
    Does (forLoop initializer condition increment body) fun a s t =>
      IsLoop initializer condition increment body a
      ∧ Builds (Stmt.wordsAll initializer.toList ++ (Expr.wordsOptional condition
          ++ (body.words ++ Expr.wordsOptional increment))) a.words
        (Stmt.idsAll initializer.toList ++ ((Expr.nodesOptional condition).map Node.id
          ++ (body.ids ++ (Expr.nodesOptional increment).map Node.id))) a.ids s t := by
  unfold forLoop
  refine ((does_loopCondition condition).bind fun condition' =>
    (does_loopBody increment body).bind fun body' => Does.freshId.bind fun id =>
      does_loopBlock initializer (.whileLoop id condition' body')).mono fun a s t h => ?_
  obtain ⟨condition', _, ⟨hcondition, hcond⟩, body', u, ⟨hloopBody, hbody⟩, _, _, ⟨rfl, rfl⟩, hwhole,
    hinit⟩ := h
  have hloop : Builds (condition'.words ++ body'.words)
      (Stmt.whileLoop u.nextId condition' body').words (condition'.ids ++ body'.ids)
      (Stmt.whileLoop u.nextId condition' body').ids u { u with nextId := u.nextId + 1 } := by
    refine .node ?_ fun w hw => ?_
    · simp [Stmt.ids, Stmt.nodes, Expr.ids, Node.id, Stmt.id]
    · simp only [Stmt.words, List.mem_cons, List.mem_append] at hw ⊢
      rcases hw with rfl | rfl | hw | rfl | hw
      · exact .inr (by decide : "while" ∈ Text.reservedWords)
      · exact .inr (by decide : "(" ∈ symbols)
      · exact .inl (.inl hw)
      · exact .inr (by decide : ")" ∈ symbols)
      · exact .inl (.inr hw)
  have hparts := hcond.trans (hbody.trans hloop).swap
  exact ⟨⟨hcondition, hloopBody, hwhole⟩, hparts.swap.trans hinit⟩

/-- The first clause of a `for` was read. -/
def IsInitializer (o : Option Stmt) (s t : Progress) : Prop :=
  ∃ ws, Sealed ws ∧ Reads s t ws (Stmt.idsAll o.toList) ∧ Stmt.CanonicalAll o.toList
    ∧ (∀ w ∈ Stmt.wordsAll o.toList, w ∈ ws ∨ w.Fixed) ∧ Stmt.Starts Expr.Verbatim o ws

theorem IsStmt.isInitializer {a : Stmt} (h : IsStmt a s t)
    (hstarts : ∀ o ws, a.Spells Expr.Verbatim o ws → Stmt.Starts Expr.Verbatim (some a) ws) :
    IsInitializer (some a) s t := by
  obtain ⟨ws, hwrites, hreads, hc, o, hspells⟩ := h
  refine ⟨ws, hwrites.is_sealed, ?_, ⟨hc, trivial⟩, ?_, hstarts o ws hspells⟩
  · rw [Stmt.idsAll_eq]
    simpa using hreads
  · simpa [Stmt.wordsAll] using hwrites.known

theorem does_forInitializer (he : Does expression IsExpression) :
    Does (forInitializer expression) IsInitializer := by
  unfold forInitializer
  refine (Does.firstOf IsInitializer ?_ none).mono fun o s t h => ?_
  · intro p hp
    simp only [List.mem_cons, List.not_mem_nil, or_false] at hp
    rcases hp with rfl | rfl | rfl
    · refine ((does_symbol ";" rfl (by decide) (by decide)).bind fun _ => Does.pure none).mono
        fun o s t h => ?_
      obtain ⟨_, _, hreads, rfl, rfl⟩ := h
      exact ⟨_, .symbol ";" (by decide), hreads, trivial, nofun, .nothing⟩
    · refine ((does_varDecl he).bind fun a => Does.pure (some a)).mono fun o s t h => ?_
      obtain ⟨a, _, ⟨ha, _, _, _, rfl⟩, rfl, rfl⟩ := h
      exact ha.isStmt.isInitializer fun _ _ => Stmt.Spells.starts_varDecl
    · refine ((does_expressionStmt he).bind fun a => Does.pure (some a)).mono fun o s t h => ?_
      obtain ⟨a, _, ⟨ha, _, _, rfl⟩, rfl, rfl⟩ := h
      exact ha.isStmt.isInitializer fun _ _ => Stmt.Spells.starts_expression
  · obtain ⟨u, hcursor, hids, ws, hsealed, hreads, hrest⟩ := h
    exact ⟨ws, hsealed, hreads.of_same hcursor hids, hrest⟩

theorem does_forStmt (he : Does expression IsExpression)
    (hs : Does statement (IsBranch expression block)) :
    Does (forStmt expression statement) (IsBranch expression block) := by
  unfold forStmt
  refine ((does_word "for" (by decide)).bind fun _ =>
    ((does_symbol "(" rfl (by decide) (by decide)).bind fun _ => (does_forInitializer he).bind
      fun initializer => (does_optionalExpr he).bind fun condition =>
        (does_symbol ";" rfl (by decide) (by decide)).bind fun _ => (does_optionalExpr he).bind
          fun increment => (does_symbol ")" rfl (by decide) (by decide)).bind fun _ =>
            hs.bind fun body => does_forLoop initializer condition increment body).committed).mono
              fun a s t h => ?_
  obtain ⟨_, _, hword, _, _, hopen, initializer, _, ⟨ws, hsealed, hfirst, hfc, hfirst_known, hstarts⟩,
    condition, _, ⟨hcv, hcondition⟩, _, _, hsemi, increment, _, ⟨hiv, hincrement⟩, _, _, hclose,
    body, u, ⟨⟨bs, hwrites, hbody, hbc, o, hspells, helse⟩, hdeclares⟩, hloop, hbuilds⟩ := h
  have hcc := canonical_optional hcv
  have hic := canonical_optional hiv
  obtain ⟨fresh, hfresh, hperm⟩ := hbuilds.ids
  have hall := hword.trans (hopen.trans (hfirst.trans (hcondition.trans (hsemi.trans
    (hincrement.trans (hclose.trans (hbody.trans hfresh)))))))
  have hparts : Sealed ([.keyword "for"] ++ ([.symbol "("] ++ (ws
      ++ (Expr.wordsOptional condition ++ [.symbol ";"]
        ++ (Expr.wordsOptional increment ++ [.symbol ")"] ++ bs))))) :=
    (Sealed.keyword _).append ((Sealed.symbol _ (by decide)).append (hsealed.append
      ((sealed_optional hcc _ (by decide)).append ((sealed_optional hic _ (by decide)).append
        hwrites.is_sealed))))
  simp only [List.cons_append, List.append_assoc, List.nil_append, List.append_nil] at hparts hall
  refine ⟨⟨_, ⟨hparts, fun hfor => absurd List.mem_cons_self hfor, fun w hw => ?_⟩,
    hall.perm (hperm.trans ?_), hloop.canonical hfc hcc hic hbc hdeclares, o,
    .forLoop hstarts hcv hiv hspells hdeclares hloop, fun ho => ?_⟩, hloop.declares⟩
  · rcases hbuilds.words w hw with hw | hw
    · simp only [List.mem_append, List.mem_cons] at hw ⊢
      rcases hw with hw | hw | hw | hw
      · have hknown := hfirst_known w hw
        tauto
      · tauto
      · have hknown := hwrites.known w hw
        tauto
      · tauto
    · exact .inr hw
  · grind
  · intro n v hv
    exact helse ho n v (hv.trans hbuilds.cursor)

theorem does_statement (hfe : Firm expression expression) (hfb : Firm block block)
    (he : Does expression IsExpression) (hb : Does block IsBlock) (depth : Nat) :
    Does (Parser.statement expression block depth) fun a s t =>
      IsBranch expression block a s t ∧ depth ≠ 0 := by
  induction depth with
  | zero => exact Does.exhausted.mono fun _ _ _ h => h.elim
  | succ depth ih =>
      have hs := ih.mono fun a s t h => h.1
      have hchoice : Does (Parser.statement expression block (depth + 1)) fun a s u =>
          ∃ t, t.cursor = s.cursor.skipTrivia ∧ s.nextId ≤ t.nextId
            ∧ IsBranch expression block a t u := by
        refine Does.choice .statement (IsBranch expression block) ?_
        intro p hp
        simp only [List.mem_cons, List.not_mem_nil, or_false] at hp
        rcases hp with rfl | rfl | rfl | rfl | rfl | rfl | rfl
        · exact does_forStmt he hs
        · exact does_ifStmt hfe hfb he ih
        · refine (does_printStmt he).mono fun a s t h => ?_
          obtain ⟨hread, _, _, rfl⟩ := h
          exact hread.isBranch rfl
        · refine (does_returnStmt he).mono fun a s t h => ?_
          obtain ⟨hread, _, _, _, rfl⟩ := h
          exact hread.isBranch rfl
        · exact does_whileStmt he hs
        · refine (does_blockStmt hb).mono fun a s t h => ?_
          obtain ⟨hread, _, _, rfl⟩ := h
          exact hread.isBranch rfl
        · refine (does_expressionStmt he).mono fun a s t h => ?_
          obtain ⟨hread, _, _, rfl⟩ := h
          exact hread.isBranch rfl
      refine hchoice.mono fun a s u h => ?_
      obtain ⟨t, hcursor, hids, hread, hdeclares⟩ := h
      exact ⟨⟨hread.of_skipTrivia a.words_ne_nil hcursor hids, hdeclares⟩, nofun⟩

-- ============================================================ declarations

theorem does_function (hb : Does block IsBlock) : Does (function block) IsFun := by
  unfold function
  refine (Does.skipTrivia.bind fun place => does_identifier.bind fun name =>
    (does_symbol "(" rfl (by decide) (by decide)).bind fun _ =>
      (does_commaSeparated does_identifier).bind fun params =>
        (does_symbol ")" rfl (by decide) (by decide)).bind fun _ => hb.bind fun body =>
          (?_ : Does _ fun f s t => params.length ≤ maxArguments
            ∧ f = .mk s.nextId name params body
            ∧ t = { s with nextId := s.nextId + 1 })).mono fun f s t h => ?_
  · split
    · exact (Does.failAt _ _ _).mono fun _ _ _ h => h.elim
    · refine (Does.freshId.bind fun id => Does.pure _).mono fun f s t h => ?_
      obtain ⟨_, _, ⟨rfl, rfl⟩, rfl, rfl⟩ := h
      exact ⟨by omega, rfl, rfl⟩
  · obtain ⟨_, _, rfl, name, _, ⟨hkind, hname⟩, _, _, hopen, params, _, hparams, _, _, hclose, body,
      _, ⟨_, hwrites, hreads, hc, inner, rfl, hspells⟩, hlength, rfl, rfl⟩ := h
    obtain ⟨hkinds, hread⟩ := Separated.collect (fun token : Token => token.kind = .identifier)
      (fun token => [token.word]) (fun _ => []) hparams
    have hsealed : Sealed ([name.word] ++ [.symbol "("]) :=
      (Token.operand_of_identifier hkind).seal "(" (by decide)
    have hlist : Sealed (Token.wordsAll params ++ [.symbol ")"]) := by
      have hitems : ∀ item ∈ params.map fun token => [token.word], Operand item ∧ item ≠ [] := by
        intro item hitem
        obtain ⟨token, htoken, rfl⟩ := List.mem_map.mp hitem
        exact ⟨Token.operand_of_identifier (hkinds token htoken), List.cons_ne_nil _ _⟩
      rcases Operand.commas hitems with hnil | hoperand
      · rw [Token.wordsAll, hnil]
        exact .symbol _ (by decide)
      · exact hoperand.seal _ (by decide)
    have hall := (hname.trans (hopen.trans (hread.trans (hclose.trans hreads)))).numbered
    have hwhole := hsealed.writes.append (hlist.writes.append hwrites)
    have hnone : params.flatMap (fun _ => ([] : List NodeId)) = [] := by simp
    rw [hnone] at hall
    have hfrom := hall.of_skipTrivia (List.cons_ne_nil _ _) rfl (Nat.le_refl _)
    simp only [List.cons_append, List.append_assoc, List.nil_append] at hwhole hfrom
    exact ⟨_, hwhole, hfrom.perm (.refl _), ⟨hkind, hkinds, hlength, hc⟩,
      .mk hkind hkinds hlength hspells⟩

theorem does_funDecl (hb : Does block IsBlock) : Does (funDecl block) IsStmt := by
  unfold funDecl
  refine ((does_word "fun" (by decide)).bind fun _ => ((does_function hb).bind fun f =>
    Does.pure _).committed).mono fun a s t h => ?_
  obtain ⟨_, _, hword, f, _, ⟨ws, hwrites, hreads, hc, hspells⟩, rfl, rfl⟩ := h
  exact ⟨_, (Sealed.keyword "fun").writes.append hwrites, hword.trans hreads, hc, _,
    .funDecl hspells⟩

theorem does_superclass :
    Does superclass fun parent s t => parent.Canonical
      ∧ Reads s t (NameRef.words (some parent)) [parent.id] := by
  unfold superclass
  refine ((does_symbol "<" rfl (by decide) (by decide)).bind fun _ => does_identifier.bind
    fun name => Does.freshId.bind fun id => Does.pure _).mono fun parent s t h => ?_
  obtain ⟨_, _, hless, name, _, ⟨hkind, hname⟩, _, _, ⟨rfl, rfl⟩, rfl, rfl⟩ := h
  exact ⟨hkind, (hless.trans hname).numbered⟩

theorem does_classDecl (hb : Does block IsBlock) : Does (classDecl block) IsStmt := by
  unfold classDecl
  refine ((does_word "class" (by decide)).bind fun _ => (does_identifier.bind fun name =>
    does_superclass.optional.bind fun parent =>
      (does_symbol "\x7b" rfl (by decide) (by decide)).bind fun _ =>
        (does_function hb).many.bind fun methods =>
          (does_symbol "\x7d" rfl (by decide) (by decide)).bind fun _ =>
            Does.freshId.bind fun id => Does.pure _).committed).mono fun a s t h => ?_
  obtain ⟨_, _, hword, name, u, ⟨hkind, hname⟩, parent, v, ⟨hsome, hnone⟩, _, _, hopen, methods, _,
    hrow, _, _, hclose, _, _, ⟨rfl, rfl⟩, rfl, rfl⟩ := h
  have hoperand := Token.operand_of_identifier hkind
  have hparent : (∀ p ∈ parent, p.Canonical)
      ∧ Reads u v (NameRef.words parent) ((NameRef.nodesOptional parent).map Node.id)
      ∧ Sealed ([name.word] ++ NameRef.words parent ++ [.symbol "\x7b"]) := by
    cases parent with
    | none => exact ⟨nofun, .skip (hnone rfl).1 (hnone rfl).2.1, hoperand.seal _ (by decide)⟩
    | some p =>
        obtain ⟨⟨hc, hreads⟩, -⟩ := hsome p rfl
        refine ⟨fun q hq => ?_, hreads, ?_⟩
        · cases hq
          exact hc
        · have hboth := hoperand.between (List.cons_ne_nil _ _) (.symbol "<")
            (Token.operand_of_identifier hc) (List.cons_ne_nil _ _)
          exact hboth.seal _ (by decide)
  obtain ⟨hpc, hpreads, hsealed⟩ := hparent
  obtain ⟨ws, hwrites, hreads, hc, hspells⟩ := Row.isRead FunDecl.words (fun f => f.id :: f.ids)
    (fun fs ws => FunDecl.CanonicalAll fs ∧ FunDecl.SpellsAll Expr.Verbatim fs ws) ⟨trivial, .nil⟩
    (fun _ _ _ _ hf hfs => ⟨⟨hf.1, hfs.1⟩, .cons hf.2 hfs.2⟩) hrow
  have hmethods := hreads.sublist (FunDecl.ids_sublist methods)
  have hall := (hword.trans (hname.trans (hpreads.trans (hopen.trans (hmethods.trans
    hclose))))).numbered
  have hend : Sealed [.symbol "\x7d"] := .symbol _ (by decide)
  have hwhole := ((Sealed.keyword "class").append hsealed).writes.append
    (hwrites.append hend.writes)
  rw [← FunDecl.wordsAll_eq] at hwhole
  simp only [List.cons_append, List.append_assoc, List.nil_append] at hwhole hall
  refine ⟨_, hwhole, hall.perm ?_, ⟨hkind, hpc, hc⟩, _, .classDecl hkind hpc hspells⟩
  rw [← FunDecl.idsAll_eq]
  simp [Stmt.ids, Stmt.nodes, FunDecl.idsAll, Node.id, Stmt.id]

theorem does_declaration (hfe : Firm expression expression) (he : Does expression IsExpression)
    (depth : Nat) : Does (declaration expression depth) IsStmt := by
  induction depth with
  | zero => exact Does.exhausted.mono fun _ _ _ h => h.elim
  | succ depth ih =>
      have hb := does_braced ih
      have hfb : Firm (braced (declaration expression depth)) (braced (declaration expression depth)) :=
        (Local.symbol _).firm.bind_hard fun _ => .committed _
      intro s
      refine ((Does.choice .declaration IsStmt ?_).mono fun a s u h => ?_) s
      · intro p hp
        simp only [List.mem_cons, List.not_mem_nil, or_false] at hp
        rcases hp with rfl | rfl | rfl | rfl
        · exact does_classDecl hb
        · exact does_funDecl hb
        · exact (does_varDecl he).mono fun a s t h => h.1.isStmt
        · exact (does_statement hfe hfb he hb _).mono fun a s t h => h.1.isStmt
      · obtain ⟨t, hcursor, hids, hread⟩ := h
        exact hread.of_skipTrivia a.words_ne_nil hcursor hids

end Parser

end Lox
