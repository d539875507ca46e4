/-
What reading a whole text brings. An accepted text is read word by word, its
nodes are numbered afresh, and every node of its tree is proper.
-/
import Lox.Proofs.Reading.Statement

namespace Lox

open Text Text.Lexeme

-- =============================================================== valid words

/-- A word that can be written so that it is read back. -/
def Word.Valid : Word → Prop
  | .symbol s => s ∈ symbols
  | .keyword s => s ∈ reservedWords
  | .name s => s.toList ≠ [] ∧ nameLength s.toList = s.toList.length ∧ s ∉ reservedWords
  | .number s => s.toList ≠ [] ∧ numberLength s.toList = s.toList.length
  | .string s => '"' ∉ s.toList

theorem Word.Fixed.valid {w : Word} (h : w.Fixed) : w.Valid := by
  cases w with
  | symbol s => exact h
  | keyword s => exact h
  | _ => cases h

theorem takeWhile_takeWhile {α : Type} (p : α → Bool) (l : List α) :
    (l.takeWhile p).takeWhile p = l.takeWhile p := by
  induction l with
  | nil => rfl
  | cons a l ih => by_cases ha : p a <;> simp [ha, ih]

theorem take_takeWhile {α : Type} (p : α → Bool) (l : List α) :
    l.take (l.takeWhile p).length = l.takeWhile p := by
  induction l with
  | nil => rfl
  | cons a l ih => by_cases ha : p a <;> simp [ha, ih]

/-- A name alone is a name. -/
theorem nameLength_take (cs : List Char) :
    nameLength (cs.take (nameLength cs)) = (cs.take (nameLength cs)).length := by
  cases cs with
  | nil => rfl
  | cons c rest =>
      by_cases hc : isNameStart c = true
      · have hlength : nameLength (c :: rest) = (rest.takeWhile isNameChar).length + 1 := by
          rw [nameLength, if_pos hc, Nat.add_comm]
        rw [hlength, List.take_succ_cons, take_takeWhile, nameLength, if_pos hc, takeWhile_takeWhile,
          List.length_cons, Nat.add_comm]
      · rw [nameLength_eq_zero (by simpa using hc)]
        rfl

/-- The length of a point with digits behind it. -/
def fractionLength : List Char → Nat
  | '.' :: rest =>
    if (rest.takeWhile isDigit).length = 0 then 0 else 1 + (rest.takeWhile isDigit).length
  | _ => 0

/-- A number is a row of digits and a fraction. -/
theorem numberLength_append {digits tail : List Char} (hne : digits ≠ [])
    (hdigits : ∀ c ∈ digits, isDigit c = true) (htail : tail.takeWhile isDigit = []) :
    numberLength (digits ++ tail) = digits.length + fractionLength tail := by
  have htake : (digits ++ tail).takeWhile isDigit = digits := by
    rw [List.takeWhile_append_of_pos hdigits, htail, List.append_nil]
  have hpos : digits.length ≠ 0 := fun h => hne (List.length_eq_zero_iff.mp h)
  unfold numberLength
  simp only [htake, hpos, if_false, List.drop_left]
  split
  · simp only [fractionLength]
    split <;> omega
  · rename_i hnot
    have hzero : fractionLength tail = 0 := by
      unfold fractionLength
      split
      · exact absurd rfl (hnot _)
      · rfl
    omega

/-- A number alone is a number. -/
theorem numberLength_take_append {digits tail : List Char} (hne : digits ≠ [])
    (hdigits : ∀ c ∈ digits, isDigit c = true) (htail : tail.takeWhile isDigit = []) :
    numberLength ((digits ++ tail).take (numberLength (digits ++ tail)))
      = ((digits ++ tail).take (numberLength (digits ++ tail))).length := by
  have hwhole : numberLength (digits ++ []) = _ := numberLength_append hne hdigits rfl
  rw [numberLength_append hne hdigits htail, List.take_length_add_append]
  unfold fractionLength
  split
  · rename_i rest
    split
    · simpa [fractionLength] using hwhole
    · rename_i hfraction
      rw [Nat.add_comm 1, List.take_succ_cons, take_takeWhile]
      have hpoint : ('.' :: rest.takeWhile isDigit).takeWhile isDigit = [] := by
        have hdot : isDigit '.' = false := by decide
        simp [hdot]
      rw [numberLength_append hne hdigits hpoint, fractionLength, takeWhile_takeWhile,
        if_neg hfraction, List.length_append, List.length_cons, Nat.add_comm 1]
  · simpa [fractionLength] using hwhole

theorem numberLength_take (cs : List Char) :
    numberLength (cs.take (numberLength cs)) = (cs.take (numberLength cs)).length := by
  by_cases hnone : cs.takeWhile isDigit = []
  · have hzero : numberLength cs = 0 := by simp [numberLength, hnone]
    rw [hzero]
    rfl
  · have hdigits : ∀ c ∈ cs.takeWhile isDigit, isDigit c = true :=
      List.all_eq_true.mp List.all_takeWhile
    have htail : (cs.dropWhile isDigit).takeWhile isDigit = [] := by
      cases hdrop : cs.dropWhile isDigit with
      | nil => rfl
      | cons d tail =>
          have hhead := List.head_dropWhile_not isDigit (l := cs) (by simp [hdrop])
          simp only [hdrop, List.head_cons] at hhead
          simp [hhead]
    have hwhole := numberLength_take_append hnone hdigits htail
    rw [List.takeWhile_append_dropWhile] at hwhole
    exact hwhole

/-- A word that stands in front of a text, and that nothing behind it makes longer, is valid. -/
theorem Word.Stands.valid {w : Word} {cs : List Char} (h : w.Stands cs)
    (hf : w.Bounded (cs.drop w.spelling.length)) : w.Valid := by
  cases w with
  | symbol s => exact h.1
  | keyword s => exact h.1
  | string s => exact h.1
  | name s =>
      have hpos := h.length_pos.1
      have hfirst := Word.first_name h hf
      refine ⟨List.length_pos_iff.mp hpos, by rw [h.1, nameLength_take], fun hreserved => ?_⟩
      have hnamed : Word.named s = .keyword s := if_pos hreserved
      obtain ⟨c, rest, rfl⟩ : ∃ c rest, cs = c :: rest :=
        List.exists_cons_of_ne_nil (List.length_pos_iff.mp h.length_pos.2)
      rw [Word.first_named (Word.Stands.name_head h), ← h.1, String.ofList_toList, hnamed] at hfirst
      cases hfirst
  | number s =>
      have hpos := h.length_pos.1
      exact ⟨List.length_pos_iff.mp hpos, by rw [h.1, numberLength_take]⟩

theorem Spans.valid {cs rest : List Char} {ws : List Word} (h : Spans cs ws rest)
    (hend : trimmed rest = []) (happart : ws.IsChain Word.Apart) : ∀ w ∈ ws, w.Valid := by
  induction h with
  | nil => nofun
  | cons stands further ih =>
      intro w hw
      rcases List.mem_cons.mp hw with rfl | hw
      · exact stands.valid (further.followed hend happart).bounded
      · exact ih hend happart.tail w hw

-- ============================================================== proper nodes

/-- No name among these words is a reserved word. -/
def Named (ws : List Word) : Prop := ∀ s, .name s ∈ ws → s ∉ reservedWords

theorem Named.mono {ws more : List Word} (h : Named ws) (hsub : ∀ w ∈ more, w ∈ ws) : Named more :=
  fun s hs => h s (hsub _ hs)

theorem Named.free {ws : List Word} {token : Token} (h : Named ws)
    (hkind : token.kind = .identifier) (hmem : token.word ∈ ws) : token.Free :=
  h token.lexeme (Token.word_of_identifier hkind ▸ hmem)

mutual

theorem Expr.proper : (e : Expr) → e.Canonical → Named e.words → ∀ n ∈ e.nodes, n.Proper
  | .literal .., _, _, n, hn => by
    obtain rfl := List.mem_singleton.mp hn
    trivial
  | .var _ name, hc, hw, n, hn => by
    obtain rfl := List.mem_singleton.mp hn
    exact hw.free hc (by simp [Expr.words])
  | .assign _ name value, hc, hw, n, hn => by
    rcases List.mem_cons.mp hn with rfl | hn
    · exact hw.free hc.1 (by simp [Expr.words])
    · exact value.proper hc.2 (hw.mono (by simp +contextual [Expr.words])) n hn
  | .binary _ left operator right, hc, hw, n, hn => by
    rcases List.mem_cons.mp hn with rfl | hn
    · exact hc.2.1
    obtain ⟨-, -, -, -, hl, hr⟩ := hc
    rcases List.mem_append.mp hn with hn | hn
    · exact left.proper hl (hw.mono (by simp +contextual [Expr.words])) n hn
    · exact right.proper hr (hw.mono (by simp +contextual [Expr.words])) n hn
  | .logical _ left operator right, hc, hw, n, hn => by
    rcases List.mem_cons.mp hn with rfl | hn
    · trivial
    rcases List.mem_append.mp hn with hn | hn
    · exact left.proper hc.2.1 (hw.mono (by simp +contextual [Expr.words])) n hn
    · exact right.proper hc.2.2 (hw.mono (by simp +contextual [Expr.words])) n hn
  | .unary _ operator operand, hc, hw, n, hn => by
    rcases List.mem_cons.mp hn with rfl | hn
    · exact hc.2.1
    · exact operand.proper hc.2.2.2 (hw.mono (by simp +contextual [Expr.words])) n hn
  | .grouping _ inner, hc, hw, n, hn => by
    rcases List.mem_cons.mp hn with rfl | hn
    · trivial
    · exact inner.proper hc (hw.mono (by simp +contextual [Expr.words])) n hn
  | .call _ callee paren arguments, hc, hw, n, hn => by
    rcases List.mem_cons.mp hn with rfl | hn
    · trivial
    obtain ⟨-, hcallee, -, -, hall⟩ := hc
    rcases List.mem_append.mp hn with hn | hn
    · exact callee.proper hcallee (hw.mono (by simp +contextual [Expr.words])) n hn
    · refine Expr.properAll arguments hall (hw.mono fun w hmem => ?_) n hn
      simp only [Expr.words, List.mem_append, List.mem_cons]
      tauto
  | .get _ object name, hc, hw, n, hn => by
    rcases List.mem_cons.mp hn with rfl | hn
    · trivial
    · exact object.proper hc.2.1 (hw.mono (by simp +contextual [Expr.words])) n hn
  | .set _ object name value, hc, hw, n, hn => by
    rcases List.mem_cons.mp hn with rfl | hn
    · trivial
    obtain ⟨-, ho, -, hv⟩ := hc
    rcases List.mem_append.mp hn with hn | hn
    · exact value.proper hv (hw.mono (by simp +contextual [Expr.words])) n hn
    · exact object.proper ho (hw.mono (by simp +contextual [Expr.words])) n hn
  | .this _ keyword, hc, _, n, hn => by
    obtain rfl := List.mem_singleton.mp hn
    exact hc.2
  | .super .., _, _, n, hn => by
    obtain rfl := List.mem_singleton.mp hn
    trivial

theorem Expr.properAll : (es : List Expr) → Expr.CanonicalAll es → Named (Expr.wordsAll es) →
    ∀ n ∈ Expr.nodesAll es, n.Proper
  | [], _, _, n, hn => by cases hn
  | e :: rest, hc, hw, n, hn => by
    rcases List.mem_append.mp hn with hn | hn
    · exact e.proper hc.1 (hw.mono (by simp +contextual [Expr.wordsAll])) n hn
    · refine Expr.properAll rest hc.2 (hw.mono fun w hmem => ?_) n hn
      cases rest with
      | nil => cases hmem
      | cons e' rest =>
          simp only [Expr.wordsAll, Expr.wordsMore, List.mem_append, List.mem_cons] at hmem ⊢
          tauto

end

theorem Expr.properOptional {o : Option Expr} (hc : Expr.CanonicalOptional o)
    (hw : Named (Expr.wordsOptional o)) : ∀ n ∈ Expr.nodesOptional o, n.Proper := by
  cases o with
  | none => nofun
  | some e => exact e.proper hc hw

theorem Word.mem_commas {items : List (List Word)} {ws : List Word} {w : Word} (h : ws ∈ items)
    (hw : w ∈ ws) : w ∈ Word.commas items := by
  cases items with
  | nil => cases h
  | cons first rest =>
      rw [Word.commas]
      rcases List.mem_cons.mp h with rfl | h
      · exact List.mem_append_left _ hw
      · exact List.mem_append_right _
          (List.mem_flatMap.mpr ⟨ws, h, List.mem_cons_of_mem _ hw⟩)

theorem Token.mem_wordsAll {token : Token} {tokens : List Token} (h : token ∈ tokens) :
    token.word ∈ Token.wordsAll tokens :=
  Word.mem_commas (List.mem_map.mpr ⟨token, h, rfl⟩) (List.mem_singleton_self _)

theorem FunDecl.free_params {f : FunDecl} (hc : f.Canonical) (hw : Named f.words) :
    f.name.Free ∧ ∀ param ∈ f.params, param.Free := by
  obtain ⟨id, name, params, body⟩ := f
  obtain ⟨hname, hparams, -⟩ := hc
  refine ⟨hw.free hname (by simp [FunDecl.words, FunDecl.name]), fun param hparam => ?_⟩
  refine hw.free (hparams param hparam) ?_
  have hmem := Token.mem_wordsAll hparam
  simp only [FunDecl.words, List.mem_cons, List.mem_append, FunDecl.params] at hmem ⊢
  tauto

theorem FunDecl.mem_wordsAll {f : FunDecl} {fs : List FunDecl} (h : f ∈ fs) :
    ∀ w ∈ f.words, w ∈ FunDecl.wordsAll fs := by
  intro w hw
  rw [FunDecl.wordsAll_eq]
  exact List.mem_flatMap.mpr ⟨f, h, hw⟩

mutual

theorem Stmt.proper : (s : Stmt) → s.Canonical → Named s.words → ∀ n ∈ s.nodes, n.Proper
  | .expression _ e, hc, hw, n, hn => by
    rcases List.mem_cons.mp hn with rfl | hn
    · trivial
    · exact e.proper hc (hw.mono (by simp +contextual [Stmt.words])) n hn
  | .print _ e, hc, hw, n, hn => by
    rcases List.mem_cons.mp hn with rfl | hn
    · trivial
    · exact e.proper hc (hw.mono (by simp +contextual [Stmt.words])) n hn
  | .varDecl _ name initializer, hc, hw, n, hn => by
    rcases List.mem_cons.mp hn with rfl | hn
    · exact hw.free hc.1 (by simp [Stmt.words])
    · refine Expr.properOptional hc.2 (hw.mono fun w hmem => ?_) n hn
      cases initializer with
      | none => cases hmem
      | some e =>
          simp only [Expr.wordsOptional, Stmt.words, Expr.wordsInit, List.mem_cons,
            List.mem_append] at hmem ⊢
          tauto
  | .block _ body, hc, hw, n, hn => by
    rcases List.mem_cons.mp hn with rfl | hn
    · trivial
    · exact Stmt.properAll body hc (hw.mono (by simp +contextual [Stmt.words])) n hn
  | .ifThen _ condition thenBranch, hc, hw, n, hn => by
    rcases List.mem_cons.mp hn with rfl | hn
    · exact hc.2.2
    rcases List.mem_append.mp hn with hn | hn
    · exact condition.proper hc.1 (hw.mono (by simp +contextual [Stmt.words])) n hn
    · exact thenBranch.proper hc.2.1 (hw.mono (by simp +contextual [Stmt.words])) n hn
  | .ifElse _ condition thenBranch elseBranch, hc, hw, n, hn => by
    obtain ⟨hcond, hthen, hdeclares, -, helse, hdeclares'⟩ := hc
    rcases List.mem_cons.mp hn with rfl | hn
    · exact ⟨hdeclares, hdeclares'⟩
    rcases List.mem_append.mp hn with hn | hn
    · rcases List.mem_append.mp hn with hn | hn
      · exact condition.proper hcond (hw.mono (by simp +contextual [Stmt.words])) n hn
      · exact thenBranch.proper hthen (hw.mono (by simp +contextual [Stmt.words])) n hn
    · exact elseBranch.proper helse (hw.mono (by simp +contextual [Stmt.words])) n hn
  | .whileLoop _ condition body, hc, hw, n, hn => by
    rcases List.mem_cons.mp hn with rfl | hn
    · exact hc.2.2
    rcases List.mem_append.mp hn with hn | hn
    · exact condition.proper hc.1 (hw.mono (by simp +contextual [Stmt.words])) n hn
    · exact body.proper hc.2.1 (hw.mono (by simp +contextual [Stmt.words])) n hn
  | .funDecl f, hc, hw, n, hn => by
    have hf : Named f.words := hw.mono (by simp +contextual [Stmt.words])
    rcases List.mem_cons.mp hn with rfl | hn
    · exact FunDecl.free_params hc hf
    · exact f.proper hc hf n hn
  | .returnStmt _ keyword value, hc, hw, n, hn => by
    rcases List.mem_cons.mp hn with rfl | hn
    · trivial
    · exact Expr.properOptional hc.2 (hw.mono (by simp +contextual [Stmt.words])) n hn
  | .classDecl _ name superclass methods, hc, hw, n, hn => by
    obtain ⟨hname, hparent, hmethods⟩ := hc
    have hm : Named (FunDecl.wordsAll methods) := hw.mono (by simp +contextual [Stmt.words])
    rcases List.mem_cons.mp hn with rfl | hn
    · refine ⟨hw.free hname (by simp [Stmt.words]), fun f hf => ?_⟩
      have hfc := FunDecl.canonicalAll_iff.mp hmethods f hf
      exact (FunDecl.free_params hfc (hm.mono (FunDecl.mem_wordsAll hf))).2
    rcases List.mem_append.mp hn with hn | hn
    · cases superclass with
      | none => cases hn
      | some parent =>
          obtain rfl := List.mem_singleton.mp hn
          exact hw.free (hparent parent rfl) (by simp [Stmt.words, NameRef.words])
    · exact FunDecl.properAll methods hmethods hm n hn

theorem Stmt.properAll : (body : List Stmt) → Stmt.CanonicalAll body →
    Named (Stmt.wordsAll body) → ∀ n ∈ Stmt.nodesAll body, n.Proper
  | [], _, _, n, hn => by cases hn
  | s :: rest, hc, hw, n, hn => by
    rcases List.mem_append.mp hn with hn | hn
    · exact s.proper hc.1 (hw.mono (by simp +contextual [Stmt.wordsAll])) n hn
    · exact Stmt.properAll rest hc.2 (hw.mono (by simp +contextual [Stmt.wordsAll])) n hn

theorem FunDecl.proper : (f : FunDecl) → f.Canonical → Named f.words → ∀ n ∈ f.nodes, n.Proper
  | .mk _ name params body, hc, hw, n, hn =>
    Stmt.properAll body hc.2.2.2 (hw.mono (by simp +contextual [FunDecl.words])) n hn

theorem FunDecl.properAll : (fs : List FunDecl) → FunDecl.CanonicalAll fs →
    Named (FunDecl.wordsAll fs) → ∀ n ∈ FunDecl.nodesAll fs, n.Proper
  | [], _, _, n, hn => by cases hn
  | f :: rest, hc, hw, n, hn => by
    rcases List.mem_append.mp hn with hn | hn
    · exact f.proper hc.1 (hw.mono (by simp +contextual [FunDecl.wordsAll])) n hn
    · exact FunDecl.properAll rest hc.2 (hw.mono (by simp +contextual [FunDecl.wordsAll])) n hn

end

-- ============================================================== whole texts

/-- What reading a program brings. -/
structure ReadAs (text : List Char) (low high : NodeId) (body : List Stmt) : Prop where
  canonical : Stmt.CanonicalAll body
  /-- Every word of the tree is a word that can be read. -/
  valid : ∀ w ∈ Stmt.wordsAll body, w.Valid
  numbers : Numbers low high (Stmt.idsAll body)
  low_le : low ≤ high
  /-- Without loops of the longer kind the words of the text are those of the tree. -/
  same : .keyword "for" ∉ words text → words text = Stmt.wordsAll body

namespace Parser

theorem does_endOfText : Does endOfText fun _ s t =>
    trimmed s.cursor.rest = [] ∧ t.nextId = s.nextId := by
  unfold endOfText
  refine (does_look (fun _ s t => s.cursor.atEnd = true ∧ t = s) fun cursor => ?_).mono
    fun _ s t h => ?_
  · split
    · rename_i hend
      refine (Does.pure ()).mono fun _ s t h hcursor => ?_
      subst hcursor
      exact ⟨hend, h.2⟩
    · exact (Does.reject _).mono fun _ _ _ h => h.elim
  · obtain ⟨hend, rfl⟩ := h
    have hnil : s.cursor.skipTrivia.rest = [] := by simpa [Cursor.atEnd] using hend
    rw [Cursor.rest_skipTrivia] at hnil
    exact ⟨hnil, rfl⟩

theorem does_expression (depth : Nat) : Does (assignment depth) IsExpression := by
  have hdoes := does_assignment depth
  intro s
  cases hrun : assignment depth s with
  | error e t => exact hdoes.grown_error hrun
  | ok e t =>
      refine ⟨hdoes.grown hrun, fun hclean => ?_⟩
      obtain ⟨-, hc, hreads⟩ := hdoes.holds hrun hclean
      exact ⟨⟨hc, written_of_assignment hrun⟩, hreads⟩

theorem does_program (depth : Nat) :
    Does (program depth) fun body s t => ∃ u,
      IsBody body s u ∧ trimmed u.cursor.rest = [] ∧ t.nextId = u.nextId := by
  unfold program
  have hd : Does (declarationAt depth) IsStmt :=
    does_declaration (Firm.assignment depth) (does_expression depth) depth
  refine ((does_declarations none hd).bind fun body => does_endOfText.bind fun _ =>
    Does.pure body).mono fun body s t h => ?_
  obtain ⟨body, u, hread, _, _, hend, rfl, rfl⟩ := h
  exact ⟨u, hread, hend⟩

end Parser

/-- An accepted text was read to its end, and recovery passed over nothing. -/
theorem exists_run_of_program {text : List Char} {nextId : NodeId} {body : List Stmt}
    (h : (readProgram text nextId).program = .ok body) :
    ∃ t, Parser.program (text.length + 1) ⟨Cursor.start text, nextId, [], text.length⟩ = .ok body t
      ∧ t.recovered = [] ∧ (readProgram text nextId).nextId = t.nextId := by
  unfold readProgram Parser.read at h ⊢
  dsimp only at h ⊢
  cases hrun : Parser.program (text.length + 1) ⟨Cursor.start text, nextId, [], text.length⟩ with
  | error e t =>
      rw [hrun] at h
      simp [Reading.program] at h
  | ok found t =>
      rw [hrun] at h
      unfold Reading.program at h
      dsimp only at h
      split at h
      · rename_i a hresult hnone
        cases hresult
        cases h
        exact ⟨t, rfl, hnone, rfl⟩
      · cases h

/-- An accepted text is read word by word up to its end. -/
theorem isBody_of_program {text : List Char} {nextId : NodeId} {body : List Stmt}
    (h : (readProgram text nextId).program = .ok body) :
    ∃ u, Parser.IsBody body ⟨Cursor.start text, nextId, [], text.length⟩ u
      ∧ trimmed u.cursor.rest = [] ∧ (readProgram text nextId).nextId = u.nextId := by
  obtain ⟨t, hrun, hclean, hids⟩ := exists_run_of_program h
  rw [hids]
  exact (Parser.does_program _).holds hrun (by rw [hclean])

/-- The nodes of an accepted text get numbers of their own, and its words are as they were
written. -/
theorem readAs_of_program {text : List Char} {nextId : NodeId} {body : List Stmt}
    (h : (readProgram text nextId).program = .ok body) :
    ReadAs text nextId (readProgram text nextId).nextId body := by
  obtain ⟨u, ⟨ws, hwrites, hreads, hcanonical, hspells⟩, hend, hids⟩ := isBody_of_program h
  have hspans : Spans text ws u.cursor.rest := hreads.passes.spans
  have hwords := hspans.words_eq hend hwrites.is_sealed.chain
  have hvalid := hspans.valid hend hwrites.is_sealed.chain
  refine ⟨hcanonical, fun w hw => ?_, ?_, ?_, fun hfor => ?_⟩
  · rcases hwrites.known w hw with hw | hw
    · exact hvalid w hw
    · exact hw.valid
  · rw [hids]
    exact hreads.numbers
  · rw [hids]
    exact hreads.ids_le
  · rw [hwords] at hfor ⊢
    exact hwrites.same hfor

theorem ReadAs.proper {text : List Char} {low high : NodeId} {body : List Stmt}
    (h : ReadAs text low high body) : ∀ n ∈ Stmt.nodesAll body, n.Proper :=
  Stmt.properAll body h.canonical fun _ hs => (h.valid _ hs).2.2

end Lox
