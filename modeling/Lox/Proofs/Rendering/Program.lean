/-
Whole texts. The tree of an accepted text, written down, is accepted again and
read as the same tree; and where no `for` was rewritten, the words that are
written down are the words of the text.
-/
import Lox.Proofs.Rendering.Statement

namespace Lox

open Word (written)

namespace Parser

theorem takes_endOfText : Takes endOfText [] [] fun _ => True := by
  intro s hs
  have hend : s.cursor.skipTrivia.atEnd = true := by
    rw [Cursor.atEnd, hs.front.rest_nil]
    rfl
  refine ⟨(), { s with cursor := s.cursor.skipTrivia }, ?_, trivial, hs.skipTrivia, rfl⟩
  show (if s.cursor.skipTrivia.atEnd then pure () else reject .endOfText : Parser Unit)
    { s with cursor := s.cursor.skipTrivia } = _
  rw [if_pos hend]
  rfl

section

variable {P : Expr → Prop} {ρ : Likeness} {depth : Nat} {ws : List Word} {body : List Stmt}

/-- A program is read off the words that spell it. -/
theorem takes_program (hρ : ρ.Lax) (hP : ∀ e, P e → e.Canonical)
    (he : Rereads P ρ depth (assignment depth)) (hspells : Stmt.SpellsAll P body ws)
    (hlength : ws.length ≤ depth) :
    Takes (program depth) ws [] (List.Forall₂ (Stmt.Alike ρ) body) := by
  have hnone : ∀ w ∈ closers, ∀ more, Leaves (assignment depth) (w :: more) :=
    fun w hw more => leaves_assignment hw depth
  have hd : InvertsStmt P ρ (fun _ => True) depth (declarationAt depth) :=
    inverts_declaration hρ hP he hnone (Nat.le_refl depth)
  have hbody : Takes (declarations none (declarationAt depth)) ws []
      (List.Forall₂ (Stmt.Alike ρ) body) :=
    takes_declarations hP hd hspells hlength (.inl rfl) rfl (by simp)
  exact hbody.last fun body' hbody' => .silent takes_endOfText fun _ _ => .pure hbody'

end

theorem rereads_outline (depth : Nat) :
    Rereads Expr.Canonical .outline depth (assignment depth) := by
  intro e hc hlength more hstops
  exact (inverts_assignment depth e hc (Nat.zero_le _) hlength more hstops).mono fun _ houtline =>
    e.alike_of_outline houtline

/-- Read again, no constant lacks its token either. -/
theorem rereads_layout (depth : Nat) :
    Rereads Expr.Verbatim .layout depth (assignment depth) := by
  intro e hv hlength more hstops s hs
  obtain ⟨e', t, hrun, halike, ht⟩ := rereads_outline depth e hv.canonical hlength more hstops s hs
  exact ⟨e', t, hrun, e.alike_layout halike hv.written (written_of_assignment hrun), ht⟩

/-- The start of a text. -/
theorem facing_start {ws : List Word} {text : List Char} (h : (Cursor.start text).Ahead ws)
    (nextId : NodeId) : Facing ⟨Cursor.start text, nextId, [], text.length⟩ ws :=
  ⟨h, h.length_le⟩

end Parser

/-- A text whose words spell a program is accepted, and read as that program. -/
theorem readProgram_of_ahead {P : Expr → Prop} {ρ : Likeness} (hρ : ρ.Lax)
    (hP : ∀ e, P e → e.Canonical)
    (he : ∀ depth, Parser.Rereads P ρ depth (Parser.assignment depth)) {body : List Stmt}
    {ws : List Word} (hspells : Stmt.SpellsAll P body ws) {text : List Char}
    (hahead : (Cursor.start text).Ahead ws) (nextId : NodeId) :
    ∃ body', (readProgram text nextId).program = .ok body'
      ∧ List.Forall₂ (Stmt.Alike ρ) body body' := by
  have hdepth : ws.length ≤ text.length + 1 := Nat.le_succ_of_le hahead.length_le
  have hfacing := Parser.facing_start hahead nextId
  obtain ⟨body', t, hrun, halike, -, hclean⟩ :=
    Parser.takes_program hρ hP (he _) hspells hdepth _ (by rwa [List.append_nil])
  refine ⟨body', ?_, halike⟩
  unfold readProgram Parser.read
  dsimp only
  rw [hrun]
  dsimp only
  rw [hclean]
  rfl

/-- A canonical program that is written down is accepted, and read as it was. -/
theorem readProgram_render {body : List Stmt} (hc : Stmt.CanonicalAll body)
    (hvalid : ∀ w ∈ Stmt.wordsAll body, w.Valid) (nextId : NodeId) :
    ∃ body', (readProgram (render body).toList nextId).program = .ok body'
      ∧ Stmt.outlineAll body' = Stmt.outlineAll body := by
  rw [render_toList]
  obtain ⟨body', hprogram, halike⟩ := readProgram_of_ahead Likeness.lax_outline (fun _ => id)
    Parser.rereads_outline (Stmt.spellsAll_words body hc) (ahead_written hvalid) nextId
  exact ⟨body', hprogram, Stmt.outlineAll_eq_of_alike body halike⟩

/-- Reading is inverted by writing down, and loses no word. -/
theorem render_inverts {text : List Char} {nextId : NodeId} {body : List Stmt}
    (h : (readProgram text nextId).program = .ok body) :
    (∀ next, ∃ body', (readProgram (render body).toList next).program = .ok body'
        ∧ Stmt.outlineAll body' = Stmt.outlineAll body)
      ∧ (.keyword "for" ∉ words text → words (render body).toList = words text) := by
  have hread := readAs_of_program h
  refine ⟨fun next => readProgram_render hread.canonical hread.valid next, fun hfor => ?_⟩
  rw [render_toList, words_written hread.valid, hread.same hfor]

/-- A text in which the `else` belongs to the inner `if`. -/
def danglingText : List Char :=
  "if (a) // b\n if (c) d = e.f(-g); else print \"h\";".toList

theorem render_inverts_dangling :
    .keyword "for" ∉ words danglingText ∧ ∃ body, (readProgram danglingText 0).program = .ok body
      ∧ (∀ next, ∃ body', (readProgram (render body).toList next).program = .ok body'
        ∧ Stmt.outlineAll body' = Stmt.outlineAll body)
      ∧ words (render body).toList = words danglingText := by
  have hwords : .keyword "for" ∉ words danglingText := by decide +kernel
  have hread : (readProgram danglingText 0).program.toOption.isSome = true := by decide +kernel
  refine ⟨hwords, ?_⟩
  cases hprogram : (readProgram danglingText 0).program with
  | error faults =>
      rw [hprogram] at hread
      cases hread
  | ok body =>
      obtain ⟨hinverse, hsame⟩ := render_inverts hprogram
      exact ⟨body, rfl, hinverse, hsame hwords⟩

end Lox
