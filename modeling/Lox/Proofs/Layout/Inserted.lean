/-
White space and comments mean nothing. A text that is accepted is read as the same
tree with either of them put in between its words, with one exception: a comment
that ends in a backslash goes on behind its newline, and takes the next line of the
program with it. Recovery knows no such exception.
-/
import Lox.Proofs.Layout.Seam
import Lox.Proofs.Rendering.Program

namespace Lox

/-- An accepted text spells its tree, word by word. -/
theorem spelt_of_program {text : List Char} {nextId : NodeId} {body : List Stmt}
    (h : (readProgram text nextId).program = .ok body) :
    ∃ ws, Stmt.SpellsAll Expr.Verbatim body ws ∧ (Cursor.start text).Ahead ws := by
  obtain ⟨u, ⟨ws, hwrites, hreads, -, hspells⟩, hend, -⟩ := isBody_of_program h
  exact ⟨ws, hspells, .of_passes hreads.passes hend hwrites.is_sealed.chain⟩

theorem gapLength_comment {c : List Char} (hline : '\n' ∉ c) (rest : List Char) :
    gapLength false (lineComment c ++ rest)
      = (lineComment c).length + gapLength false rest := by
  have hblank : gapLength false (lineComment c ++ rest)
      = gapLength false ('/' :: '/' :: (c ++ ['\n'] ++ rest)) + 1 := rfl
  have hcomment : gapLength false ('/' :: '/' :: (c ++ ['\n'] ++ rest))
      = gapLength true (c ++ ['\n'] ++ rest) + 2 := rfl
  rw [hblank, hcomment, List.append_assoc, List.singleton_append, gapLength_line hline]
  simp only [lineComment, List.length_cons, List.length_append, List.length_nil]
  omega

/-- White space and comments that end in no backslash change nothing but numbers and places,
wherever a word begins or the last one ends; and recovery passes every comment up to its newline. -/
theorem trivia_inserted {text : List Char} {nextId : NodeId} {body : List Stmt}
    (h : (readProgram text nextId).program = .ok body) {k : Nat} (hk : Seam text k)
    {filler : List Char} (hfiller : Filler filler) (next : NodeId) :
    (∃ body', (readProgram (inserted text k filler) next).program = .ok body'
      ∧ List.Forall₂ (Stmt.Alike .layout) body body')
    ∧ ∀ c rest : List Char, '\n' ∉ c → gapLength false (lineComment c ++ rest)
        = (lineComment c).length + gapLength false rest := by
  obtain ⟨ws, hspells, hahead⟩ := spelt_of_program h
  have hstill : (Cursor.start (inserted text k filler)).Ahead ws :=
    hahead.of_seam hk hfiller rfl rfl rfl
  exact ⟨readProgram_of_ahead Likeness.lax_layout (fun _ hv => hv.canonical) Parser.rereads_layout
    hspells hstill next, fun _ rest hline => gapLength_comment hline rest⟩

/-- A text with a loop that has neither condition nor increment. -/
def loopText : List Char := "for (;;) print 1;".toList

theorem seam_loopText : Seam loopText 5 :=
  .later (by decide) (.later (by decide) (.front (by decide)))

theorem trivia_inserted_loop :
    ∃ body, (readProgram loopText 0).program = .ok body
      ∧ ∃ body', (readProgram (inserted loopText 5 (lineComment ['x'])) 0).program = .ok body'
        ∧ List.Forall₂ (Stmt.Alike .layout) body body' := by
  have hread : (readProgram loopText 0).program.toOption.isSome = true := by decide +kernel
  cases hprogram : (readProgram loopText 0).program with
  | error faults =>
      rw [hprogram] at hread
      cases hread
  | ok body =>
      have hfiller : Filler (lineComment ['x']) := .comment (by decide) (by decide)
      exact ⟨body, rfl, (trivia_inserted hprogram seam_loopText hfiller 0).1⟩

/-- A text of one statement. -/
def statementText : List Char := "print 2;".toList

/-- A comment that ends in a backslash takes the statement behind it away. -/
theorem comment_carried :
    ∃ body, (readProgram statementText 0).program = .ok body ∧ Seam statementText 0
      ∧ '\n' ∉ ['\\']
      ∧ ¬ ∃ body', (readProgram (inserted statementText 0 (lineComment ['\\'])) 0).program
          = .ok body' ∧ List.Forall₂ (Stmt.Alike .layout) body body' := by
  have hread : (readProgram statementText 0).program.toOption.map List.length = some 1 := by
    decide +kernel
  have hcarried : (readProgram (inserted statementText 0
      (lineComment ['\\'])) 0).program.toOption.map List.length = some 0 := by decide +kernel
  cases hprogram : (readProgram statementText 0).program with
  | error faults =>
      rw [hprogram] at hread
      cases hread
  | ok body =>
      refine ⟨body, rfl, .front (by decide), by decide, ?_⟩
      rintro ⟨body', hprogram', halike⟩
      rw [hprogram] at hread
      rw [hprogram'] at hcarried
      have hlength := halike.length_eq
      have hone : body.length = 1 := Option.some.inj hread
      have hzero : body'.length = 0 := Option.some.inj hcarried
      omega

end Lox
