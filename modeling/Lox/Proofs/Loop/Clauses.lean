/-
What a `for` means by itself, with no other loop behind it. The first clause runs
once, in a new scope; each pass tests the condition, runs the body, and evaluates
the increment if the body came to its end; the condition and the increment see what
stood around the body, and nothing that the body declared. This is told in the
terms of the reference: what is in sight is handed down, and a variable is a
location.
-/
import Lox.Proofs.Reference.Evaluate
import Lox.Proofs.Reading.Program

namespace Lox

/-- The clauses of a `for`. -/
structure ForLoop where
  initializer : Option Stmt
  condition : Option Expr
  increment : Option Expr
  body : Stmt

-- ==================================================================== meaning

namespace Reference

open Eval (stop)

/-- The value of a clause, which may be absent. -/
def clause (run : Runner) (names : Names) (room : Nat) (absent : Value) : Option Expr → Run Value
  | none => pure absent
  | some e => run.evaluate names room e

/-- The body, and then the increment if the body came to its end. -/
def turn (run : Runner) (loop : ForLoop) (sight : Sight) (room : Nat) : Run Completion := do
  let (completion, _) ← run.execute sight room loop.body
  match completion with
  | .normal => do
    let _ ← clause run sight.names room .nil loop.increment
    pure .normal
  | .returned v => pure (.returned v)

/-- Passes as long as the condition holds and nothing returns, all with the same in sight. -/
def passes (loop : ForLoop) (sight : Sight) (room : Nat) : Nat → Run Completion
  | 0 => stop .exhausted
  | fuel + 1 => do
    let holds ← clause (runner fuel) sight.names room (.boolean true) loop.condition
    if holds.isTruthy then
      match ← turn (runner fuel) loop sight room with
      | .normal => passes loop sight room fuel
      | .returned v => pure (.returned v)
    else pure .normal

/-- The first clause once, and then passes in sight of what it declared. -/
def performFor (loop : ForLoop) (sight : Sight) (room fuel : Nat) : Run Completion :=
  match loop.initializer with
  | none => passes loop sight.inside room fuel
  | some first => do
    let (_, behind) ← (runner fuel).execute sight.inside room first
    passes loop behind room fuel

end Reference

-- ==================================================================== reading

/-- A first clause declares a variable or is an expression. -/
def Stmt.IsFirst : Stmt → Prop
  | .varDecl .. | .expression .. => True
  | _ => False

namespace ForLoop

/-- The words of a `for`. -/
inductive Spells : ForLoop → List Word → Prop
  | mk {loop : ForLoop} {first ws : List Word} {o : Bool}
      (hfirst : Stmt.Starts Expr.Verbatim loop.initializer first)
      (hbody : loop.body.Spells Expr.Verbatim o ws) :
      Spells loop (.keyword "for" :: .symbol "(" :: (first ++ (Expr.wordsOptional loop.condition
        ++ .symbol ";" :: (Expr.wordsOptional loop.increment ++ .symbol ")" :: ws))))

/-- A statement is the tree that stands for a `for`. -/
structure Makes (loop : ForLoop) (whole : Stmt) : Prop where
  first : ∀ s ∈ loop.initializer, s.IsFirst
  plain : loop.body.declares = none
  built : IsLoop loop.initializer loop.condition loop.increment loop.body whole

/-- The body stands somewhere in the tree. -/
theorem Makes.proper {loop : ForLoop} {whole : Stmt} (h : loop.Makes whole)
    (hwhole : ∀ n ∈ whole.nodes, n.Proper) : ∀ n ∈ loop.body.nodes, n.Proper := by
  obtain ⟨-, -, ⟨-, hbody, hblock⟩⟩ := h
  obtain ⟨first, condition, increment, s⟩ := loop
  intro n hn
  refine hwhole n ?_
  cases hbody <;> cases hblock <;> simp [Stmt.nodes, Stmt.nodesAll, hn]

end ForLoop

theorem Stmt.Starts.isFirst {P : Expr → Prop} {initializer : Option Stmt} {ws : List Word}
    (h : Stmt.Starts P initializer ws) : ∀ s ∈ initializer, s.IsFirst := by
  rintro s hs
  cases h with
  | nothing => cases hs
  | declaration | expression =>
      cases hs
      trivial

namespace Parser

variable {expression : Parser Expr} {block : Parser (List Stmt)} {statement : Parser Stmt}

/-- What the grammar reads as a `for` is the tree of the clauses that stand there. -/
theorem does_forStmt_makes (he : Does expression IsExpression)
    (hs : Does statement (IsBranch expression block)) :
    Does (forStmt expression statement) fun whole s t => ∃ (loop : ForLoop) (ws : List Word),
      loop.Spells ws ∧ s.cursor.Passes ws t.cursor ∧ loop.Makes whole := by
  unfold forStmt
  refine ((does_word "for" (by decide)).bind fun _ =>
    ((does_symbol "(" rfl (by decide) (by decide)).bind fun _ => (does_forInitializer he).bind
      fun initializer => (does_optionalExpr he).bind fun condition =>
        (does_symbol ";" rfl (by decide) (by decide)).bind fun _ => (does_optionalExpr he).bind
          fun increment => (does_symbol ")" rfl (by decide) (by decide)).bind fun _ =>
            hs.bind fun body => does_forLoop initializer condition increment body).committed).mono
              fun whole s t h => ?_
  obtain ⟨_, _, hword, _, _, hopen, initializer, _, ⟨first, -, hfirst, -, -, hstarts⟩, condition, _,
    ⟨-, hcondition⟩, _, _, hsemi, increment, _, ⟨-, hincrement⟩, _, _, hclose, body, u,
    ⟨⟨ws, -, hbody, -, o, hspells, -⟩, hdeclares⟩, hloop, hbuilds⟩ := h
  have hall := (hword.trans (hopen.trans (hfirst.trans (hcondition.trans (hsemi.trans
    (hincrement.trans (hclose.trans hbody))))))).passes
  simp only [List.cons_append, List.nil_append] at hall
  rw [← hbuilds.cursor] at hall
  exact ⟨⟨initializer, condition, increment, body⟩, _, .mk hstarts hspells, hall, hstarts.isFirst,
    hdeclares, hloop⟩

/-- So it is wherever expressions, blocks and statements are those of the grammar. -/
theorem makes_of_forStmt {size outer depth : Nat} {s t : Progress} {whole : Stmt}
    (h : forStmt (assignment size) (Parser.statement (assignment size)
      (braced (declaration (assignment size) outer)) depth) s = .ok whole t)
    (hclean : t.recovered.length = s.recovered.length) :
    ∃ (loop : ForLoop) (ws : List Word),
      loop.Spells ws ∧ s.cursor.Passes ws t.cursor ∧ loop.Makes whole := by
  have hdeclaration := does_declaration (Firm.assignment size) (does_expression size) outer
  have hbraced : Firm (braced (declaration (assignment size) outer))
      (braced (declaration (assignment size) outer)) :=
    (Local.symbol _).firm.bind_hard fun _ => .committed _
  have hstatement := does_statement (Firm.assignment size) hbraced (does_expression size)
    (does_braced hdeclaration) depth
  exact (does_forStmt_makes (does_expression size) (hstatement.mono fun _ _ _ h => h.1)).holds h
    hclean

end Parser

end Lox
