/-
Reading expressions never recovers. Recovery belongs to declarations, so a reader
of expressions leaves the record of faults as it found it, whether it succeeds or
not (`Steady`). An expression that was read has therefore kept its contract, and
its nodes have numbers of their own.
-/
import Lox.Proofs.Reading.Program

namespace Lox.Parser

variable {α β : Type} {p : Parser α} {f : α → Parser β} {s t : Progress}

/-- A reader that puts no fault on record. -/
def Steady (p : Parser α) : Prop :=
  ∀ s, match p s with
    | .ok _ t | .error _ t => t.recovered = s.recovered

namespace Steady

theorem of_ok {a : α} (hp : Steady p) (h : p s = .ok a t) : t.recovered = s.recovered := by
  have := hp s
  rw [h] at this
  exact this

theorem of_error {e : Failure} (hp : Steady p) (h : p s = .error e t) :
    t.recovered = s.recovered := by
  have := hp s
  rw [h] at this
  exact this

-- ============================================================ the combinators

theorem pure (a : α) : Steady (pure a : Parser α) := fun _ => rfl

theorem bind (hp : Steady p) (hf : ∀ a, Steady (f a)) : Steady (p >>= f) := by
  intro s
  cases hrun : p s with
  | error e t =>
      rw [run_bind_error hrun]
      exact hp.of_error hrun
  | ok a t =>
      rw [run_bind_ok hrun]
      have hfirst := hp.of_ok hrun
      cases hrest : f a t with
      | error e u => exact ((hf a).of_error hrest).trans hfirst
      | ok b u => exact ((hf a).of_ok hrest).trans hfirst

theorem failAt (weight : Weight) (cause : FaultCause) (place : Place) :
    Steady (failAt weight cause place : Parser α) := fun _ => rfl

theorem reject (what : Expectation) : Steady (reject what : Parser α) := fun _ => rfl

theorem committed (hp : Steady p) : Steady (committed p) := by
  intro s
  unfold Parser.committed
  cases hrun : p s with
  | ok a t => exact hp.of_ok hrun
  | error e t => exact hp.of_error hrun

theorem here : Steady here := fun _ => rfl

theorem skipTrivia : Steady skipTrivia := fun _ => rfl

theorem take (n : Nat) : Steady (take n) := fun _ => rfl

theorem freshId : Steady freshId := fun _ => rfl

theorem optional (hp : Steady p) : Steady (optional p) := by
  intro s
  unfold Parser.optional
  cases hrun : p s with
  | ok a t => exact hp.of_ok hrun
  | error e t =>
      dsimp only
      cases e.weight with
      | soft => exact of_error (t := t) hp hrun
      | refusal | committed => exact hp.of_error hrun

theorem manyWithin (hp : Steady p) (rounds : Nat) : Steady (manyWithin p rounds) := by
  induction rounds with
  | zero => exact .pure _
  | succ rounds ih =>
      refine hp.optional.bind fun found => ?_
      cases found with
      | none => exact .pure _
      | some a => exact ih.bind fun more => .pure _

theorem many (hp : Steady p) : Steady (many p) := fun s => hp.manyWithin (s.bound + 1) s

theorem firstOf {ps : List (Parser α)} (hps : ∀ p ∈ ps, Steady p) (best : Option Failure) :
    Steady (firstOf best ps) := by
  induction ps generalizing best with
  | nil =>
      intro s
      cases best <;> rfl
  | cons p others ih =>
      have hp := hps p List.mem_cons_self
      have hothers := ih fun q hq => hps q (List.mem_cons_of_mem p hq)
      intro s
      unfold Parser.firstOf
      cases hrun : p s with
      | ok a t => exact hp.of_ok hrun
      | error e t =>
          have hback := hp.of_error hrun
          dsimp only
          cases e.weight with
          | refusal | committed => exact hback
          | soft =>
              have hnext := hothers (some (Failure.further best e)) { t with cursor := s.cursor }
              dsimp only at hnext ⊢
              rw [← hback]
              exact hnext

theorem choice (name : Expectation) {ps : List (Parser α)} (hps : ∀ p ∈ ps, Steady p) :
    Steady (choice name ps) := by
  intro s
  have hfirst := firstOf hps none { s with cursor := s.cursor.skipTrivia }
  unfold Parser.choice
  dsimp only
  generalize Parser.firstOf none ps { s with cursor := s.cursor.skipTrivia } = r at hfirst ⊢
  cases r with
  | ok a t => exact hfirst
  | error e t =>
      dsimp only at hfirst ⊢
      generalize (decide (e.weight = .soft)
        && decide (e.fault.place.offset = s.cursor.skipTrivia.offset)) = named
      cases named <;> exact hfirst

-- ============================================================== single words

/-- A reader that passes trivia and looks at the text. -/
theorem look {k : Cursor → Parser α} (hk : ∀ c, Steady (k c)) :
    Steady (do let _ ← Parser.skipTrivia; let cursor ← Parser.here; k cursor) :=
  skipTrivia.bind fun _ => here.bind hk

theorem takeToken (kind : TokenKind) (n : Nat) : Steady (takeToken kind n) :=
  here.bind fun _ => (take n).bind fun _ => .pure _

theorem symbol (c : Char) : Steady (symbol c) := by
  refine look fun cursor => ?_
  split
  · exact .take 1
  · exact .reject _

theorem symbolToken (kind : TokenKind) (c : Char) : Steady (symbolToken kind c) := by
  refine look fun cursor => ?_
  split
  · exact .takeToken kind 1
  · exact .reject _

theorem keyword (kind : TokenKind) (word : String) : Steady (keyword kind word) := by
  refine look fun cursor => ?_
  split
  · exact .reject _
  split
  · exact .failAt _ _ _
  dsimp only
  split
  · exact .failAt _ _ _
  · exact .takeToken _ _

theorem operator (spellings : List String) : Steady (operator spellings) := by
  refine look fun cursor => ?_
  split
  · exact .takeToken _ _
  · exact .reject _

theorem equalSign : Steady equalSign := by
  refine look fun cursor => ?_
  split
  · exact .reject _
  · exact .takeToken _ _
  · exact .reject _

theorem identifier : Steady identifier := by
  refine look fun cursor => ?_
  dsimp only
  split
  · exact .reject _
  · exact .takeToken _ _

theorem numberConstant : Steady numberConstant := by
  refine look fun cursor => ?_
  dsimp only
  split
  · exact .reject _
  · exact (takeToken _ _).bind fun _ => .pure _

theorem stringConstant : Steady stringConstant := by
  refine look fun cursor => ?_
  split
  · dsimp only
    split
    · exact (take _).bind fun _ => .pure _
    · exact .reject _
  · exact .reject _

-- ============================================================== expressions

variable {expression : Parser Expr}

theorem literal {p : Parser (Constant × Token)} (hp : Steady p) : Steady (literal p) :=
  hp.bind fun _ => freshId.bind fun _ => .pure _

theorem primary (he : Steady expression) : Steady (primary expression) := by
  have hword : ∀ word value, Steady (Parser.literal (wordConstant word value)) := fun word value =>
    literal ((keyword _ _).bind fun _ => .pure _)
  refine choice _ fun p hp => ?_
  simp only [List.mem_cons, List.not_mem_nil, or_false] at hp
  rcases hp with rfl | rfl | rfl | rfl | rfl | rfl | rfl | rfl | rfl
  · exact literal numberConstant
  · exact literal stringConstant
  · exact hword _ _
  · exact hword _ _
  · exact hword _ _
  · exact (keyword _ _).bind fun _ => freshId.bind fun _ => .pure _
  · exact (keyword _ _).bind fun _ => .committed <| (symbol _).bind fun _ =>
      identifier.bind fun _ => freshId.bind fun _ => .pure _
  · exact identifier.bind fun _ => freshId.bind fun _ => .pure _
  · exact (symbol _).bind fun _ => .committed <| he.bind fun _ => (symbol _).bind fun _ =>
      freshId.bind fun _ => .pure _

theorem callSuffix (he : Steady expression) : Steady (callSuffix expression) := by
  have hitems : Steady (commaSeparated expression) :=
    (optional (he.bind fun _ => (many ((symbol _).bind fun _ => he)).bind fun _ => .pure _)).bind
      fun _ => .pure _
  refine skipTrivia.bind fun _ => (symbol _).bind fun _ => hitems.bind fun _ =>
    (symbolToken _ _).bind fun _ => ?_
  split
  · exact .failAt _ _ _
  · exact .pure _

theorem applySuffixes (e : Expr) (suffixes : List Suffix) : Steady (applySuffixes e suffixes) := by
  induction suffixes generalizing e with
  | nil => exact .pure e
  | cons suffix rest ih =>
      cases suffix with
      | call paren arguments => exact freshId.bind fun _ => ih _
      | get name => exact freshId.bind fun _ => ih _

theorem call (he : Steady expression) : Steady (call expression) := by
  refine (primary he).bind fun head => (many (firstOf (fun p hp => ?_) none)).bind fun suffixes =>
    applySuffixes head suffixes
  simp only [List.mem_cons, List.not_mem_nil, or_false] at hp
  rcases hp with rfl | rfl
  · exact callSuffix he
  · exact (symbol _).bind fun _ => identifier.bind fun _ => .pure _

theorem unary (he : Steady expression) (depth : Nat) : Steady (unary expression depth) := by
  induction depth with
  | zero => exact .reject _
  | succ depth ih =>
      intro s
      refine choice .expression (fun p hp => ?_) s
      simp only [List.mem_cons, List.not_mem_nil, or_false] at hp
      rcases hp with rfl | rfl
      · exact (operator _).bind fun _ => ih.bind fun _ => freshId.bind fun _ => .pure _
      · exact call he

theorem foldLeft (join : Joiner) (left : Expr) (more : List (Token × Expr)) :
    Steady (foldLeft join left more) := by
  induction more generalizing left with
  | nil => exact .pure left
  | cons pair rest ih => exact freshId.bind fun _ => ih _

theorem leftAssociative (join : Joiner) {token : Parser Token} {operand : Parser Expr}
    (ht : Steady token) (ho : Steady operand) : Steady (leftAssociative join token operand) :=
  ho.bind fun first => (many (ht.bind fun _ => ho.bind fun _ => .pure _)).bind fun more =>
    foldLeft join first more

theorem assignment (depth : Nat) : Steady (assignment depth) := by
  induction depth with
  | zero => exact .reject _
  | succ depth ih =>
      have hlevels : Steady (logicalOr (Parser.unary (Parser.assignment depth) (depth + 1))) :=
        leftAssociative _ (keyword _ _) <| leftAssociative _ (keyword _ _) <|
          leftAssociative _ (operator _) <| leftAssociative _ (operator _) <|
          leftAssociative _ (operator _) <| leftAssociative _ (operator _) <| unary ih _
      intro s
      refine hlevels.bind (fun target => (optional (equalSign.bind fun _ => ih.bind fun _ =>
        .pure _)).bind fun source => ?_) s
      cases source with
      | none => exact .pure target
      | some pair =>
          cases target with
          | var | get => exact freshId.bind fun _ => .pure _
          | _ => exact .failAt _ _ _

theorem singleExpression (depth : Nat) : Steady (singleExpression depth) := by
  refine (assignment depth).bind fun e => bind ?_ fun _ => .pure e
  refine look fun cursor => ?_
  split
  · exact .pure ()
  · exact .reject _

end Steady

/-- An expression takes its numbers from those it was offered. -/
theorem does_singleExpression (depth : Nat) :
    Does (singleExpression depth) fun e s t => Numbers s.nextId t.nextId e.ids := by
  refine ((does_expression depth).bind fun e => does_endOfText.bind fun _ => Does.pure e).mono
    fun e s t h => ?_
  obtain ⟨found, u, ⟨-, hreads⟩, _, _, ⟨-, hids⟩, rfl, rfl⟩ := h
  rw [hids]
  exact hreads.numbers

end Lox.Parser

namespace Lox

/-- An expression is read to its end, and nothing is passed over. -/
theorem exists_run_of_expression {text : List Char} {low : NodeId} {e : Expr}
    (h : (readExpression text low).result = .ok e) :
    ∃ t, Parser.singleExpression (text.length + 1) ⟨Cursor.start text, low, [], text.length⟩
        = .ok e t
      ∧ t.recovered = [] ∧ (readExpression text low).nextId = t.nextId := by
  unfold readExpression Parser.read at h ⊢
  dsimp only at h ⊢
  cases hrun : Parser.singleExpression (text.length + 1)
    ⟨Cursor.start text, low, [], text.length⟩ with
  | error failure t =>
      rw [hrun] at h
      cases h
  | ok found t =>
      rw [hrun] at h
      obtain rfl := Except.ok.inj h
      exact ⟨t, rfl, (Parser.Steady.singleExpression (text.length + 1)).of_ok hrun, rfl⟩

/-- The nodes of an expression that was read got numbers of their own. -/
theorem numbers_of_expression {text : List Char} {low : NodeId} {e : Expr}
    (h : (readExpression text low).result = .ok e) :
    Numbers low (readExpression text low).nextId e.ids := by
  obtain ⟨t, hrun, hclean, hids⟩ := exists_run_of_expression h
  rw [hids]
  exact (Parser.does_singleExpression _).holds hrun (congrArg List.length hclean)

end Lox
