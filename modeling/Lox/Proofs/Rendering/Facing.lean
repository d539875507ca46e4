/-
Readers at work on the words of a text. All that counts of a point of progress is
the words that lie ahead (`Facing`). A reader then takes the words it is for, and
leaves the others to the next alternative.

The contract of a rule is put together from those of its parts, as the rule is.
It speaks of the words behind the rule as well: what follows decides where a
repetition ends.
-/
import Lox.Proofs.Reading.Ahead

namespace Lox

open Text Word

namespace Parser

variable {α β γ : Type} {s t : Progress} {ws more : List Word} {w : Word}

/-- Trivia aside, what lies ahead is some words. -/
structure Facing (s : Progress) (ws : List Word) : Prop where
  ahead : s.cursor.Ahead ws
  /-- A repetition may take every word in a round of its own. -/
  bound : ws.length ≤ s.bound

namespace Facing

theorem front (h : Facing s ws) : s.cursor.skipTrivia.InFront ws := h.ahead.inFront

theorem skipTrivia (h : Facing s ws) : Facing { s with cursor := s.cursor.skipTrivia } ws :=
  ⟨h.ahead.skipTrivia, h.bound⟩

/-- Only the cursor and the bound count. -/
theorem of_same (h : Facing s ws) (hcursor : t.cursor = s.cursor) (hbound : t.bound = s.bound) :
    Facing t ws where
  ahead := by
    rw [hcursor]
    exact h.ahead
  bound := by
    rw [hbound]
    exact h.bound

/-- Behind the first word lie the others. -/
theorem next (h : Facing s (w :: more)) :
    Facing { s with cursor := s.cursor.skipTrivia.advance w.spelling.length } more :=
  ⟨h.front.next, Nat.le_of_succ_le h.bound⟩

end Facing

/-- In front of these words, with others behind them, the reader takes just these and brings
something good, and no fault goes on record. -/
def Takes (p : Parser α) (ws more : List Word) (good : α → Prop) : Prop :=
  ∀ s, Facing s (ws ++ more) →
    ∃ a t, p s = .ok a t ∧ good a ∧ Facing t more ∧ t.recovered = s.recovered

/-- In front of these words the reader fails softly. -/
def Leaves (p : Parser α) (ws : List Word) : Prop :=
  ∀ s, Facing s ws →
    ∃ e t, p s = .error e t ∧ e.weight = .soft ∧ t.bound = s.bound ∧ t.recovered = s.recovered

variable {p : Parser α} {f : α → Parser β} {ws' : List Word} {good : α → Prop} {fine : β → Prop}
  {ps : List (Parser α)} {best : Option Failure} {a : α} {e : Failure}

-- ============================================================ the contracts

namespace Takes

theorem mono {better : α → Prop} (hp : Takes p ws more good) (h : ∀ a, good a → better a) :
    Takes p ws more better := by
  intro s hs
  obtain ⟨a, t, hrun, hgood, ht⟩ := hp s hs
  exact ⟨a, t, hrun, h a hgood, ht⟩

theorem pure {a : α} (h : good a) : Takes (pure a) [] more good :=
  fun s hs => ⟨a, s, rfl, h, hs, rfl⟩

/-- One reader after another. -/
theorem bind (hp : Takes p ws (ws' ++ more) good) (hf : ∀ a, good a → Takes (f a) ws' more fine) :
    Takes (p >>= f) (ws ++ ws') more fine := by
  intro s hs
  rw [List.append_assoc] at hs
  obtain ⟨a, t, hrun, hgood, ht, hsame⟩ := hp s hs
  obtain ⟨b, u, hrun', hfine, hu, hsame'⟩ := hf a hgood t ht
  exact ⟨b, u, by rw [run_bind_ok hrun, hrun'], hfine, hu, hsame'.trans hsame⟩

/-- A reader of one word, and another behind it. -/
theorem cons (hp : Takes p [w] (ws' ++ more) good) (hf : ∀ a, good a → Takes (f a) ws' more fine) :
    Takes (p >>= f) (w :: ws') more fine :=
  bind hp hf

/-- A reader that takes no word, and another behind it. -/
theorem silent (hp : Takes p [] (ws ++ more) good) (hf : ∀ a, good a → Takes (f a) ws more fine) :
    Takes (p >>= f) ws more fine :=
  bind hp hf

/-- A reader with others behind it that take no word. -/
theorem last (hp : Takes p ws more good) (hf : ∀ a, good a → Takes (f a) [] more fine) :
    Takes (p >>= f) ws more fine := by
  have h : Takes (p >>= f) (ws ++ []) more fine := bind hp hf
  rwa [List.append_nil] at h

theorem committed (hp : Takes p ws more good) : Takes (committed p) ws more good := by
  intro s hs
  obtain ⟨a, t, hrun, h⟩ := hp s hs
  exact ⟨a, t, by rw [Parser.committed, hrun], h⟩

theorem freshId : Takes freshId [] more fun _ => True :=
  fun s hs => ⟨s.nextId, _, rfl, trivial, hs.of_same rfl rfl, rfl⟩

theorem skipTrivia : Takes skipTrivia [] more fun _ => True :=
  fun s hs => ⟨s.cursor.skipTrivia.place, _, rfl, trivial, hs.skipTrivia, rfl⟩

theorem some (hp : Takes p ws more good) :
    Takes (optional p) ws more fun o => ∃ a, o = some a ∧ good a := by
  intro s hs
  obtain ⟨a, t, hrun, hgood, ht⟩ := hp s hs
  exact ⟨_, t, run_optional_ok hrun, ⟨a, rfl, hgood⟩, ht⟩

theorem none (hp : Leaves p more) : Takes (optional p) [] more (· = none) := by
  intro s hs
  obtain ⟨e, t, hrun, hsoft, hbound, hsame⟩ := hp s hs
  exact ⟨_, _, run_optional_soft hrun hsoft, rfl, hs.of_same rfl hbound, hsame⟩

end Takes

namespace Leaves

theorem reject (what : Expectation) : Leaves (reject what : Parser α) ws :=
  fun s _ => ⟨_, s, rfl, rfl, rfl, rfl⟩

theorem exhausted : Leaves (exhausted : Parser α) ws := reject _

theorem bind (hp : Leaves p ws) : Leaves (p >>= f) ws := by
  intro s hs
  obtain ⟨e, t, hrun, h⟩ := hp s hs
  exact ⟨e, t, run_bind_error hrun, h⟩

theorem skipTrivia {f : Place → Parser β} (hf : ∀ place, Leaves (f place) ws) :
    Leaves (skipTrivia >>= f) ws :=
  fun s hs => hf s.cursor.skipTrivia.place _ hs.skipTrivia

end Leaves

-- ================================================================ choices

/-- One of some alternatives takes these words. -/
def Picks (ps : List (Parser α)) (ws more : List Word) (good : α → Prop) : Prop :=
  ∀ best, Takes (firstOf best ps) ws more good

theorem Picks.here (hp : Takes p ws more good) : Picks (p :: ps) ws more good := by
  intro best s hs
  obtain ⟨a, t, hrun, h⟩ := hp s hs
  exact ⟨a, t, run_firstOf_ok hrun, h⟩

theorem Picks.later (hp : Leaves p (ws ++ more)) (hps : Picks ps ws more good) :
    Picks (p :: ps) ws more good := by
  intro best s hs
  obtain ⟨e, t, hrun, hsoft, hbound, hsame⟩ := hp s hs
  obtain ⟨a, u, hrun', hgood, hu, hsame'⟩ :=
    hps (some (Failure.further best e)) { t with cursor := s.cursor } (hs.of_same rfl hbound)
  exact ⟨a, u, (run_firstOf_soft hrun hsoft).trans hrun', hgood, hu, hsame'.trans hsame⟩

/-- Alternatives that leave the words to those behind them. -/
theorem Picks.behind {qs : List (Parser α)} (hps : ∀ p ∈ ps, Leaves p (ws ++ more))
    (hqs : Picks qs ws more good) : Picks (ps ++ qs) ws more good := by
  induction ps with
  | nil => exact hqs
  | cons p ps ih =>
      exact .later (hps p List.mem_cons_self) (ih fun q hq => hps q (List.mem_cons_of_mem _ hq))

theorem Takes.choice {name : Expectation} (h : Picks ps ws more good) :
    Takes (choice name ps) ws more good := by
  intro s hs
  obtain ⟨a, t, hrun, h⟩ := h .none _ hs.skipTrivia
  exact ⟨a, t, by rw [Parser.choice]; dsimp only; rw [hrun], h⟩

theorem Leaves.firstOf (hps : ∀ p ∈ ps, Leaves p ws) (hbest : ∀ e ∈ best, e.weight = .soft) :
    Leaves (firstOf best ps) ws := by
  induction ps generalizing best with
  | nil =>
      intro s _
      unfold Parser.firstOf
      cases best with
      | none => exact ⟨_, s, rfl, rfl, rfl, rfl⟩
      | some e => exact ⟨e, s, rfl, hbest e rfl, rfl, rfl⟩
  | cons p ps ih =>
      intro s hs
      obtain ⟨e, t, hrun, hsoft, hbound, hsame⟩ := hps p List.mem_cons_self s hs
      have hfurther : ∀ e' ∈ some (Failure.further best e), e'.weight = .soft := by
        rintro e' he'
        obtain rfl := Option.some.inj he'
        unfold Failure.further
        cases best with
        | none => exact hsoft
        | some known =>
            dsimp only
            split
            · exact hsoft
            · exact hbest known rfl
      obtain ⟨e', u, hrun', hsoft', hbound', hsame'⟩ :=
        ih (fun q hq => hps q (List.mem_cons_of_mem _ hq)) hfurther { t with cursor := s.cursor }
          (hs.of_same rfl hbound)
      exact ⟨e', u, (run_firstOf_soft hrun hsoft).trans hrun', hsoft', hbound'.trans hbound,
        hsame'.trans hsame⟩

theorem Leaves.choice {name : Expectation} (hps : ∀ p ∈ ps, Leaves p ws) :
    Leaves (choice name ps) ws := by
  intro s hs
  obtain ⟨e, t, hrun, hsoft, h⟩ := Leaves.firstOf hps (nofun : ∀ e ∈ none, _) _ hs.skipTrivia
  unfold Parser.choice
  dsimp only
  rw [hrun]
  dsimp only
  split
  · exact ⟨_, t, rfl, hsoft, h⟩
  · exact ⟨e, t, rfl, hsoft, h⟩

-- ============================================================= repetitions

/-- Each round takes the words of one thing, as long as what follows allows it; then the reader
leaves what comes behind them all. -/
theorem Takes.many (allows : List Word → Prop) {words : β → List Word} {alike : β → α → Prop}
    {xs : List β} (hround : ∀ x ∈ xs, ∀ behind, allows behind → Takes p (words x) behind (alike x))
    (hnext : ∀ x ∈ xs, ∀ behind, allows (words x ++ behind)) (hne : ∀ x ∈ xs, words x ≠ [])
    (hend : Leaves p more) (hallows : allows more) :
    Takes (many p) (xs.flatMap words) more (List.Forall₂ alike xs) := by
  have hwithin : ∀ rounds, xs.length < rounds →
      Takes (manyWithin p rounds) (xs.flatMap words) more (List.Forall₂ alike xs) := by
    induction xs with
    | nil =>
        intro rounds hrounds
        obtain ⟨rounds, rfl⟩ := Nat.exists_eq_succ_of_ne_zero (Nat.ne_of_gt hrounds)
        refine .silent (.none hend) fun o ho => ?_
        rw [ho]
        exact .pure .nil
    | cons x xs ih =>
        intro rounds hrounds
        obtain ⟨rounds, rfl⟩ := Nat.exists_eq_succ_of_ne_zero (Nat.ne_zero_of_lt hrounds)
        have hbehind : allows (xs.flatMap words ++ more) := by
          cases xs with
          | nil => exact hallows
          | cons y ys =>
              rw [List.flatMap_cons, List.append_assoc]
              exact hnext y (List.mem_cons_of_mem _ List.mem_cons_self) _
        refine .bind (.some (hround x List.mem_cons_self _ hbehind)) fun o ho => ?_
        obtain ⟨a, rfl, ha⟩ := ho
        have hrest := ih (fun y hy => hround y (List.mem_cons_of_mem _ hy))
          (fun y hy => hnext y (List.mem_cons_of_mem _ hy))
          (fun y hy => hne y (List.mem_cons_of_mem _ hy)) rounds (Nat.lt_of_succ_lt_succ hrounds)
        exact hrest.last fun as has => Takes.pure (.cons ha has)
  have hlength : xs.length ≤ (xs.flatMap words).length := by
    clear hwithin hround hnext
    induction xs with
    | nil => exact Nat.le_refl _
    | cons x xs ih =>
        have hpos := List.length_pos_iff.mpr (hne x List.mem_cons_self)
        have hrest := ih fun y hy => hne y (List.mem_cons_of_mem _ hy)
        simp only [List.flatMap_cons, List.length_append, List.length_cons]
        omega
  intro s hs
  refine hwithin (s.bound + 1) ?_ s hs
  have hbound := hs.bound
  rw [List.length_append] at hbound
  omega

end Parser

end Lox
