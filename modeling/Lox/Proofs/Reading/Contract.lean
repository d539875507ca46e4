/-
Contracts of readers. What is known about a reader that succeeds relates the
progress before and after it (`Does`), and the contract of a rule is put together
from those of its parts as the rule is put together from its parts.

Nothing is promised about a text whose faults recovery passed over: a reader that
puts a fault on record may leave words out. Numbers are another matter, for they
stay used whatever happens (`Grown`).
-/
import Lox.Proofs.Reading.Tree

namespace Lox.Parser

variable {α β : Type} {s t u : Progress}

/-- Numbers are used up and faults put on record, never the other way round. -/
structure Grown (s t : Progress) : Prop where
  ids : s.nextId ≤ t.nextId
  faults : s.recovered.length ≤ t.recovered.length

theorem Grown.refl (s : Progress) : Grown s s := ⟨Nat.le_refl _, Nat.le_refl _⟩

theorem Grown.trans (h : Grown s t) (h' : Grown t u) : Grown s u :=
  ⟨Nat.le_trans h.ids h'.ids, Nat.le_trans h.faults h'.faults⟩

/-- What a reader does: whether it succeeds or not, it takes back nothing, and if it succeeds and
puts no fault on record, `post` holds of what it reads and of the progress before and after. -/
def Does (p : Parser α) (post : α → Progress → Progress → Prop) : Prop :=
  ∀ s, match p s with
    | .ok a t => Grown s t ∧ (t.recovered.length = s.recovered.length → post a s t)
    | .error _ t => Grown s t

/-- A reader that fails softly. -/
def Declines (p : Parser α) (s : Progress) : Prop :=
  ∃ e t, p s = .error e t ∧ e.weight = .soft

variable {p : Parser α} {f : α → Parser β} {post : α → Progress → Progress → Prop}
  {after : α → β → Progress → Progress → Prop}

-- ================================================================ the runs

theorem run_bind_ok {a : α} (h : p s = .ok a t) : (p >>= f) s = f a t := by
  show EStateM.bind p f s = _
  unfold EStateM.bind
  rw [h]

theorem run_bind_error {e : Failure} (h : p s = .error e t) : (p >>= f) s = .error e t := by
  show EStateM.bind p f s = _
  unfold EStateM.bind
  rw [h]

section Runs

variable {ps : List (Parser α)} {best : Option Failure} {a : α} {e : Failure}

theorem run_committed_ok (h : p s = .ok a t) : committed p s = .ok a t := by
  rw [committed, h]

theorem run_committed_error (h : p s = .error e t) :
    committed p s = .error { e with weight := .committed } t := by
  rw [committed, h]

theorem run_optional_ok (h : p s = .ok a t) : optional p s = .ok (some a) t := by
  rw [optional, h]

theorem run_optional_soft (h : p s = .error e t) (hsoft : e.weight = .soft) :
    optional p s = .ok none { t with cursor := s.cursor } := by
  rw [optional, h]
  dsimp only
  rw [hsoft]

theorem run_optional_hard (h : p s = .error e t) (hard : e.weight ≠ .soft) :
    optional p s = .error e t := by
  rw [optional, h]
  cases hweight : e.weight with
  | soft => exact absurd hweight hard
  | refusal | committed => dsimp only; rw [hweight]

theorem run_firstOf_ok (h : p s = .ok a t) : firstOf best (p :: ps) s = .ok a t := by
  unfold firstOf
  rw [h]

/-- Behind a soft failure the next alternative is tried from the same cursor. -/
theorem run_firstOf_soft (h : p s = .error e t) (hsoft : e.weight = .soft) :
    firstOf best (p :: ps) s
      = firstOf (some (Failure.further best e)) ps { t with cursor := s.cursor } := by
  conv_lhs => unfold firstOf
  rw [h]
  dsimp only
  rw [hsoft]

theorem run_firstOf_hard (h : p s = .error e t) (hard : e.weight ≠ .soft) :
    firstOf best (p :: ps) s = .error e t := by
  unfold firstOf
  rw [h]
  cases hweight : e.weight with
  | soft => exact absurd hweight hard
  | refusal | committed => dsimp only; rw [hweight]

end Runs

namespace Does

theorem grown {a : α} (hp : Does p post) (h : p s = .ok a t) : Grown s t := by
  have := hp s
  rw [h] at this
  exact this.1

theorem grown_error {e : Failure} (hp : Does p post) (h : p s = .error e t) : Grown s t := by
  have := hp s
  rw [h] at this
  exact this

theorem holds {a : α} (hp : Does p post) (h : p s = .ok a t)
    (hclean : t.recovered.length = s.recovered.length) : post a s t := by
  have := hp s
  rw [h] at this
  exact this.2 hclean

-- ============================================================ the combinators

theorem mono {other : α → Progress → Progress → Prop} (hp : Does p post)
    (h : ∀ a s t, post a s t → other a s t) : Does p other := by
  intro s
  cases hrun : p s with
  | ok a t => exact ⟨hp.grown hrun, fun hclean => h a s t (hp.holds hrun hclean)⟩
  | error e t => exact hp.grown_error hrun

theorem pure (a : α) : Does (pure a : Parser α) fun b s t => b = a ∧ t = s := fun s =>
  ⟨.refl s, fun _ => ⟨rfl, rfl⟩⟩

theorem bind (hp : Does p post) (hf : ∀ a, Does (f a) (after a)) :
    Does (p >>= f) fun b s u => ∃ a t, post a s t ∧ after a b t u := by
  intro s
  cases hrun : p s with
  | error e t =>
      rw [run_bind_error hrun]
      exact hp.grown_error hrun
  | ok a t =>
      rw [run_bind_ok hrun]
      have hst := hp.grown hrun
      cases hrun' : f a t with
      | error e u => exact hst.trans ((hf a).grown_error hrun')
      | ok b u =>
          have htu := (hf a).grown hrun'
          refine ⟨hst.trans htu, fun hclean => ⟨a, t, hp.holds hrun ?_, (hf a).holds hrun' ?_⟩⟩
          · have := hst.faults
            have := htu.faults
            omega
          · have := hst.faults
            have := htu.faults
            omega

theorem failAt (weight : Weight) (cause : FaultCause) (place : Place) :
    Does (failAt weight cause place : Parser α) fun _ _ _ => False := fun s => .refl s

theorem reject (what : Expectation) : Does (reject what : Parser α) fun _ _ _ => False :=
  fun s => .refl s

theorem exhausted : Does (exhausted : Parser α) fun _ _ _ => False := .reject _

theorem committed (hp : Does p post) : Does (committed p) post := by
  intro s
  unfold Parser.committed
  cases hrun : p s with
  | ok a t => exact ⟨hp.grown hrun, hp.holds hrun⟩
  | error e t => exact hp.grown_error hrun

theorem here : Does here fun c s t => c = s.cursor ∧ t = s := fun s =>
  ⟨.refl s, fun _ => ⟨rfl, rfl⟩⟩

theorem skipTrivia :
    Does skipTrivia fun _ s t => t = { s with cursor := s.cursor.skipTrivia } := fun _ =>
  ⟨⟨Nat.le_refl _, Nat.le_refl _⟩, fun _ => rfl⟩

theorem take (n : Nat) :
    Does (take n) fun _ s t => t = { s with cursor := s.cursor.advance n } := fun _ =>
  ⟨⟨Nat.le_refl _, Nat.le_refl _⟩, fun _ => rfl⟩

theorem freshId :
    Does freshId fun id s t => id = s.nextId ∧ t = { s with nextId := s.nextId + 1 } := fun _ =>
  ⟨⟨Nat.le_succ _, Nat.le_refl _⟩, fun _ => ⟨rfl, rfl⟩⟩

/-- Where nothing is read the reader failed softly, and nothing but numbers is used up. -/
theorem optional (hp : Does p post) :
    Does (optional p) fun o s t =>
      (∀ a, o = some a → post a s t ∧ p s = .ok a t)
        ∧ (o = none → t.cursor = s.cursor ∧ s.nextId ≤ t.nextId ∧ Declines p s) := by
  intro s
  unfold Parser.optional
  cases hrun : p s with
  | ok a t =>
      refine ⟨hp.grown hrun, fun hclean => ⟨fun b hb => ?_, nofun⟩⟩
      cases hb
      exact ⟨hp.holds hrun hclean, hrun⟩
  | error e t =>
      have hg := hp.grown_error hrun
      dsimp only
      cases hw : e.weight with
      | soft => exact ⟨⟨hg.ids, hg.faults⟩, fun _ => ⟨nofun, fun _ => ⟨rfl, hg.ids, e, t, hrun, hw⟩⟩⟩
      | refusal => exact hg
      | committed => exact hg

/-- Reading one thing after another. -/
inductive Row (post : α → Progress → Progress → Prop) : List α → Progress → Progress → Prop
  | nil {s t : Progress} (same : t.cursor = s.cursor) (ids : s.nextId ≤ t.nextId) :
      Row post [] s t
  | cons {a : α} {rest : List α} {s t u : Progress} (first : post a s t)
      (further : Row post rest t u) : Row post (a :: rest) s u

theorem manyWithin (hp : Does p post) (rounds : Nat) : Does (manyWithin p rounds) (Row post) := by
  induction rounds with
  | zero =>
      refine (Does.pure []).mono fun as s t h => ?_
      obtain ⟨rfl, rfl⟩ := h
      exact .nil rfl (Nat.le_refl _)
  | succ rounds ih =>
      -- What comes behind the round depends on whether it read anything.
      let behind : Option α → List α → Progress → Progress → Prop := fun o as t u =>
        (o = none → as = [] ∧ u = t)
          ∧ ∀ a, o = some a → ∃ rest, as = a :: rest ∧ Row post rest t u
      refine (hp.optional.bind (fun o => (?_ : Does _ (behind o)))).mono fun as s u h => ?_
      · cases o with
        | none =>
            exact (Does.pure []).mono fun as s t h =>
              ⟨fun _ => h, fun a ha => absurd ha.symm (Option.some_ne_none a)⟩
        | some a =>
            refine (ih.bind fun more => Does.pure (a :: more)).mono fun as s t h =>
              ⟨fun ha => absurd ha (Option.some_ne_none a), ?_⟩
            intro b hb
            cases hb
            obtain ⟨rest, t, hrow, rfl, rfl⟩ := h
            exact ⟨rest, rfl, hrow⟩
      obtain ⟨o, t, ⟨hsome, hnone⟩, hend, hmore⟩ := h
      cases o with
      | none =>
          obtain ⟨rfl, rfl⟩ := hend rfl
          exact .nil (hnone rfl).1 (hnone rfl).2.1
      | some a =>
          obtain ⟨rest, rfl, hrow⟩ := hmore a rfl
          exact .cons (hsome a rfl).1 hrow

theorem many (hp : Does p post) : Does (many p) (Row post) := fun s =>
  hp.manyWithin (s.bound + 1) s

/-- The alternative that applies reads on from the same place, though numbers may be used up. -/
theorem firstOf (post : α → Progress → Progress → Prop) {ps : List (Parser α)} (hps : ∀ p ∈ ps, Does p post) (best : Option Failure) :
    Does (firstOf best ps) fun a s u =>
      ∃ t, t.cursor = s.cursor ∧ s.nextId ≤ t.nextId ∧ post a t u := by
  induction ps generalizing best with
  | nil =>
      intro s
      unfold Parser.firstOf
      cases best <;> exact .refl s
  | cons p ps ih =>
      have hp := hps p List.mem_cons_self
      have hrest := fun best => ih (fun q hq => hps q (List.mem_cons_of_mem _ hq)) best
      intro s
      unfold Parser.firstOf
      cases hrun : p s with
      | ok a t =>
          exact ⟨hp.grown hrun, fun hclean => ⟨s, rfl, Nat.le_refl _, hp.holds hrun hclean⟩⟩
      | error e t =>
          have hg := hp.grown_error hrun
          dsimp only
          cases hw : e.weight with
          | soft =>
              let back : Progress := { t with cursor := s.cursor }
              have hback : Grown s back := ⟨hg.ids, hg.faults⟩
              dsimp only
              cases hrun' : Parser.firstOf (some (Failure.further best e)) ps back with
              | error e' u => exact hback.trans ((hrest _).grown_error hrun')
              | ok a u =>
                  have hbu := (hrest _).grown hrun'
                  refine ⟨hback.trans hbu, fun hclean => ?_⟩
                  have hpost := (hrest _).holds hrun' (by
                    have := hback.faults
                    have := hbu.faults
                    omega)
                  obtain ⟨v, hcursor, hids, h⟩ := hpost
                  exact ⟨v, hcursor, Nat.le_trans hg.ids hids, h⟩
          | refusal => exact hg
          | committed => exact hg

theorem choice (name : Expectation) (post : α → Progress → Progress → Prop)
    {ps : List (Parser α)} (hps : ∀ p ∈ ps, Does p post) :
    Does (choice name ps) fun a s u =>
      ∃ t, t.cursor = s.cursor.skipTrivia ∧ s.nextId ≤ t.nextId ∧ post a t u := by
  intro s
  have h := firstOf post hps none { s with cursor := s.cursor.skipTrivia }
  unfold Parser.choice
  revert h
  dsimp only
  cases hrun : Parser.firstOf none ps { s with cursor := s.cursor.skipTrivia } with
  | ok a t => exact fun h => ⟨⟨h.1.ids, h.1.faults⟩, h.2⟩
  | error e t =>
      intro h
      have hst : Grown s t := ⟨h.ids, h.faults⟩
      dsimp only
      by_cases hsame : (e.weight = .soft && e.fault.place.offset = s.cursor.skipTrivia.offset) = true
      · rw [if_pos hsame]
        exact hst
      · rw [if_neg hsame]
        exact hst

end Does

end Lox.Parser
