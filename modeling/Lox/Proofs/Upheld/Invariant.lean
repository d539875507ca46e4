/-
Invariants of reading. What is to hold all the way through a text, whether it is
read well or badly, is told once as an `Invariant`: of the cursor and the faults on
record wherever a word may begin, of a failure when it is met, of the tokens that
are read and of the places that a rule keeps for later. The laws of an invariant say
what single moves do to it. That the whole grammar upholds it then follows for every
invariant alike (`Parser.Upholds`), one lemma for each combinator here and one for
each rule in `Upheld/Grammar.lean`.

A keyword that touches the character before it fails at that character, in front of
the place where the rule began. An invariant may let such a failure pass as long as
it is soft (`Invariant.lenient`): wherever it can occur another alternative fails at
the cursor, and of two failures the one further on counts. The flag `lax` says
whether a reader may fail that way.
-/
import Lox.Proofs.Reading.Steady

namespace Lox.Parser

/-- What is to hold all the way through a text. -/
structure Invariant where
  /-- Of the cursor and the faults on record. -/
  state : Cursor → List Fault → Prop
  /-- Of a failure and the faults on record when it is met. -/
  failure : Failure → List Fault → Prop
  /-- Soft failures that may pass because another alternative comes further. -/
  lenient : Failure → Prop
  /-- Of every token that is read. -/
  token : Token → Prop
  /-- Of the places where a refusal may lie. -/
  place : Place → Prop
  advance {c : Cursor} {r : List Fault} (h : state c r) (n : Nat) : state (c.advance n) r
  placed {c : Cursor} {r : List Fault} (h : state c r) : place c.place
  marked {t : Token} (h : token t) : place t.place
  missing {c : Cursor} {r : List Fault} (h : state c r) (what : Expectation) :
    failure ⟨.soft, ⟨.expected what, c.place⟩⟩ r
  followed {c : Cursor} {r : List Fault} (h : state c r) (word : String) :
    failure ⟨.soft, ⟨.keywordFollowed word, c.place⟩⟩ r
  preceded {c : Cursor} {r : List Fault} (h : state c r) (word : String)
    (touches : c.previous.any Text.isKeywordChar = true) :
    failure ⟨.soft, ⟨.keywordPreceded word, before c.place⟩⟩ r
      ∨ lenient ⟨.soft, ⟨.keywordPreceded word, before c.place⟩⟩
  /-- A token other than a name or a string is spelt as it stands there. -/
  taken {c : Cursor} {r : List Fault} (h : state c r) (kind : TokenKind) (n : Nat)
    (plain : kind ≠ .identifier ∧ kind ≠ .string) :
    token ⟨kind, String.ofList (c.rest.take n), c.place⟩
  named {c : Cursor} {r : List Fault} (h : state c r) (some : Text.nameLength c.rest ≠ 0)
    (free : Text.startsReserved c.rest = false) :
    token ⟨.identifier, String.ofList (c.rest.take (Text.nameLength c.rest)), c.place⟩
  quoted {c : Cursor} {r : List Fault} (h : state c r) {content : List Char}
    (stands : '"' :: content ++ ['"'] <+: c.rest) :
    token ⟨.string, String.ofList content, c.place⟩
  committed {e : Failure} {r : List Fault} (h : failure e r) :
    failure { e with weight := .committed } r
  renamed {e : Failure} {r : List Fault} (h : failure e r) (soft : e.weight = .soft)
    (what : Expectation) : failure { e with fault := { e.fault with cause := .expected what } } r
  /-- Of two failures the one further on counts. -/
  further {a b : Failure} {r : List Fault} (ha : failure a r) (hb : failure b r ∨ lenient b)
    (soft : a.weight = .soft) :
    failure (Failure.further (some a) b) r ∧ failure (Failure.further (some b) a) r
  /-- Reading goes on behind a fault that was put on record. -/
  recovered {c : Cursor} {r r' : List Fault} {e : Failure} (h : state c r) (he : failure e r') :
    state (c.skipGap.advance (e.fault.place.offset - c.skipGap.offset).toNat).resume
      (r' ++ [e.fault])

namespace Invariant

/-- A failure as it may be met. -/
def Met (inv : Invariant) (lax : Bool) (e : Failure) (r : List Fault) : Prop :=
  inv.failure e r ∨ lax = true ∧ e.weight = .soft ∧ inv.lenient e

/-- Refusals of one kind may lie at every place that was kept. -/
def Refuses (inv : Invariant) (cause : FaultCause) : Prop :=
  ∀ {c : Cursor} {r : List Fault} {p : Place}, inv.place p → inv.state c r →
    inv.failure ⟨.refusal, ⟨cause, p⟩⟩ r

variable {inv : Invariant} {lax : Bool} {e : Failure} {r : List Fault}

theorem Met.of_hard (h : inv.Met lax e r) (hard : e.weight ≠ .soft) : inv.failure e r := by
  rcases h with h | ⟨-, hsoft, -⟩
  · exact h
  · exact absurd hsoft hard

theorem Met.strict (h : inv.Met false e r) : inv.failure e r := by
  rcases h with h | ⟨hfalse, -⟩
  · exact h
  · cases hfalse

theorem Met.either (h : inv.Met lax e r) : inv.failure e r ∨ inv.lenient e :=
  h.imp_right fun h => h.2.2

end Invariant

/-- Of two failures one is taken, so that what holds of both holds of it. -/
theorem Failure.further_induct (good : Failure → Prop) {best : Option Failure} {e : Failure}
    (he : good e) (hbest : ∀ b ∈ best, good b) : good (Failure.further best e) := by
  unfold Failure.further
  cases best with
  | none => exact he
  | some b =>
      dsimp only
      split
      · exact he
      · exact hbest b rfl

variable {α β : Type} {inv : Invariant} {lax : Bool} {p : Parser α} {f : α → Parser β}
  {P : α → Prop} {Q : β → Prop} {s t : Progress}

/-- A reader that ends well from one progress on: with something good by `P`, or with a failure that
may be met. -/
structure UpholdsFrom (inv : Invariant) (lax : Bool) (P : α → Prop) (p : Parser α) (s : Progress) :
    Prop where
  ok {a : α} {t : Progress} (h : p s = .ok a t) : inv.state t.cursor t.recovered ∧ P a
  error {e : Failure} {t : Progress} (h : p s = .error e t) : inv.Met lax e t.recovered

/-- A reader that upholds an invariant, and reads only what is good by `P`. -/
def Upholds (inv : Invariant) (lax : Bool) (P : α → Prop) (p : Parser α) : Prop :=
  ∀ s, inv.state s.cursor s.recovered → UpholdsFrom inv lax P p s

/-- A reader that puts nothing on record when it fails softly. -/
def Spotless (p : Parser α) : Prop :=
  ∀ s e t, p s = .error e t → e.weight = .soft → t.recovered = s.recovered

-- ============================================================== how rules end

theorem bind_eq_error {e : Failure} {u : Progress} (h : (p >>= f) s = .error e u) :
    p s = .error e u ∨ ∃ a t, p s = .ok a t ∧ f a t = .error e u := by
  cases hrun : p s with
  | error e' t =>
      rw [run_bind_error hrun] at h
      cases h
      exact .inl rfl
  | ok a t =>
      rw [run_bind_ok hrun] at h
      exact .inr ⟨a, t, rfl, h⟩

/-- A choice fails as the list of its alternatives does, but for what is missing. -/
theorem choice_eq_error {name : Expectation} {ps : List (Parser α)} {e : Failure} {u : Progress}
    (h : choice name ps s = .error e u) :
    ∃ e', firstOf none ps { s with cursor := s.cursor.skipTrivia } = .error e' u
      ∧ (e = e' ∨ e'.weight = .soft
        ∧ e = { e' with fault := { e'.fault with cause := .expected name } }) := by
  unfold choice at h
  dsimp only at h
  cases hfirst : firstOf none ps { s with cursor := s.cursor.skipTrivia } with
  | ok a t =>
      rw [hfirst] at h
      cases h
  | error e' t =>
      rw [hfirst] at h
      dsimp only at h
      by_cases hnamed :
          (e'.weight = .soft && e'.fault.place.offset = s.cursor.skipTrivia.offset) = true
      · rw [if_pos hnamed] at h
        cases h
        have hsoft : e'.weight = .soft := by simpa using (Bool.and_eq_true_iff.mp hnamed).1
        exact ⟨e', rfl, .inr ⟨hsoft, rfl⟩⟩
      · rw [if_neg hnamed] at h
        cases h
        exact ⟨e, rfl, .inl rfl⟩

theorem choice_eq_ok {name : Expectation} {ps : List (Parser α)} {a : α} {u : Progress}
    (h : choice name ps s = .ok a u) :
    firstOf none ps { s with cursor := s.cursor.skipTrivia } = .ok a u := by
  unfold choice at h
  dsimp only at h
  cases hfirst : firstOf none ps { s with cursor := s.cursor.skipTrivia } with
  | ok b t =>
      rw [hfirst] at h
      cases h
      rfl
  | error e t =>
      rw [hfirst] at h
      dsimp only at h
      split at h <;> cases h

-- ============================================================ spotless readers

namespace Spotless

theorem of_steady (hp : Steady p) : Spotless p := fun _ _ _ hrun _ => hp.of_error hrun

/-- Behind a reader that puts nothing on record at all. -/
theorem behind (hp : Steady p) (hf : ∀ a, Spotless (f a)) : Spotless (p >>= f) := by
  intro s e u hrun hsoft
  rcases bind_eq_error hrun with hfirst | ⟨a, t, hfirst, hrest⟩
  · exact hp.of_error hfirst
  · exact (hf a t e u hrest hsoft).trans (hp.of_ok hfirst)

/-- In front of readers that never fail softly. -/
theorem before (hp : Spotless p) (hf : ∀ a, Hard (f a)) : Spotless (p >>= f) := by
  intro s e u hrun hsoft
  rcases bind_eq_error hrun with hfirst | ⟨a, t, hfirst, hrest⟩
  · exact hp s e u hfirst hsoft
  · exact absurd ⟨e, u, hrest, hsoft⟩ (hf a t)

theorem firstOf {ps : List (Parser α)} (hps : ∀ p ∈ ps, Spotless p) (best : Option Failure) :
    Spotless (firstOf best ps) := by
  induction ps generalizing best with
  | nil =>
      intro s e t hrun _
      unfold Parser.firstOf at hrun
      cases best <;> cases hrun <;> rfl
  | cons p others ih =>
      intro s e u hrun hsoft
      cases hfirst : p s with
      | ok a t => cases (run_firstOf_ok hfirst).symm.trans hrun
      | error e' t =>
          by_cases hweight : e'.weight = .soft
          · rw [run_firstOf_soft hfirst hweight] at hrun
            have hback := hps p List.mem_cons_self s e' t hfirst hweight
            have hrest := ih (fun q hq => hps q (List.mem_cons_of_mem p hq)) _ _ e u hrun hsoft
            exact hrest.trans hback
          · cases (run_firstOf_hard hfirst hweight).symm.trans hrun
            exact absurd hsoft hweight

theorem choice (name : Expectation) {ps : List (Parser α)} (hps : ∀ p ∈ ps, Spotless p) :
    Spotless (choice name ps) := by
  intro s e u hrun hsoft
  obtain ⟨e', hfirst, rfl | ⟨hweight, -⟩⟩ := choice_eq_error hrun
  · exact firstOf hps none { s with cursor := s.cursor.skipTrivia } e u hfirst hsoft
  · exact firstOf hps none { s with cursor := s.cursor.skipTrivia } e' u hfirst hweight

end Spotless

namespace UpholdsFrom

theorem of_ok {a : α} (h : p s = .ok a t) (ht : inv.state t.cursor t.recovered) (ha : P a) :
    UpholdsFrom inv lax P p s := by
  refine ⟨fun hrun => ?_, fun hrun => ?_⟩
  · cases h.symm.trans hrun
    exact ⟨ht, ha⟩
  · cases h.symm.trans hrun

theorem of_error {e : Failure} (h : p s = .error e t) (he : inv.Met lax e t.recovered) :
    UpholdsFrom inv lax P p s := by
  refine ⟨fun hrun => ?_, fun hrun => ?_⟩
  · cases h.symm.trans hrun
  · cases h.symm.trans hrun
    exact he

/-- Two readers that end alike. -/
theorem of_run {q : Parser α} (h : p s = q t) (hq : UpholdsFrom inv lax P q t) :
    UpholdsFrom inv lax P p s :=
  ⟨fun hrun => hq.ok (h.symm.trans hrun), fun hrun => hq.error (h.symm.trans hrun)⟩

end UpholdsFrom

namespace Upholds

-- ============================================================ the combinators

/-- Who is strict may be taken for lax. -/
theorem loosen (hp : Upholds inv false P p) : Upholds inv lax P p := fun s hs =>
  ⟨(hp s hs).ok, fun hrun => .inl ((hp s hs).error hrun).strict⟩

theorem pure {a : α} (h : P a) : Upholds inv lax P (pure a) := fun _ hs => .of_ok rfl hs h

theorem bind (hp : Upholds inv lax P p) (hf : ∀ a, P a → Upholds inv lax Q (f a)) :
    Upholds inv lax Q (p >>= f) := by
  refine fun s hs => ⟨fun hrun => ?_, fun hrun => ?_⟩
  · obtain ⟨a, t, hfirst, hrest⟩ := bind_eq_ok hrun
    obtain ⟨ht, ha⟩ := (hp s hs).ok hfirst
    exact (hf a ha t ht).ok hrest
  · rcases bind_eq_error hrun with hfirst | ⟨a, t, hfirst, hrest⟩
    · exact (hp s hs).error hfirst
    · obtain ⟨ht, ha⟩ := (hp s hs).ok hfirst
      exact (hf a ha t ht).error hrest

theorem committed (hp : Upholds inv false P p) : Upholds inv lax P (committed p) := by
  intro s hs
  cases hrun : p s with
  | ok a t =>
      obtain ⟨ht, ha⟩ := (hp s hs).ok hrun
      exact .of_ok (run_committed_ok hrun) ht ha
  | error e t =>
      exact .of_error (run_committed_error hrun) (.inl (inv.committed ((hp s hs).error hrun).strict))

theorem reject (what : Expectation) : Upholds inv lax P (reject what) := fun _ hs =>
  .of_error rfl (.inl (inv.missing hs what))

theorem refuse {cause : FaultCause} {place : Place} (hcause : inv.Refuses cause)
    (hplace : inv.place place) : Upholds inv lax P (failAt .refusal cause place) := fun _ hs =>
  .of_error rfl (.inl (hcause hplace hs))

theorem skipTrivia : Upholds inv lax inv.place skipTrivia := fun _ hs =>
  .of_ok rfl (inv.advance hs _) (inv.placed (inv.advance hs _))

theorem take (n : Nat) : Upholds inv lax (fun _ => True) (take n) := fun _ hs =>
  .of_ok rfl (inv.advance hs n) trivial

theorem freshId : Upholds inv lax (fun _ => True) freshId := fun _ hs => .of_ok rfl hs trivial

/-- A soft failure puts the cursor back, and nothing is on record that was not before. -/
theorem optional (hp : Upholds inv true P p) (hspotless : Spotless p) :
    Upholds inv lax (fun found => ∀ a ∈ found, P a) (optional p) := by
  intro s hs
  cases hrun : p s with
  | ok a t =>
      obtain ⟨ht, ha⟩ := (hp s hs).ok hrun
      refine .of_ok (run_optional_ok hrun) ht fun b hb => ?_
      cases hb
      exact ha
  | error e t =>
      by_cases hweight : e.weight = .soft
      · refine .of_ok (run_optional_soft hrun hweight) ?_ nofun
        show inv.state s.cursor t.recovered
        rw [hspotless s e t hrun hweight]
        exact hs
      · exact .of_error (run_optional_hard hrun hweight) (.inl (((hp s hs).error hrun).of_hard hweight))

theorem manyWithin (hp : Upholds inv true P p) (hspotless : Spotless p) (rounds : Nat) :
    Upholds inv lax (fun found => ∀ a ∈ found, P a) (manyWithin p rounds) := by
  induction rounds with
  | zero => exact .pure nofun
  | succ rounds ih =>
      refine (hp.optional hspotless).bind fun found hfound => ?_
      cases found with
      | none => exact .pure nofun
      | some a =>
          refine ih.bind fun more hmore => .pure fun b hb => ?_
          rcases List.mem_cons.mp hb with rfl | hb
          · exact hfound b rfl
          · exact hmore b hb

theorem many (hp : Upholds inv true P p) (hspotless : Spotless p) :
    Upholds inv lax (fun found => ∀ a ∈ found, P a) (many p) := fun s hs =>
  have h := hp.manyWithin hspotless (s.bound + 1) s hs
  ⟨h.ok, h.error⟩

/-- The failure that came furthest, as far as it is known, and the alternatives to come: one of them
is, or will be, a failure that may not pass. -/
theorem firstOf_from {ps : List (Parser α)} {best : Option Failure}
    (hps : ∀ p ∈ ps, Upholds inv true P p ∧ Spotless p) {s : Progress}
    (hs : inv.state s.cursor s.recovered)
    (hsoft : ∀ b ∈ best, b.weight = .soft)
    (hbest : ∀ b ∈ best, inv.failure b s.recovered ∨ inv.lenient b)
    (hstrict : (∃ b ∈ best, inv.failure b s.recovered) ∨ ∃ p ∈ ps, Upholds inv false P p) :
    UpholdsFrom inv false P (Parser.firstOf best ps) s := by
  induction ps generalizing best s with
  | nil =>
      obtain ⟨b, hknown, hb⟩ | ⟨p, hp, -⟩ := hstrict
      · cases hknown
        exact .of_error rfl (.inl hb)
      · cases hp
  | cons p others ih =>
      obtain ⟨hp, hspotless⟩ := hps p List.mem_cons_self
      cases hrun : p s with
      | ok a t =>
          obtain ⟨ht, ha⟩ := (hp s hs).ok hrun
          exact .of_ok (run_firstOf_ok hrun) ht ha
      | error e t =>
          have hmet := (hp s hs).error hrun
          by_cases hweight : e.weight = .soft
          · have hsame : t.recovered = s.recovered := hspotless s e t hrun hweight
            rw [hsame] at hmet
            refine .of_run (run_firstOf_soft hrun hweight)
              (ih (fun q hq => hps q (List.mem_cons_of_mem p hq)) ?_ ?_ ?_ ?_)
            · show inv.state s.cursor t.recovered
              rw [hsame]
              exact hs
            · intro b' hb'
              cases hb'
              exact Failure.further_induct (fun e => e.weight = .soft) hweight hsoft
            · intro b' hb'
              cases hb'
              show inv.failure _ t.recovered ∨ _
              rw [hsame]
              exact Failure.further_induct (fun e => inv.failure e _ ∨ inv.lenient e)
                hmet.either hbest
            · show (∃ b ∈ _, inv.failure b t.recovered) ∨ _
              rw [hsame]
              obtain ⟨b, hknown, hb⟩ | ⟨q, hq, hstrict⟩ := hstrict
              · cases hknown
                exact .inl ⟨_, rfl, (inv.further hb hmet.either (hsoft b rfl)).1⟩
              rcases List.mem_cons.mp hq with rfl | hq
              · -- The alternative that just failed is a strict one.
                have he : inv.failure e s.recovered := by
                  have := ((hstrict s hs).error hrun).strict
                  rwa [hsame] at this
                refine .inl ⟨_, rfl, ?_⟩
                cases best with
                | none => exact he
                | some b => exact (inv.further he (hbest b rfl) hweight).2
              · exact .inr ⟨q, hq, hstrict⟩
          · exact .of_error (run_firstOf_hard hrun hweight) (.inl (hmet.of_hard hweight))

/-- Where one alternative is strict the whole choice is. -/
theorem firstOf {ps : List (Parser α)} (hps : ∀ p ∈ ps, Upholds inv true P p ∧ Spotless p)
    (hstrict : ∃ p ∈ ps, Upholds inv false P p) : Upholds inv false P (firstOf none ps) :=
  fun _ hs => firstOf_from hps hs nofun nofun (.inr hstrict)

theorem choice (name : Expectation) {ps : List (Parser α)}
    (hps : ∀ p ∈ ps, Upholds inv true P p ∧ Spotless p)
    (hstrict : ∃ p ∈ ps, Upholds inv false P p) : Upholds inv false P (choice name ps) := by
  intro s hs
  have hfirst := firstOf hps hstrict { s with cursor := s.cursor.skipTrivia } (inv.advance hs _)
  refine ⟨fun hrun => hfirst.ok (choice_eq_ok hrun), fun hrun => ?_⟩
  obtain ⟨e', herror, hsame⟩ := choice_eq_error hrun
  have hfailure := (hfirst.error herror).strict
  rcases hsame with rfl | ⟨hsoft, rfl⟩
  · exact .inl hfailure
  · exact .inl (inv.renamed hfailure hsoft name)

-- ================================================================ single words

/-- A reader that passes trivia and looks at the text. -/
theorem look {k : Cursor → Parser α}
    (hk : ∀ s, inv.state s.cursor s.recovered → UpholdsFrom inv lax P (k s.cursor) s) :
    Upholds inv lax P (do let _ ← Parser.skipTrivia; let cursor ← Parser.here; k cursor) :=
  fun s hs =>
    have h := hk { s with cursor := s.cursor.skipTrivia } (inv.advance hs _)
    ⟨h.ok, h.error⟩

theorem takeToken {kind : TokenKind} (n : Nat) (plain : kind ≠ .identifier ∧ kind ≠ .string) :
    Upholds inv lax inv.token (takeToken kind n) := fun _ hs =>
  .of_ok rfl (inv.advance hs n) (inv.taken hs kind n plain)

theorem symbol (c : Char) : Upholds inv lax (fun _ => True) (symbol c) := by
  refine look fun s hs => ?_
  split
  · exact take 1 s hs
  · exact reject _ s hs

theorem symbolToken {kind : TokenKind} (c : Char)
    (plain : kind ≠ .identifier ∧ kind ≠ .string) :
    Upholds inv lax inv.token (symbolToken kind c) := by
  refine look fun s hs => ?_
  split
  · exact takeToken 1 plain s hs
  · exact reject _ s hs

/-- A keyword may fail in front of the place where it should be. -/
theorem keyword {kind : TokenKind} (word : String)
    (plain : kind ≠ .identifier ∧ kind ≠ .string) :
    Upholds inv true inv.token (keyword kind word) := by
  refine look fun s hs => ?_
  split
  · exact reject _ s hs
  split
  · rename_i htouches
    exact .of_error rfl ((inv.preceded hs word htouches).imp_right fun h => ⟨rfl, rfl, h⟩)
  dsimp only
  split
  · exact .of_error rfl (.inl (inv.followed (inv.advance hs word.length) word))
  · exact takeToken word.length plain s hs

theorem operator (spellings : List String) : Upholds inv lax inv.token (operator spellings) := by
  refine look fun s hs => ?_
  split
  · exact takeToken _ ⟨by decide, by decide⟩ s hs
  · exact reject _ s hs

theorem equalSign : Upholds inv lax inv.token equalSign := by
  refine look fun s hs => ?_
  split
  · exact reject _ s hs
  · exact takeToken _ ⟨by decide, by decide⟩ s hs
  · exact reject _ s hs

theorem identifier : Upholds inv lax inv.token identifier := by
  refine look fun s hs => ?_
  dsimp only
  split
  · exact reject _ s hs
  · rename_i hname
    simp only [Bool.or_eq_true, decide_eq_true_eq, not_or, Bool.not_eq_true] at hname
    exact .of_ok rfl (inv.advance hs _) (inv.named hs hname.1 hname.2)

theorem numberConstant : Upholds inv lax (fun found => inv.token found.2) numberConstant := by
  refine look fun s hs => ?_
  dsimp only
  split
  · exact reject _ s hs
  · exact .of_ok rfl (inv.advance hs _) (inv.taken hs .number _ ⟨by decide, by decide⟩)

/-- Behind characters that a string ends with, the quote that ends it. -/
theorem dropWhile_quote {rest : List Char}
    (hclosed : (rest.takeWhile (· ≠ '"')).length < rest.length) :
    ∃ tail, rest.dropWhile (· ≠ '"') = '"' :: tail := by
  have hsplit := List.takeWhile_append_dropWhile (p := (· ≠ '"')) (l := rest)
  cases htail : rest.dropWhile (· ≠ '"') with
  | nil =>
      rw [htail, List.append_nil] at hsplit
      rw [hsplit] at hclosed
      exact absurd hclosed (Nat.lt_irrefl _)
  | cons c tail =>
      have hc := List.head?_dropWhile_not (p := (· ≠ '"')) (l := rest)
      rw [htail] at hc
      have hc : c = '"' := by simpa using hc
      exact ⟨tail, by rw [hc]⟩

theorem stringConstant : Upholds inv lax (fun found => inv.token found.2) stringConstant := by
  refine look fun s hs => ?_
  split
  · rename_i rest hrest
    dsimp only
    split
    · rename_i hclosed
      obtain ⟨tail, htail⟩ := dropWhile_quote hclosed
      refine .of_ok rfl (inv.advance hs _) (inv.quoted hs ⟨tail, ?_⟩)
      have hsplit := List.takeWhile_append_dropWhile (p := (· ≠ '"')) (l := rest)
      rw [htail] at hsplit
      rw [hrest]
      simpa using hsplit
    · exact reject _ s hs
  · exact reject _ s hs

theorem wordConstant (word : String) (value : Constant) :
    Upholds inv true (fun found => inv.token found.2) (wordConstant word value) := by
  have htoken : Upholds inv true inv.token (Parser.keyword .keyword word) :=
    keyword word ⟨by decide, by decide⟩
  exact htoken.bind fun token h => .pure h

end Upholds

end Lox.Parser
