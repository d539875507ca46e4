/-
Bounds that no reading comes up against. A reader is given how deep it may nest, and
repetitions how many rounds they may take. Two readers agree (`Parser.Agrees`) if they
read alike although their bounds differ, as long as few enough characters are left.

What makes them agree is that they take characters. A rule that takes one before it goes
into itself leaves fewer to the reader inside, and a round that takes one leaves fewer to
the next. Failed declarations take characters too, for recovery does
(`Cursor.offset_lt_resume`), even where it goes back behind what was read before.
-/
import Lox.Proofs.Recovery.Resume
import Lox.Proofs.Reading.Reads

namespace Lox

/-- The same progress under another bound on repetitions. -/
def Progress.bounded (s : Progress) (bound : Nat) : Progress := { s with bound }

namespace Cursor

variable {c : Cursor}

theorem length_advance (c : Cursor) (n : Nat) :
    (c.advance n).rest.length = c.rest.length - n := by
  rw [rest_advance, List.length_drop]

theorem length_skipTrivia (c : Cursor) : c.skipTrivia.rest.length ≤ c.rest.length := by
  unfold skipTrivia
  rw [length_advance]
  omega

/-- To pass characters of a text that has some is to leave fewer. -/
theorem length_advance_lt {n : Nat} (hne : c.rest ≠ []) (hn : n ≠ 0) :
    (c.advance n).rest.length + 1 ≤ c.rest.length := by
  have hpos := List.length_pos_iff.mpr hne
  rw [length_advance]
  omega

theorem exists_resumeWithin_eq (c : Cursor) (fuel : Nat) :
    ∃ n, c.resumeWithin fuel = c.advance n := by
  induction fuel generalizing c with
  | zero => exact ⟨0, rfl⟩
  | succ fuel ih =>
      have hpass : c.passLexeme = c.advance _ := (c.advance_add _ _).symm
      unfold resumeWithin
      dsimp only
      split
      · exact ⟨0, rfl⟩
      split
      · exact ⟨_, hpass⟩
      · obtain ⟨n, hn⟩ := ih c.passLexeme
        rw [hn, hpass]
        exact ⟨_, (c.advance_add _ _).symm⟩

/-- Recovery only moves the cursor forward. -/
theorem exists_resume_eq (c : Cursor) : ∃ n, c.resume = c.advance n := by
  obtain ⟨n, hn⟩ := c.skipGap.exists_resumeWithin_eq c.rest.length
  exact ⟨_, hn.trans (c.advance_add _ _).symm⟩

/-- Wherever behind its start a declaration fails, recovery goes on further to the right. -/
theorem offset_lt_recovered (hne : c.rest ≠ []) (n : Nat) :
    c.offset < (c.advance n).resume.offset := by
  have hpos := List.length_pos_iff.mpr hne
  cases hrest : (c.advance n).rest with
  | nil =>
      have hlength := congrArg List.length hrest
      have hresume := (c.advance n).offset_le_resume
      rw [length_advance, List.length_nil] at hlength
      rw [offset_advance] at hresume
      omega
  | cons x rest =>
      have hleft : (c.advance n).rest ≠ [] := hrest ▸ List.cons_ne_nil x rest
      have hresume := offset_lt_resume hleft
      have hreached := c.offset_le_advance n
      omega

theorem length_recovered_lt (hne : c.rest ≠ []) (n : Nat) :
    (c.advance n).resume.rest.length + 1 ≤ c.rest.length := by
  have hoffset := offset_lt_recovered hne n
  obtain ⟨m, hm⟩ := (c.advance n).exists_resume_eq
  rw [hm, ← advance_add, offset_advance] at hoffset
  rw [hm, ← advance_add, length_advance]
  omega

end Cursor

namespace Parser

/-- Two readings, one of them under another bound, end alike. One that succeeds leaves the text
shorter by `k` characters at least. -/
inductive EndsBounded {α : Type} (k : Nat) (s : Progress) (bound : Nat) :
    EStateM.Result Failure Progress α → EStateM.Result Failure Progress α → Prop
  | ok {a : α} {t : Progress} (kept : t.bound = s.bound)
      (passed : t.cursor.rest.length + k ≤ s.cursor.rest.length) :
      EndsBounded k s bound (.ok a t) (.ok a (t.bounded bound))
  | error {e : Failure} {t : Progress} (kept : t.bound = s.bound) :
      EndsBounded k s bound (.error e t) (.error e (t.bounded bound))

/-- Two readers that agree where less than `n` characters are left and the bounds on repetitions
allow for as many rounds. -/
def Agrees {α : Type} (n k : Nat) (p p' : Parser α) : Prop :=
  ∀ s bound, s.cursor.rest.length < n → s.cursor.rest.length ≤ s.bound →
    s.cursor.rest.length ≤ bound → EndsBounded k s bound (p s) (p' (s.bounded bound))

/-- What was read farther on is shorter by as much. -/
theorem EndsBounded.back {α : Type} {k bound : Nat} {s t : Progress}
    {r r' : EStateM.Result Failure Progress α} (h : EndsBounded k t bound r r')
    (kept : t.bound = s.bound) (passed : t.cursor.rest.length ≤ s.cursor.rest.length) :
    EndsBounded k s bound r r' := by
  cases h with
  | ok kept' passed' => exact .ok (kept'.trans kept) (by omega)
  | error kept' => exact .error (kept'.trans kept)

namespace Agrees

variable {α β : Type} {n k : Nat} {p p' : Parser α} {f f' : α → Parser β}

-- ============================================================ the combinators

/-- No text is shorter than the empty one. -/
theorem zero : Agrees 0 k p p' := fun _ _ h => absurd h (Nat.not_lt_zero _)

theorem mono {m j : Nat} (hp : Agrees n k p p') (hm : m ≤ n) (hj : j ≤ k) : Agrees m j p p' := by
  intro s bound hshort hrounds hrounds'
  have hends := hp s bound (Nat.lt_of_lt_of_le hshort hm) hrounds hrounds'
  generalize p s = r at hends ⊢
  generalize p' (s.bounded bound) = r' at hends ⊢
  cases hends with
  | ok kept passed => exact .ok kept (by omega)
  | error kept => exact .error kept

/-- What takes a character may as well take none. -/
theorem weaken (hp : Agrees n 1 p p') : Agrees n 0 p p' := hp.mono (Nat.le_refl n) (Nat.zero_le 1)

/-- What agrees on longer texts agrees on shorter ones. -/
theorem shorter (hp : Agrees (n + 1) k p p') : Agrees n k p p' :=
  hp.mono (Nat.le_succ n) (Nat.le_refl k)

theorem pure {a : α} : Agrees n 0 (pure a) (pure a) := fun _ _ _ _ _ => .ok rfl (Nat.le_refl _)

/-- What the first reader takes is not left to the second. -/
theorem seq {m j : Nat} (hp : Agrees n k p p') (hf : ∀ a, Agrees m j (f a) (f' a))
    (hm : n ≤ m + k) : Agrees n (k + j) (p >>= f) (p' >>= f') := by
  intro s bound hshort hrounds hrounds'
  have hends := hp s bound hshort hrounds hrounds'
  generalize hr : p s = r at hends
  generalize hr' : p' (s.bounded bound) = r' at hends
  cases hends with
  | error kept =>
      rw [run_bind_error hr, run_bind_error hr']
      exact .error kept
  | @ok a t kept passed =>
      rw [run_bind_ok hr, run_bind_ok hr']
      have hrest := hf a t bound (by omega) (by omega) (by omega)
      generalize f a t = r at hrest ⊢
      generalize f' a (t.bounded bound) = r' at hrest ⊢
      cases hrest with
      | ok kept' passed' => exact .ok (kept'.trans kept) (by omega)
      | error kept' => exact .error (kept'.trans kept)

/-- A reader that may take nothing comes first. -/
theorem bind (hp : Agrees n 0 p p') (hf : ∀ a, Agrees n k (f a) (f' a)) :
    Agrees n k (p >>= f) (p' >>= f') :=
  (hp.seq hf (Nat.le_refl n)).mono (Nat.le_refl n) (Nat.le_add_left k 0)

/-- A reader that takes a character comes first, and there is less of the text behind it. -/
theorem behind (hp : Agrees (n + 1) 1 p p') (hf : ∀ a, Agrees n 0 (f a) (f' a)) :
    Agrees (n + 1) 1 (p >>= f) (p' >>= f') :=
  hp.seq hf (Nat.le_refl _)

/-- The same where it is enough that there is no more. -/
theorem first (hp : Agrees n 1 p p') (hf : ∀ a, Agrees n 0 (f a) (f' a)) :
    Agrees n 1 (p >>= f) (p' >>= f') :=
  hp.seq hf (Nat.le_succ n)

theorem failAt {weight : Weight} {cause : FaultCause} {place : Place} :
    Agrees n k (α := α) (failAt weight cause place) (failAt weight cause place) :=
  fun _ _ _ _ _ => .error rfl

theorem committed (hp : Agrees n k p p') : Agrees n k (committed p) (committed p') := by
  intro s bound hshort hrounds hrounds'
  have hends := hp s bound hshort hrounds hrounds'
  unfold Parser.committed
  generalize p s = r at hends ⊢
  generalize p' (s.bounded bound) = r' at hends ⊢
  cases hends with
  | ok kept passed => exact .ok kept passed
  | error kept => exact .error kept

theorem skipTrivia : Agrees n 0 skipTrivia skipTrivia :=
  fun s _ _ _ _ => .ok rfl s.cursor.length_skipTrivia

theorem freshId : Agrees n 0 freshId freshId := fun _ _ _ _ _ => .ok rfl (Nat.le_refl _)

/-- Where nothing is read the cursor is put back. -/
theorem optional (hp : Agrees n k p p') : Agrees n 0 (optional p) (optional p') := by
  intro s bound hshort hrounds hrounds'
  have hends := hp s bound hshort hrounds hrounds'
  unfold Parser.optional
  generalize p s = r at hends ⊢
  generalize p' (s.bounded bound) = r' at hends ⊢
  cases hends with
  | ok kept passed => exact .ok kept (by omega)
  | @error e _ kept =>
      dsimp only
      cases e.weight with
      | soft => exact .ok kept (Nat.le_refl _)
      | refusal | committed => exact .error kept

/-- What goes on after something was found has less of the text before it than what goes on after
nothing was. -/
theorem optional_bind {f f' : Option α → Parser β} (hp : Agrees (n + 1) 1 p p')
    (hnone : Agrees (n + 1) 0 (f none) (f' none))
    (hsome : ∀ a, Agrees n 0 (f (some a)) (f' (some a))) :
    Agrees (n + 1) 0 (Parser.optional p >>= f) (Parser.optional p' >>= f') := by
  intro s bound hshort hrounds hrounds'
  have hends := hp s bound hshort hrounds hrounds'
  generalize hr : p s = r at hends
  generalize hr' : p' (s.bounded bound) = r' at hends
  cases hends with
  | @ok a t kept passed =>
      rw [run_bind_ok (run_optional_ok hr), run_bind_ok (run_optional_ok hr')]
      exact (hsome a t bound (by omega) (by omega) (by omega)).back kept (by omega)
  | @error e t kept =>
      by_cases hsoft : e.weight = .soft
      · rw [run_bind_ok (run_optional_soft hr hsoft), run_bind_ok (run_optional_soft hr' hsoft)]
        exact (hnone { t with cursor := s.cursor } bound hshort (kept ▸ hrounds) hrounds').back
          kept (Nat.le_refl _)
      · rw [run_bind_error (run_optional_hard hr hsoft),
          run_bind_error (run_optional_hard hr' hsoft)]
        exact .error kept

/-- Rounds that each take a character do not run out before the text does. -/
theorem manyWithin {m : Nat} (hp : Agrees n 1 p p') (hm : m ≤ n) {rounds rounds' : Nat}
    (hrounds : m ≤ rounds) (hrounds' : m ≤ rounds') :
    Agrees m 0 (manyWithin p rounds) (manyWithin p' rounds') := by
  induction m generalizing rounds rounds' with
  | zero => exact zero
  | succ m ih =>
      obtain ⟨rounds, rfl⟩ : ∃ r, rounds = r + 1 := ⟨rounds - 1, by omega⟩
      obtain ⟨rounds', rfl⟩ : ∃ r, rounds' = r + 1 := ⟨rounds' - 1, by omega⟩
      refine optional_bind (hp.mono hm (Nat.le_refl 1)) pure fun a => ?_
      exact (ih (by omega) (by omega) (by omega)).bind fun more => pure

theorem many (hp : Agrees n 1 p p') : Agrees n 0 (many p) (many p') := by
  intro s bound hshort hrounds hrounds'
  exact hp.manyWithin hshort (Nat.succ_le_succ hrounds) (Nat.succ_le_succ hrounds') s bound
    (Nat.lt_succ_self _) hrounds hrounds'

theorem firstOf {ps ps' : List (Parser α)} (hps : List.Forall₂ (Agrees n k) ps ps')
    (best : Option Failure) : Agrees n k (firstOf best ps) (firstOf best ps') := by
  induction hps generalizing best with
  | nil =>
      intro s bound _ _ _
      unfold Parser.firstOf
      cases best with
      | none => exact .error rfl
      | some e => exact .error rfl
  | @cons p p' ps ps' hp _ ih =>
      intro s bound hshort hrounds hrounds'
      have hends := hp s bound hshort hrounds hrounds'
      unfold Parser.firstOf
      generalize p s = r at hends ⊢
      generalize p' (s.bounded bound) = r' at hends ⊢
      cases hends with
      | ok kept passed => exact .ok kept passed
      | @error e t kept =>
          dsimp only
          cases e.weight with
          | refusal | committed => exact .error kept
          | soft =>
              exact (ih _ { t with cursor := s.cursor } bound hshort (kept ▸ hrounds) hrounds').back
                kept (Nat.le_refl _)

theorem choice (name : Expectation) {ps ps' : List (Parser α)}
    (hps : List.Forall₂ (Agrees n k) ps ps') : Agrees n k (choice name ps) (choice name ps') := by
  intro s bound hshort hrounds hrounds'
  have htrivia := s.cursor.length_skipTrivia
  have hends := firstOf hps none { s with cursor := s.cursor.skipTrivia } bound
    (Nat.lt_of_le_of_lt htrivia hshort) (Nat.le_trans htrivia hrounds)
    (Nat.le_trans htrivia hrounds')
  have hends := hends.back (s := s) rfl htrivia
  have hcursor : (s.bounded bound).cursor = s.cursor := rfl
  have hstart : { s.bounded bound with cursor := s.cursor.skipTrivia }
      = Progress.bounded { s with cursor := s.cursor.skipTrivia } bound := rfl
  unfold Parser.choice
  dsimp only
  rw [hcursor, hstart]
  generalize Parser.firstOf none ps _ = r at hends ⊢
  generalize Parser.firstOf none ps' _ = r' at hends ⊢
  cases hends with
  | ok kept passed => exact .ok kept passed
  | error kept =>
      dsimp only
      split <;> exact .error kept

/-- A declaration takes a character, whether it is read or recovered from. -/
theorem recovering {d d' : Parser Stmt} (closer : Option Char) (hd : Agrees n 1 d d') :
    Agrees n 1 (recovering closer d) (recovering closer d') := by
  refine skipTrivia.bind fun _ => ?_
  intro s bound hshort hrounds hrounds'
  have hends := hd s bound hshort hrounds hrounds'
  have hcursor : (s.bounded bound).cursor = s.cursor := rfl
  dsimp only
  rw [hcursor]
  by_cases hclosed : (s.cursor.skipGap.atEnd || s.cursor.skipGap.rest.head? == closer) = true
  · rw [if_pos hclosed, if_pos hclosed]
    exact .error rfl
  · rw [if_neg hclosed, if_neg hclosed]
    generalize d s = r at hends ⊢
    generalize d' (s.bounded bound) = r' at hends ⊢
    cases hends with
    | ok kept passed => exact .ok kept passed
    | error kept =>
        have hne : s.cursor.skipGap.rest ≠ [] := by
          rintro hnil
          simp [Cursor.atEnd, hnil] at hclosed
        have hgap : s.cursor.skipGap.rest.length ≤ s.cursor.rest.length := by
          unfold Cursor.skipGap
          rw [Cursor.length_advance]
          omega
        exact .ok kept (Nat.le_trans (Cursor.length_recovered_lt hne _) hgap)

-- ================================================================ single words

/-- What a reader does once it has looked at the text is the same under any bound. -/
def Looks (k : Nat) (c : Cursor) (p : Parser α) : Prop :=
  ∀ s bound, s.cursor = c → EndsBounded k s bound (p s) (p (s.bounded bound))

theorem Looks.reject {c : Cursor} {what : Expectation} : Looks k c (α := α) (Parser.reject what) :=
  fun _ _ _ => .error rfl

theorem Looks.failAt {c : Cursor} {weight : Weight} {cause : FaultCause} {place : Place} :
    Looks k c (α := α) (Parser.failAt weight cause place) := fun _ _ _ => .error rfl

theorem Looks.take {c : Cursor} {m : Nat} (hne : c.rest ≠ []) (hm : m ≠ 0) :
    Looks 1 c (Parser.take m) := fun _ _ hs => .ok rfl (Cursor.length_advance_lt (hs ▸ hne) hm)

theorem Looks.takeToken {c : Cursor} {kind : TokenKind} {m : Nat} (hne : c.rest ≠ [])
    (hm : m ≠ 0) : Looks 1 c (Parser.takeToken kind m) :=
  fun _ _ hs => .ok rfl (Cursor.length_advance_lt (hs ▸ hne) hm)

/-- A reader that passes trivia and looks at the text. -/
theorem look {g : Cursor → Parser α} (hg : ∀ c, Looks k c (g c)) :
    Agrees n k (do let _ ← Parser.skipTrivia; let cursor ← Parser.here; g cursor)
      (do let _ ← Parser.skipTrivia; let cursor ← Parser.here; g cursor) :=
  fun s bound _ _ _ => (hg _ { s with cursor := s.cursor.skipTrivia } bound rfl).back rfl
    s.cursor.length_skipTrivia

theorem rest_ne_nil {c : Cursor} {x : Char} (h : c.rest.head? = some x) : c.rest ≠ [] := by
  intro hnil
  rw [hnil] at h
  cases h

theorem symbol {x : Char} : Agrees n 1 (symbol x) (symbol x) := by
  refine look fun c => ?_
  split
  · rename_i hhead
    exact .take (rest_ne_nil hhead) Nat.one_ne_zero
  · exact .reject

theorem symbolToken {kind : TokenKind} {x : Char} :
    Agrees n 1 (symbolToken kind x) (symbolToken kind x) := by
  refine look fun c => ?_
  split
  · rename_i hhead
    exact .takeToken (rest_ne_nil hhead) Nat.one_ne_zero
  · exact .reject

/-- A word that stands in front of a text leaves less of it. -/
theorem Looks.takeWord {c : Cursor} {kind : TokenKind} {word : String} (hword : word.toList ≠ [])
    (hstarts : startsWith word c.rest = true) : Looks 1 c (Parser.takeToken kind word.length) := by
  refine .takeToken (fun hnil => ?_) fun hlength => hword (List.length_eq_zero_iff.mp hlength)
  rw [hnil] at hstarts
  exact hword (List.prefix_nil.mp (List.isPrefixOf_iff_prefix.mp hstarts))

theorem keyword {kind : TokenKind} {word : String} (hword : word.toList ≠ []) :
    Agrees n 1 (keyword kind word) (keyword kind word) := by
  refine look fun c => ?_
  split
  · exact .reject
  rename_i hstarts
  split
  · exact .failAt
  dsimp only
  split
  · exact .failAt
  · exact .takeWord hword (by simpa using hstarts)

theorem operator {spellings : List String} (hwords : ∀ w ∈ spellings, w.toList ≠ []) :
    Agrees n 1 (operator spellings) (operator spellings) := by
  refine look fun c => ?_
  split
  · rename_i spelling hfind
    have hstarts : startsWith spelling c.rest = true := by simpa using List.find?_some hfind
    exact .takeWord (hwords spelling (List.mem_of_find?_eq_some hfind)) hstarts
  · exact .reject

theorem equalSign : Agrees n 1 equalSign equalSign := by
  refine look fun c => ?_
  split
  · exact .reject
  · rename_i hrest
    exact .takeToken (by simp [hrest]) Nat.one_ne_zero
  · exact .reject

theorem identifier : Agrees n 1 identifier identifier := by
  refine look fun c => ?_
  dsimp only
  split
  · exact .reject
  · rename_i hname
    rw [Bool.or_eq_true, decide_eq_true_eq, not_or] at hname
    exact .takeToken (fun hnil => hname.1 (by rw [hnil]; rfl)) hname.1

theorem numberConstant : Agrees n 1 numberConstant numberConstant := by
  refine look fun c => ?_
  dsimp only
  split
  · exact .reject
  · rename_i hlength
    have hne : c.rest ≠ [] := fun hnil => hlength (by rw [hnil]; rfl)
    exact fun _ _ hs => .ok rfl (Cursor.length_advance_lt (hs ▸ hne) hlength)

theorem stringConstant : Agrees n 1 stringConstant stringConstant := by
  refine look fun c => ?_
  split
  · rename_i hrest
    have hne : c.rest ≠ [] := by simp [hrest]
    dsimp only
    split
    · exact fun _ _ hs => .ok rfl (Cursor.length_advance_lt (hs ▸ hne) (Nat.succ_ne_zero _))
    · exact .reject
  · exact .reject

end Agrees

end Parser

end Lox
