/-
Trivia put into a text, right in front of a word or right behind the last
(`Seam`). The words are the same and stand as they stood: whatever is put in
begins with white space, and there every word ends. A word further in front
cannot tell either, for it looks at no more than two characters behind it, and
at the second only for a digit (`Similar`).
-/
import Lox.Proofs.Rendering.Written

namespace Lox

open Text Text.Lexeme

variable {cs rest rest' filler : List Char} {w : Word}

-- =========================================================== where words end

theorem fractionLength_eq_zero_iff :
    fractionLength rest = 0
      ↔ (rest.head? = some '.' → (rest.drop 1).head?.any isDigit = false) := by
  unfold fractionLength
  split
  · rename_i digits
    cases digits with
    | nil => simp
    | cons d digits => cases hd : isDigit d <;> simp [hd]
  · rename_i hnot
    refine iff_of_true rfl fun hhead => ?_
    obtain ⟨digits, rfl⟩ := List.head?_eq_some_iff.mp hhead
    exact absurd rfl (hnot digits)

/-- A word that stands in front of a text ends where it says. -/
theorem Word.Stands.endsBefore (h : w.Stands (w.spelling ++ rest)) (hbounded : w.Bounded rest) :
    w.EndsBefore rest := by
  have hvalid : w.Valid := h.valid (by rwa [List.drop_left])
  cases w with
  | symbol s =>
      refine fun hhead => ⟨?_, hbounded hhead⟩
      rintro rfl
      refine h.2.2 rfl ?_
      rw [← hhead, List.head?_eq_getElem?]
      rfl
  | keyword s =>
      have hnext := h.2.2
      rwa [Word.spelling, List.drop_left] at hnext
  | name s =>
      obtain ⟨hne, hlength, -⟩ := hvalid
      have hwhole := congrArg List.length h.1
      have hle := Parser.nameLength_le (s.toList ++ rest)
      obtain ⟨c, tail, hshape, hc, hall⟩ := nameChars_of_nameLength hne hlength
      rw [Word.spelling, List.length_take, Nat.min_eq_left hle, hshape, List.cons_append, nameLength,
        if_pos hc, List.takeWhile_append_of_pos hall, List.length_append, List.length_cons] at hwhole
      intro d hd
      refine ⟨hbounded d hd, ?_⟩
      cases hname : isNameChar d with
      | false => rfl
      | true =>
          obtain ⟨more, rfl⟩ := List.head?_eq_some_iff.mp hd
          simp only [List.takeWhile_cons, hname, if_true, List.length_cons] at hwhole
          omega
  | number s =>
      refine (numberLength_append_iff hvalid.1 hvalid.2).mp ?_
      have hwhole := congrArg List.length h.1
      rw [Word.spelling, List.length_take, Nat.min_eq_left (Parser.numberLength_le _)] at hwhole
      exact hwhole.symm
  | string s => trivial

/-- A text goes on like another, as far as a word in front of it can tell. -/
structure Similar (rest rest' : List Char) : Prop where
  head : rest'.head? = rest.head?
  second : ∀ d ∈ (rest'.drop 1).head?, isDigit d = true → (rest.drop 1).head? = some d

theorem Word.EndsBefore.similar (h : w.EndsBefore rest) (hs : Similar rest rest') :
    w.EndsBefore rest' := by
  cases w with
  | symbol s =>
      intro hhead
      rw [hs.head] at hhead
      exact h hhead
  | keyword s =>
      rw [Word.EndsBefore, hs.head]
      exact h
  | name s =>
      rw [Word.EndsBefore, hs.head]
      exact h
  | number s =>
      rw [Word.EndsBefore, hs.head]
      refine ⟨h.1, fun hdot => ?_⟩
      rw [fractionLength_eq_zero_iff, hs.head]
      intro hhead
      have hold := fractionLength_eq_zero_iff.mp (h.2 hdot) hhead
      cases hsecond : (rest'.drop 1).head? with
      | none => rfl
      | some d =>
          cases hdigit : isDigit d with
          | false => exact hdigit
          | true =>
              rw [hs.second d hsecond hdigit, Option.any_some, hdigit] at hold
              cases hold
  | string s => trivial

-- ==================================================================== trivia

theorem triviaLength_space {c : Char} (hc : isSpace c = true) (rest : List Char) :
    triviaLength false (c :: rest) = 1 + triviaLength false rest := by
  have hslash : (c == '/') = false := by
    rw [beq_eq_false_iff_ne]
    rintro rfl
    exact absurd hc (by decide)
  cases rest with
  | nil => simp [triviaLength, hc]
  | cons d rest => simp [triviaLength, hc, hslash, Nat.add_comm]

theorem triviaLength_newline (rest : List Char) :
    triviaLength true ('\n' :: rest) = 1 + triviaLength false rest := by
  cases rest with
  | nil => rfl
  | cons d rest => simp [triviaLength, Nat.add_comm]

theorem triviaLength_comment_pos (c : Char) (rest : List Char) :
    triviaLength true (c :: rest) ≠ 0 := by
  cases rest with
  | nil => simp [triviaLength]
  | cons d rest =>
      simp only [triviaLength, if_true]
      split <;> exact Nat.succ_ne_zero _

/-- How trivia in front of a text ends does not depend on what the text is. -/
theorem triviaLength_append : ∀ (inComment : Bool) (trivia : List Char) {cs : List Char}, cs ≠ [] →
    triviaLength inComment (trivia ++ cs) = trivia.length → ∀ rest,
    triviaLength inComment (trivia ++ rest) = trivia.length + triviaLength false rest
  | false, [], _, _, _, rest => by simp
  | true, [], c :: cs, _, h, rest => absurd h (triviaLength_comment_pos c cs)
  | true, [c], y :: cs, _, h, rest => by
    rw [List.singleton_append, triviaLength, if_pos rfl, List.length_singleton] at h
    split at h
    · omega
    · have hc : c = '\n' := by
        by_contra hne
        rw [decide_eq_true hne] at h
        exact triviaLength_comment_pos y cs (by omega)
      rw [hc]
      exact triviaLength_newline rest
  | false, [c], y :: cs, _, h, rest => by
    rw [List.singleton_append, triviaLength, if_neg Bool.false_ne_true, List.length_singleton] at h
    split at h
    · omega
    · split at h
      · rename_i hspace
        exact triviaLength_space hspace rest
      · cases h
  | true, c :: d :: trivia, cs, hne, h, rest => by
    simp only [List.cons_append, triviaLength, if_true, List.length_cons] at h ⊢
    split at h
    · rename_i hescaped
      have hrest := triviaLength_append true trivia hne (by omega) rest
      rw [if_pos hescaped, hrest]
      omega
    · rename_i hescaped
      have hrest := triviaLength_append (c ≠ '\n') (d :: trivia) hne
        (by rw [List.cons_append, List.length_cons]; omega) rest
      rw [List.cons_append, List.length_cons] at hrest
      rw [if_neg hescaped, hrest]
      omega
  | false, c :: d :: trivia, cs, hne, h, rest => by
    simp only [List.cons_append, triviaLength, Bool.false_eq_true, if_false, List.length_cons] at h ⊢
    split at h
    · rename_i hcomment
      have hrest := triviaLength_append true trivia hne (by omega) rest
      rw [if_pos hcomment, hrest]
      omega
    · rename_i hcomment
      split at h
      · rename_i hspace
        have hrest := triviaLength_append false (d :: trivia) hne
          (by rw [List.cons_append, List.length_cons]; omega) rest
        rw [List.cons_append, List.length_cons] at hrest
        rw [if_neg hcomment, if_pos hspace, hrest]
        omega
      · omega

/-- A comment up to the end of its line, behind a blank. -/
def lineComment (c : List Char) : List Char := ' ' :: '/' :: '/' :: (c ++ ['\n'])

/-- What may be put into a text: white space, or a comment that ends in no backslash. -/
inductive Filler : List Char → Prop
  | space {c : Char} (hc : isSpace c = true) : Filler [c]
  | comment {c : List Char} (hline : '\n' ∉ c) (hlast : c.getLast? ≠ some '\\') :
      Filler (lineComment c)

/-- A comment runs up to its newline, unless a backslash stands in front of it. -/
theorem triviaLength_line {c : List Char} (hline : '\n' ∉ c) (hlast : c.getLast? ≠ some '\\')
    (rest : List Char) :
    triviaLength true (c ++ '\n' :: rest) = c.length + 1 + triviaLength false rest := by
  induction c with
  | nil => rw [List.nil_append, triviaLength_newline, List.length_nil, Nat.zero_add]
  | cons x c ih =>
      rw [List.mem_cons, not_or] at hline
      have hstay : decide (x ≠ '\n') = true := decide_eq_true (Ne.symm hline.1)
      cases c with
      | nil =>
          have hx : (x == '\\') = false := by
            rw [beq_eq_false_iff_ne]
            rintro rfl
            exact hlast rfl
          rw [List.singleton_append, triviaLength, if_pos rfl, hx, Bool.false_and,
            if_neg Bool.false_ne_true, hstay, triviaLength_newline, List.length_singleton]
          omega
      | cons y c =>
          have hy : (y == '\n') = false := by
            rw [beq_eq_false_iff_ne]
            rintro rfl
            exact hline.2 List.mem_cons_self
          have hrest := ih hline.2 (by rwa [List.getLast?_cons_cons] at hlast)
          rw [List.cons_append] at hrest
          rw [List.cons_append, List.cons_append, triviaLength, if_pos rfl, hy, Bool.and_false,
            if_neg Bool.false_ne_true, hstay, hrest]
          simp only [List.length_cons]
          omega

theorem Filler.triviaLength_append (h : Filler filler) (rest : List Char) :
    triviaLength false (filler ++ rest) = filler.length + triviaLength false rest := by
  cases h with
  | space hc => exact triviaLength_space hc rest
  | @comment c hline hlast =>
      rw [lineComment, List.cons_append, triviaLength_space (by decide), List.cons_append,
        List.cons_append, triviaLength, if_neg Bool.false_ne_true, if_pos (by decide), List.append_assoc,
        List.singleton_append, triviaLength_line hline hlast]
      simp only [List.length_cons, List.length_append, List.length_nil]
      omega

theorem Filler.trimmed_append (h : Filler filler) (rest : List Char) :
    trimmed (filler ++ rest) = trimmed rest := by
  rw [trimmed, h.triviaLength_append, List.drop_append, trimmed]
  simp

theorem Filler.gap (h : Filler filler) (rest : List Char) : Gap (filler ++ rest) := by
  cases h with
  | space hc => exact .space hc rest
  | comment => exact .space rfl _

theorem Filler.exists_last (h : Filler filler) :
    ∃ front c, filler = front ++ [c] ∧ isSpace c = true := by
  cases h with
  | @space c hc => exact ⟨[], c, rfl, hc⟩
  | @comment c => exact ⟨' ' :: '/' :: '/' :: c, '\n', rfl, by decide⟩

-- =================================================================== cursors

namespace Cursor

variable {c c' : Cursor}

/-- The character just passed is the last of those that were passed. -/
theorem previous_passed {passed : List Char} (h : c.rest = passed ++ rest) :
    (c.advance passed.length).previous = passed.getLast?.or c.previous := by
  rw [previous_advance, h, List.take_left]

theorem previous_advance_eq (hrest : c'.rest = c.rest) (hprevious : c'.previous = c.previous)
    (n : Nat) : (c'.advance n).previous = (c.advance n).previous := by
  rw [previous_advance, previous_advance, hrest, hprevious]

/-- Which words lie ahead depends on what is left of the text and on the character just passed. -/
theorem Ahead.congr {ws : List Word} (h : c.Ahead ws) (hrest : c'.rest = c.rest)
    (hprevious : c'.previous = c.previous) : c'.Ahead ws := by
  induction h generalizing c' with
  | nil finished => exact .nil (by rwa [hrest])
  | @cons c w ws stands bounded clear _ ih =>
      have hsame : c'.skipTrivia.previous = c.skipTrivia.previous := by
        rw [Cursor.skipTrivia, Cursor.skipTrivia, hrest]
        exact previous_advance_eq hrest hprevious _
      have hleft : c'.skipTrivia.rest = c.skipTrivia.rest := by
        rw [rest_skipTrivia, rest_skipTrivia, hrest]
      refine .cons (by rwa [hrest]) (by rwa [hrest]) (by rwa [hsame]) (ih ?_ ?_)
      · rw [rest_advance, rest_advance, hleft]
      · exact previous_advance_eq hleft hsame _

end Cursor

-- ===================================================================== seams

/-- A place in a text right in front of a word or right behind the last, as the number of
characters in front of it. -/
inductive Seam : List Char → Nat → Prop
  | front {cs : List Char} (hsome : trimmed cs ≠ []) : Seam cs (triviaLength false cs)
  | back {cs : List Char} (hnone : trimmed cs = []) : Seam cs 0
  | later {cs : List Char} {k : Nat} (hsome : trimmed cs ≠ [])
      (further : Seam ((trimmed cs).drop (Word.first (trimmed cs)).spelling.length) k) :
      Seam cs (triviaLength false cs + (Word.first (trimmed cs)).spelling.length + k)

/-- A text with more put into it at a place. -/
def inserted (cs : List Char) (k : Nat) (filler : List Char) : List Char :=
  cs.take k ++ (filler ++ cs.drop k)

/-- What is put in behind some characters leaves these. -/
theorem inserted_append (front cs : List Char) (k : Nat) (filler : List Char) :
    inserted (front ++ cs) (front.length + k) filler = front ++ inserted cs k filler := by
  unfold inserted
  rw [List.take_length_add_append, List.drop_length_add_append, List.append_assoc]

/-- A text begins as before, or with white space. -/
theorem Filler.head?_inserted (h : Filler filler) (cs : List Char) (k : Nat) :
    (inserted cs k filler).head? = cs.head?
      ∨ ∃ c, (inserted cs k filler).head? = some c ∧ isSpace c = true := by
  have hspace : ∀ more, ∃ c, (filler ++ more).head? = some c ∧ isSpace c = true := by
    intro more
    cases h with
    | space hc => exact ⟨_, rfl, hc⟩
    | comment => exact ⟨_, rfl, rfl⟩
  cases k with
  | zero => exact .inr (hspace cs)
  | succ k =>
      cases cs with
      | nil => exact .inr (hspace [])
      | cons c cs => exact .inl rfl

/-- A word in front cannot tell a text from one with something put into it. -/
theorem Word.EndsBefore.inserted (h : w.EndsBefore rest) (hfiller : Filler filler) (k : Nat) :
    w.EndsBefore (inserted rest k filler) := by
  have hgap : ∀ more, w.EndsBefore (filler ++ more) := fun more =>
    (hfiller.gap more).endsBefore w
  cases k with
  | zero => exact hgap rest
  | succ k =>
      cases rest with
      | nil => exact hgap []
      | cons c rest =>
          refine h.similar ⟨rfl, fun d hd hdigit => ?_⟩
          rcases hfiller.head?_inserted rest k with hsame | ⟨e, he, hspace⟩
          · exact hsame.symm.trans hd
          · obtain rfl := Option.some.inj (he.symm.trans hd)
            have hblank := isBlank_of_isDigit hdigit
            rw [isBlank_of_isSpace hspace] at hblank
            cases hblank

/-- A valid word starts with no trivia, unless it is the first half of a comment sign. -/
theorem Word.Valid.triviaLength_eq_zero_iff (h : w.Valid) :
    triviaLength false (w.spelling ++ rest) = 0
      ↔ (w.spelling = ['/'] → rest.head? ≠ some '/') := by
  obtain ⟨c, tail, hshape, hblank, hslash⟩ := h.opens
  have hspace : isSpace c = false := by
    cases hc : isSpace c with
    | false => rfl
    | true => rw [isBlank_of_isSpace hc] at hblank; cases hblank
  rw [hshape, List.cons_append]
  cases hbehind : tail ++ rest with
  | nil =>
      obtain ⟨rfl, rfl⟩ := List.append_eq_nil_iff.mp hbehind
      simp [triviaLength, hspace]
  | cons d more =>
      by_cases hc : c = '/'
      · rw [hslash hc, List.nil_append] at hbehind
        rw [hc, hslash hc, hbehind]
        simp [triviaLength, isSpace]
      · simp [triviaLength, hspace, hc]

namespace Cursor

variable {c c' : Cursor}

/-- Behind a word that is the same on both sides the same character was passed. -/
theorem previous_advance_word {more more' : List Char} (hpos : w.spelling ≠ [])
    (h : c.rest = w.spelling ++ more) (h' : c'.rest = w.spelling ++ more') :
    (c'.advance w.spelling.length).previous = (c.advance w.spelling.length).previous := by
  rw [previous_passed h, previous_passed h', List.getLast?_eq_some_getLast hpos, Option.some_or,
    Option.some_or]

theorem Ahead.eq_nil {ws : List Word} (h : c.Ahead ws) (hnone : trimmed c.rest = []) : ws = [] := by
  cases h with
  | nil => rfl
  | cons stands =>
      rw [hnone] at stands
      exact absurd stands.length_pos.2 (Nat.lt_irrefl 0)

/-- A word lies ahead that ends where the text behind it goes on. -/
theorem Ahead.of_word {ws : List Word} (hvalid : w.Valid)
    (htrimmed : trimmed c.rest = w.spelling ++ rest) (hends : w.EndsBefore rest)
    (hclear : w.Clear c.skipTrivia.previous)
    (hfurther : (c.skipTrivia.advance w.spelling.length).Ahead ws) : c.Ahead (w :: ws) := by
  refine .cons ?_ ?_ hclear hfurther
  · rw [htrimmed]
    exact hvalid.stands hends
  · rw [htrimmed, List.drop_left]
    exact hends.bounded

/-- What is known of the word that lies ahead. -/
structure Leading (c : Cursor) (w : Word) (ws : List Word) (trivia rest : List Char) : Prop where
  text : c.rest = trivia ++ (w.spelling ++ rest)
  length : triviaLength false c.rest = trivia.length
  valid : w.Valid
  endsBefore : w.EndsBefore rest
  clear : w.Clear c.skipTrivia.previous
  further : (c.skipTrivia.advance w.spelling.length).Ahead ws
  first : Word.first (trimmed c.rest) = w

theorem Ahead.exists_leading {ws : List Word} (h : c.Ahead ws) (hsome : trimmed c.rest ≠ []) :
    ∃ w more trivia rest, ws = w :: more ∧ Leading c w more trivia rest := by
  cases h with
  | nil finished => exact absurd finished hsome
  | @cons _ w more stands bounded clear further =>
      obtain ⟨rest, hrest⟩ := stands.isPrefix
      have hpos : triviaLength false c.rest < c.rest.length := by
        have hlength := List.length_pos_iff.mpr hsome
        rw [trimmed, List.length_drop] at hlength
        omega
      rw [← hrest, List.drop_left] at bounded
      refine ⟨w, more, c.rest.take (triviaLength false c.rest), rest, rfl, ?_, ?_, ?_, ?_, clear,
        further, ?_⟩
      · rw [hrest, trimmed, List.take_append_drop]
      · rw [List.length_take, Nat.min_eq_left (Nat.le_of_lt hpos)]
      · exact stands.valid (by rwa [← hrest, List.drop_left])
      · exact (hrest ▸ stands).endsBefore bounded
      · exact Word.first_eq stands (by rwa [← hrest, List.drop_left])

namespace Leading

variable {ws : List Word} {trivia : List Char} (h : Leading c w ws trivia rest)
include h

theorem trimmed_eq : trimmed c.rest = w.spelling ++ rest := by
  rw [trimmed, h.length, h.text, List.drop_left]

theorem spelling_ne_nil : w.spelling ≠ [] := by
  obtain ⟨x, tail, hshape, -⟩ := h.valid.opens
  rw [hshape]
  exact List.cons_ne_nil _ _

/-- With other trivia in front of it, which ends in white space, the word lies ahead still. -/
theorem with_trivia (trivia' : List Char) {x : Char} (hx : isSpace x = true)
    (hrest : c'.rest = (trivia' ++ [x]) ++ (w.spelling ++ rest))
    (hlength : triviaLength false c'.rest = (trivia' ++ [x]).length) : c'.Ahead (w :: ws) := by
  have htrimmed : trimmed c'.rest = w.spelling ++ rest := by
    rw [trimmed, hlength, hrest, List.drop_left]
  refine .of_word h.valid htrimmed h.endsBefore ?_ (h.further.congr ?_ ?_)
  · have hprevious : c'.skipTrivia.previous = some x := by
      rw [skipTrivia, hlength, previous_passed hrest, List.getLast?_concat, Option.some_or]
    rw [hprevious]
    cases w with
    | keyword => exact isKeywordChar_of_isSpace hx
    | _ => trivial
  · rw [rest_advance, rest_advance, rest_skipTrivia, rest_skipTrivia, htrimmed, h.trimmed_eq]
  · exact previous_advance_word h.spelling_ne_nil (by rw [rest_skipTrivia, h.trimmed_eq])
      (by rw [rest_skipTrivia, htrimmed])

/-- With another text behind it, before which it ends as well, the word lies ahead still. -/
theorem with_rest {rest' : List Char} (hends : w.EndsBefore rest')
    (hslash : w.spelling = ['/'] → rest'.head? ≠ some '/')
    (hrest : c'.rest = trivia ++ (w.spelling ++ rest')) (hprevious : c'.previous = c.previous)
    (hfurther : ∀ d : Cursor, d.rest = rest' →
      d.previous = (c.skipTrivia.advance w.spelling.length).previous → d.Ahead ws) :
    c'.Ahead (w :: ws) := by
  have hne : w.spelling ++ rest ≠ [] := List.append_ne_nil_of_left_ne_nil h.spelling_ne_nil _
  have hlength : triviaLength false c'.rest = trivia.length := by
    rw [hrest, triviaLength_append false trivia hne (by rw [← h.text]; exact h.length),
      h.valid.triviaLength_eq_zero_iff.mpr hslash, Nat.add_zero]
  have htrimmed : trimmed c'.rest = w.spelling ++ rest' := by
    rw [trimmed, hlength, hrest, List.drop_left]
  refine .of_word h.valid htrimmed hends ?_ (hfurther _ ?_ ?_)
  · have hsame : c'.skipTrivia.previous = c.skipTrivia.previous := by
      rw [skipTrivia, skipTrivia, hlength, h.length, previous_passed hrest,
        previous_passed h.text, hprevious]
    rw [hsame]
    exact h.clear
  · rw [rest_advance, rest_skipTrivia, htrimmed, List.drop_left]
  · exact previous_advance_word h.spelling_ne_nil (by rw [rest_skipTrivia, h.trimmed_eq])
      (by rw [rest_skipTrivia, htrimmed])

theorem settled : triviaLength false (w.spelling ++ rest) = 0 := by
  rw [← h.trimmed_eq]
  exact triviaLength_drop false c.rest

end Leading

/-- At a seam nothing that lies ahead changes. -/
theorem Ahead.of_seam {cs : List Char} {k : Nat} (hk : Seam cs k) (hfiller : Filler filler)
    {ws : List Word} (h : c.Ahead ws) (hcs : c.rest = cs)
    (hrest : c'.rest = inserted cs k filler) (hprevious : c'.previous = c.previous) :
    c'.Ahead ws := by
  induction hk generalizing c c' ws with
  | back hnone =>
      obtain rfl := h.eq_nil (by rwa [hcs])
      refine .nil ?_
      rw [hrest]
      exact (hfiller.trimmed_append _).trans hnone
  | @front cs hsome =>
      subst hcs
      obtain ⟨w, more, trivia, rest, rfl, hw⟩ := h.exists_leading hsome
      obtain ⟨front, x, rfl, hx⟩ := hfiller.exists_last
      have hrest' : c'.rest = trivia ++ ((front ++ [x]) ++ (w.spelling ++ rest)) := by
        rw [hrest, hw.length]
        conv_lhs => rw [hw.text, ← Nat.add_zero trivia.length, inserted_append]
        rfl
      have hne : w.spelling ++ rest ≠ [] :=
        List.append_ne_nil_of_left_ne_nil hw.spelling_ne_nil _
      refine hw.with_trivia (trivia ++ front) hx (by rw [hrest']; simp) ?_
      rw [hrest', triviaLength_append false trivia hne (by rw [← hw.text]; exact hw.length),
        hfiller.triviaLength_append, hw.settled]
      simp
  | @later cs k hsome further ih =>
      subst hcs
      obtain ⟨w, more, trivia, rest, rfl, hw⟩ := h.exists_leading hsome
      rw [hw.first, hw.trimmed_eq, List.drop_left] at further ih
      rw [hw.first, hw.length] at hrest
      have hrest' : c'.rest = trivia ++ (w.spelling ++ inserted rest k filler) := by
        rw [hrest]
        conv_lhs => rw [hw.text, Nat.add_assoc, inserted_append, inserted_append]
      have hslash : w.spelling = ['/'] → (inserted rest k filler).head? ≠ some '/' := by
        intro hw' hhead
        rcases hfiller.head?_inserted rest k with hsame | ⟨x, hx, hspace⟩
        · exact hw.valid.triviaLength_eq_zero_iff.mp hw.settled hw' (hsame.symm.trans hhead)
        · obtain rfl := Option.some.inj (hx.symm.trans hhead)
          exact absurd hspace (by decide)
      refine hw.with_rest (hw.endsBefore.inserted hfiller k) hslash hrest' hprevious ?_
      intro d hd hdprevious
      refine ih hw.further ?_ hd hdprevious
      rw [rest_advance, rest_skipTrivia, hw.trimmed_eq, List.drop_left]

end Cursor

end Lox
