/-
Texts that are written word by word, with a blank between any two. A word that
can be read stands in such a text as the word it is, since a blank runs into
nothing: so the words of the text are the words that were written.
-/
import Lox.Proofs.Reading.Ahead
import Mathlib.Data.List.TakeWhile

namespace Lox

open Text Text.Lexeme

namespace Word

/-- Words behind blanks. -/
def spaced (ws : List Word) : List Char := ws.flatMap fun w => ' ' :: w.spelling

/-- Words with a blank between any two. -/
def written : List Word → List Char
  | [] => []
  | w :: ws => w.spelling ++ spaced ws

theorem spaced_cons (w : Word) (ws : List Word) : spaced (w :: ws) = ' ' :: written (w :: ws) := by
  rw [spaced, List.flatMap_cons, written, List.cons_append, spaced]

end Word

open Word (spaced written spaced_cons)

/-- A program as a text is its words, written. -/
theorem render_toList (body : List Stmt) :
    (render body).toList = written (Stmt.wordsAll body) := by
  have hall : ∀ (w : Word) (ws : List Word),
      [' '].intercalate ((w :: ws).map Word.spelling) = w.spelling ++ spaced ws := by
    intro w ws
    induction ws generalizing w with
    | nil => simp [spaced]
    | cons next rest ih =>
        rw [List.map_cons, List.map_cons, List.intercalate_cons_cons, ← List.map_cons, ih,
          spaced_cons, written, List.append_assoc]
        rfl
  unfold render
  rw [String.toList_intercalate, List.map_map]
  have hspelling : (String.toList ∘ fun w : Word => String.ofList w.spelling) = Word.spelling := by
    funext w
    exact String.toList_ofList
  rw [hspelling]
  cases Stmt.wordsAll body with
  | nil => rfl
  | cons w ws => exact hall w ws

/-- The end of a word in a written text: nothing more, or white space. -/
inductive Gap : List Char → Prop
  | nil : Gap []
  | space {c : Char} (hc : isSpace c = true) (rest : List Char) : Gap (c :: rest)

theorem Gap.spaced (ws : List Word) : Gap (spaced ws) := by
  cases ws with
  | nil => exact .nil
  | cons w ws =>
      rw [spaced_cons]
      exact .space rfl _

-- ===================================================== where a word ends

variable {cs rest : List Char}

theorem nameChars_of_nameLength (hne : cs ≠ []) (h : nameLength cs = cs.length) :
    ∃ c tail, cs = c :: tail ∧ isNameStart c = true ∧ ∀ d ∈ tail, isNameChar d = true := by
  obtain ⟨c, tail, rfl⟩ := List.exists_cons_of_ne_nil hne
  by_cases hc : isNameStart c = true
  · rw [nameLength, if_pos hc, List.length_cons, Nat.add_comm, Nat.add_right_cancel_iff] at h
    refine ⟨c, tail, rfl, hc, ?_⟩
    rw [← List.takeWhile_eq_self_iff]
    exact (List.takeWhile_prefix _).eq_of_length h
  · rw [nameLength, if_neg hc] at h
    cases h

theorem takeWhile_eq_nil {p : Char → Bool} (h : rest.head?.any p = false) :
    rest.takeWhile p = [] := by
  cases rest with
  | nil => rfl
  | cons c rest =>
      have hc : p c = false := h
      simp [hc]

theorem nameLength_append (hne : cs ≠ []) (h : nameLength cs = cs.length)
    (hrest : rest.head?.any isNameChar = false) : nameLength (cs ++ rest) = cs.length := by
  obtain ⟨c, tail, rfl, hc, hall⟩ := nameChars_of_nameLength hne h
  rw [List.cons_append, nameLength, if_pos hc, List.takeWhile_append_of_pos hall,
    takeWhile_eq_nil hrest, List.append_nil, List.length_cons, Nat.add_comm]

/-- A number is a row of digits, alone or with a fraction. -/
theorem exists_of_numberLength (hne : cs ≠ []) (h : numberLength cs = cs.length) :
    ∃ digits tail, cs = digits ++ tail ∧ digits ≠ [] ∧ (∀ c ∈ digits, isDigit c = true)
      ∧ (tail = [] ∨ ∃ more, tail = '.' :: more ∧ more ≠ [] ∧ ∀ c ∈ more, isDigit c = true) := by
  have hsplit : cs.takeWhile isDigit ++ cs.dropWhile isDigit = cs := List.takeWhile_append_dropWhile
  have hdigits : ∀ c ∈ cs.takeWhile isDigit, isDigit c = true :=
    List.all_eq_true.mp List.all_takeWhile
  have hsome : cs.takeWhile isDigit ≠ [] := by
    intro hnone
    have hzero : numberLength cs = 0 := by simp [numberLength, hnone]
    exact hne (List.length_eq_zero_iff.mp (h.symm.trans hzero))
  have hhead : (cs.dropWhile isDigit).takeWhile isDigit = [] := by
    cases hdrop : cs.dropWhile isDigit with
    | nil => rfl
    | cons d more =>
        have hd := List.head_dropWhile_not isDigit (l := cs) (by simp [hdrop])
        simp only [hdrop, List.head_cons] at hd
        simp [hd]
  have hfraction : fractionLength (cs.dropWhile isDigit) = (cs.dropWhile isDigit).length := by
    have halone := numberLength_append hsome hdigits hhead
    have hlength := congrArg List.length hsplit
    rw [List.length_append] at hlength
    rw [hsplit, h] at halone
    omega
  refine ⟨_, _, hsplit.symm, hsome, hdigits, ?_⟩
  generalize cs.dropWhile isDigit = tail at hfraction
  unfold fractionLength at hfraction
  split at hfraction
  · rename_i more
    split at hfraction
    · cases hfraction
    · rename_i hmore
      rw [List.length_cons, Nat.add_comm, Nat.add_right_cancel_iff] at hfraction
      have hsame := (List.takeWhile_prefix isDigit).eq_of_length hfraction
      refine .inr ⟨more, rfl, ?_, List.takeWhile_eq_self_iff.mp hsame⟩
      rintro rfl
      exact hmore rfl
  · exact .inl (List.length_eq_zero_iff.mp hfraction.symm)

theorem length_takeWhile_le (cs : List Char) :
    (cs.takeWhile isDigit).length ≤ numberLength cs := by
  unfold numberLength
  dsimp only
  split
  · omega
  · split
    · split <;> omega
    · exact Nat.le_refl _

/-- A number ends where no digit follows, and no point with a digit behind it if it has no point
itself. -/
theorem numberLength_append_iff (hne : cs ≠ []) (h : numberLength cs = cs.length) :
    numberLength (cs ++ rest) = cs.length ↔ rest.head?.any isDigit = false
      ∧ ('.' ∉ cs → fractionLength rest = 0) := by
  have hdot : isDigit '.' = false := by decide
  have hnone : ∀ more : List Char, (∀ c ∈ more, isDigit c = true) → '.' ∉ more := by
    intro more hmore hmem
    have hbad := hmore _ hmem
    rw [hdot] at hbad
    cases hbad
  have htake : ∀ more : List Char, (∀ c ∈ more, isDigit c = true) →
      ((more ++ rest).takeWhile isDigit).length = more.length + (rest.takeWhile isDigit).length := by
    intro more hmore
    rw [List.takeWhile_append_of_pos hmore, List.length_append]
  have hhead : (rest.takeWhile isDigit).length = 0 ↔ rest.head?.any isDigit = false := by
    cases rest with
    | nil => simp
    | cons c rest => cases hc : isDigit c <;> simp [hc]
  rw [← hhead]
  obtain ⟨digits, tail, rfl, hdne, hdigits, rfl | ⟨more, rfl, hmne, hmore⟩⟩ :=
    exists_of_numberLength hne h
  · rw [List.append_nil]
    have hle := length_takeWhile_le (digits ++ rest)
    rw [htake digits hdigits] at hle
    constructor
    · intro hwhole
      have hrest : (rest.takeWhile isDigit).length = 0 := by omega
      rw [numberLength_append hdne hdigits (List.length_eq_zero_iff.mp hrest)] at hwhole
      exact ⟨hrest, fun _ => by omega⟩
    · rintro ⟨hrest, hfraction⟩
      rw [numberLength_append hdne hdigits (List.length_eq_zero_iff.mp hrest),
        hfraction (hnone _ hdigits), Nat.add_zero]
  · have hpos : more.length ≠ 0 := fun he => hmne (List.length_eq_zero_iff.mp he)
    have hpoint : ('.' :: (more ++ rest)).takeWhile isDigit = [] := by simp [hdot]
    have hmem : '.' ∈ digits ++ '.' :: more := by simp
    rw [List.append_assoc, List.cons_append, numberLength_append hdne hdigits hpoint, fractionLength,
      htake more hmore, if_neg (by omega), List.length_append, List.length_cons]
    constructor
    · intro hwhole
      exact ⟨by omega, fun hnot => absurd hmem hnot⟩
    · rintro ⟨hrest, -⟩
      omega

/-- What is spelt like a name stands in front of a text only if it does so before the text goes on
with something else. -/
theorem prefix_append_iff {word : List Char} (hword : ∀ c ∈ word, isNameChar c = true)
    (hrest : rest.head?.any isNameChar = false) : word <+: cs ++ rest ↔ word <+: cs := by
  refine ⟨fun h => ?_, fun h => h.trans (List.prefix_append cs rest)⟩
  induction cs generalizing word with
  | nil =>
      cases word with
      | nil => exact List.nil_prefix
      | cons c word =>
          obtain ⟨tail, he, -⟩ := exists_of_prefix_cons h
          rw [List.nil_append] at he
          rw [he, List.head?_cons, Option.any_some, hword c List.mem_cons_self] at hrest
          cases hrest
  | cons d cs ih =>
      cases word with
      | nil => exact List.nil_prefix
      | cons c word =>
          rw [List.cons_append, List.cons_prefix_cons] at h
          rw [List.cons_prefix_cons]
          exact ⟨h.1, ih (fun c hc => hword c (List.mem_cons_of_mem _ hc)) h.2⟩

theorem isWord_of_isNameChar {c : Char} (h : isNameChar c = true) : isWord c = true := by
  have hlow : c.toNat < 128 := by
    simp only [isNameChar, isAsciiAlnum, Bool.or_eq_true, Bool.and_eq_true, decide_eq_true_eq,
      Char.le_def, UInt32.le_iff_toNat_le, beq_iff_eq] at h
    rcases h with ((h | h) | h) | rfl
    · change 97 ≤ c.toNat ∧ c.toNat ≤ 122 at h
      omega
    · change 65 ≤ c.toNat ∧ c.toNat ≤ 90 at h
      omega
    · change 48 ≤ c.toNat ∧ c.toNat ≤ 57 at h
      omega
    · decide
  rw [isWord, if_pos hlow]
  exact h

theorem isNameChar_of_reserved : ∀ word ∈ reservedWords, word.toList.all isNameChar = true := by
  decide

/-- No reserved word stands in front of a name. -/
theorem startsReserved_append {s : String} (h : (Word.name s).Valid)
    (hrest : rest.head?.any isNameChar = false) : startsReserved (s.toList ++ rest) = false := by
  obtain ⟨hne, hlength, hfree⟩ := h
  unfold startsReserved
  rw [List.any_eq_false]
  intro word hword hstarts
  have hchars := List.all_eq_true.mp (isNameChar_of_reserved word hword)
  rw [Bool.and_eq_true, List.isPrefixOf_iff_prefix, ← String.length_toList,
    prefix_append_iff hchars hrest] at hstarts
  obtain ⟨⟨more, hmore⟩, hends⟩ := hstarts
  -- What is left of the name behind the reserved word would go on as a word does.
  cases more with
  | nil =>
      rw [List.append_nil, String.toList_inj] at hmore
      exact hfree (hmore ▸ hword)
  | cons d more =>
      obtain ⟨c, tail, hshape, -, -⟩ := reservedWords_shape word hword
      obtain ⟨c', tail', hs, -, hall⟩ := nameChars_of_nameLength hne hlength
      have hd : isNameChar d = true := by
        rw [← hmore, hshape, List.cons_append, List.cons.injEq] at hs
        exact hall d (hs.2 ▸ List.mem_append_right _ List.mem_cons_self)
      rw [← hmore, List.append_assoc, List.drop_left, List.cons_append, wordEndsBefore,
        isWord_of_isNameChar hd] at hends
      cases hends

-- ============================================================ valid words

/-- A word ends where a text goes on like this. -/
def Word.EndsBefore (rest : List Char) : Word → Prop
  | .symbol s => rest.head? = some '=' → s ≠ "=" ∧ s ∉ ["!", "<", ">"]
  | .keyword _ => rest.head?.any isKeywordChar = false
  | .name _ => ∀ c ∈ rest.head?, c.toNat < 128 ∧ isNameChar c = false
  | .number s => rest.head?.any isDigit = false ∧ ('.' ∉ s.toList → fractionLength rest = 0)
  | .string _ => True

theorem Word.EndsBefore.bounded {w : Word} (h : w.EndsBefore rest) : w.Bounded rest := by
  cases w with
  | symbol s => exact fun hhead => (h hhead).2
  | name s => exact fun c hc => (h c hc).1
  | _ => trivial

theorem isKeywordChar_of_isSpace {c : Char} (h : isSpace c = true) : isKeywordChar c = false := by
  simp only [isSpace, Bool.or_eq_true, beq_iff_eq] at h
  rcases h with ((rfl | rfl) | rfl) | rfl <;> decide

/-- Every word ends before a gap. -/
theorem Gap.endsBefore (w : Word) (hgap : Gap rest) : w.EndsBefore rest := by
  cases hgap with
  | nil =>
      cases w with
      | symbol s => exact nofun
      | keyword s => rfl
      | name s => exact nofun
      | number s => exact ⟨rfl, fun _ => rfl⟩
      | string s => trivial
  | @space c hc rest =>
      have hkeyword := isKeywordChar_of_isSpace hc
      simp only [isSpace, Bool.or_eq_true, beq_iff_eq] at hc
      cases w with
      | symbol s =>
          intro hhead
          obtain rfl := Option.some.inj hhead
          exact absurd hc (by decide)
      | keyword s => exact hkeyword
      | name s =>
          rintro c ⟨⟩
          rcases hc with ((rfl | rfl) | rfl) | rfl <;> decide
      | number s =>
          rcases hc with ((rfl | rfl) | rfl) | rfl <;> exact ⟨rfl, fun _ => rfl⟩
      | string s => trivial

theorem any_isNameChar_eq_false (h : ∀ c ∈ rest.head?, c.toNat < 128 ∧ isNameChar c = false) :
    rest.head?.any isNameChar = false := by
  cases rest with
  | nil => rfl
  | cons c rest => exact (h c rfl).2

/-- A valid word is read as the word it is where it ends. -/
theorem Word.Valid.stands {w : Word} (h : w.Valid) (hends : w.EndsBefore rest) :
    w.Stands (w.spelling ++ rest) := by
  cases w with
  | symbol s =>
      refine ⟨h, List.prefix_append _ _, ?_⟩
      rintro rfl hsecond
      have hhead : rest.head? = some '=' := by
        rw [List.head?_eq_getElem?]
        exact hsecond
      exact (hends hhead).1 rfl
  | keyword s =>
      refine ⟨h, List.prefix_append _ _, ?_⟩
      rw [Word.spelling, List.drop_left]
      exact hends
  | name s =>
      have hrest := any_isNameChar_eq_false hends
      have hlength := nameLength_append h.1 h.2.1 hrest
      refine ⟨?_, ?_, startsReserved_append h hrest⟩
      · rw [Word.spelling, hlength, List.take_left]
      · rw [Word.spelling, hlength]
        exact fun he => h.1 (List.length_eq_zero_iff.mp he)
  | number s =>
      have hlength := (numberLength_append_iff h.1 h.2).mpr hends
      refine ⟨?_, ?_⟩
      · rw [Word.spelling, hlength, List.take_left]
      · rw [Word.spelling, hlength]
        exact fun he => h.1 (List.length_eq_zero_iff.mp he)
  | string s => exact ⟨h, List.prefix_append _ _⟩

-- =============================================================== no trivia

theorem isBlank_of_isSpace {c : Char} (h : isSpace c = true) : isBlank c = true := by
  simp only [isSpace, Bool.or_eq_true, beq_iff_eq] at h
  rcases h with ((rfl | rfl) | rfl) | rfl <;> decide

theorem isBlank_eq_false {c : Char}
    (h : 0x20 < c.toNat ∧ c.toNat < 0x85 ∨ 0xA0 < c.toNat ∧ c.toNat < 0x1680
      ∨ 0x1680 < c.toNat ∧ c.toNat < 0x2000 ∨ 0x3000 < c.toNat) : isBlank c = false := by
  simp only [isBlank, Bool.or_eq_false_iff, Bool.and_eq_false_iff, decide_eq_false_iff_not,
    beq_eq_false_iff_ne]
  omega

theorem isBlank_of_isNameStart {c : Char} (h : isNameStart c = true) : isBlank c = false := by
  refine isBlank_eq_false (.inl ?_)
  simp only [isNameStart, Bool.or_eq_true, Bool.and_eq_true, decide_eq_true_eq, Char.le_def,
    UInt32.le_iff_toNat_le, beq_iff_eq] at h
  rcases h with (h | h) | rfl
  · change 97 ≤ c.toNat ∧ c.toNat ≤ 122 at h
    omega
  · change 65 ≤ c.toNat ∧ c.toNat ≤ 90 at h
    omega
  · decide

/-- No script has its digits among the blanks. -/
theorem digitZeros_apart : ∀ low ∈ digitZeros, 0x20 < low ∧ low + 10 ≤ 0x85
    ∨ 0xA0 < low ∧ low + 10 ≤ 0x1680 ∨ 0x1680 < low ∧ low + 10 ≤ 0x2000 ∨ 0x3000 < low := by
  decide

theorem isBlank_of_isDigit {c : Char} (h : isDigit c = true) : isBlank c = false := by
  refine isBlank_eq_false ?_
  unfold isDigit digitValue? at h
  dsimp only at h
  split at h
  · split at h
    · rename_i hdigit
      rw [Bool.and_eq_true, decide_eq_true_eq, decide_eq_true_eq] at hdigit
      omega
    · cases h
  · rw [Option.isSome_map, List.find?_isSome] at h
    obtain ⟨low, hlow, hrange⟩ := h
    rw [Bool.and_eq_true, decide_eq_true_eq, decide_eq_true_eq] at hrange
    have hapart := digitZeros_apart low hlow
    omega

theorem symbols_open : ∀ s ∈ symbols,
    s.toList.head?.any isBlank = false ∧ (s.toList.head? = some '/' → s = "/") := by
  decide

/-- The first character of a word is no blank, and no comment starts with it. -/
theorem Word.Valid.opens {w : Word} (h : w.Valid) :
    ∃ c tail, w.spelling = c :: tail ∧ isBlank c = false ∧ (c = '/' → tail = []) := by
  have hname : ∀ c, isNameStart c = true → c ≠ '/' := by
    rintro c hc rfl
    exact absurd hc (by decide)
  have hdigit : ∀ c, isDigit c = true → c ≠ '/' := by
    rintro c hc rfl
    exact absurd hc (by decide)
  have hstands := h.stands (Gap.nil.endsBefore w)
  cases w with
  | symbol s =>
      obtain ⟨c, hshape | hshape, -⟩ := symbols_shape s h
      all_goals
        obtain ⟨hblank, hslash⟩ := symbols_open s h
        rw [hshape, List.head?_cons, Option.any_some] at hblank
      · exact ⟨c, [], hshape, hblank, fun _ => rfl⟩
      · refine ⟨c, ['='], hshape, hblank, fun hc => ?_⟩
        have hsingle : s.toList = ['/'] := by
          rw [hslash (by rw [hshape, hc, List.head?_cons])]
          rfl
        rw [hsingle] at hshape
        cases hshape
  | keyword s =>
      obtain ⟨c, tail, hshape, hc, -⟩ := reservedWords_shape s h
      exact ⟨c, tail, hshape, isBlank_of_isNameStart hc, fun he => absurd he (hname c hc)⟩
  | name s =>
      obtain ⟨c, tail, hshape, hc, -⟩ := nameChars_of_nameLength h.1 h.2.1
      exact ⟨c, tail, hshape, isBlank_of_isNameStart hc, fun he => absurd he (hname c hc)⟩
  | number s =>
      obtain ⟨c, tail, hshape⟩ := List.exists_cons_of_ne_nil h.1
      rw [Word.spelling, hshape] at hstands
      have hc := hstands.number_head
      exact ⟨c, tail, hshape, isBlank_of_isDigit hc, fun he => absurd he (hdigit c hc)⟩
  | string s => exact ⟨'"', _, rfl, by decide, fun h => absurd h (by decide)⟩

/-- Where no trivia is, there is no gap, unless it begins with a blank that is no trivia. -/
theorem gapLength_eq_zero (hnone : triviaLength false cs = 0)
    (hsolid : ∀ c ∈ cs.head?, isBlank c = false) : gapLength false cs = 0 := by
  cases cs with
  | nil => rfl
  | cons c rest =>
      have hblank := hsolid c rfl
      cases rest with
      | nil => simp [gapLength, hblank]
      | cons d rest =>
          have hcomment : (c == '/' && d == '/') = false := by
            cases hslash : c == '/' && d == '/' with
            | false => rfl
            | true =>
                rw [triviaLength, if_neg Bool.false_ne_true, if_pos hslash] at hnone
                cases hnone
          simp [gapLength, hblank, hcomment]

/-- Recovery passes a comment up to its newline, whatever stands in front of that. -/
theorem gapLength_line {c : List Char} (hline : '\n' ∉ c) (rest : List Char) :
    gapLength true (c ++ '\n' :: rest) = c.length + 1 + gapLength false rest := by
  induction c with
  | nil =>
      cases rest with
      | nil => rfl
      | cons d rest => simp [gapLength, Nat.add_comm]
  | cons x c ih =>
      rw [List.mem_cons, not_or] at hline
      have hstay : decide (x ≠ '\n') = true := decide_eq_true (Ne.symm hline.1)
      have hrest := ih hline.2
      cases hshape : c ++ '\n' :: rest with
      | nil => simp at hshape
      | cons y more =>
          rw [hshape] at hrest
          rw [List.cons_append, hshape, gapLength, if_pos rfl, hstay, hrest, List.length_cons]
          omega

section Trivia

variable {ws : List Word} (h : ∀ w ∈ ws, w.Valid)
include h

/-- A written text starts with neither a blank nor a comment. -/
theorem written_opens : written ws = [] ∨ ∃ c rest, written ws = c :: rest ∧ isBlank c = false
    ∧ (c = '/' → rest.head? ≠ some '/') := by
  cases ws with
  | nil => exact .inl rfl
  | cons w ws =>
      obtain ⟨c, tail, hshape, hblank, hslash⟩ := (h w List.mem_cons_self).opens
      refine .inr ⟨c, tail ++ spaced ws, by rw [written, hshape]; rfl, hblank, fun hc => ?_⟩
      rw [hslash hc, List.nil_append]
      have hgap := Gap.spaced ws
      generalize spaced ws = rest at hgap
      cases hgap with
      | nil => exact nofun
      | space hspace =>
          rintro ⟨⟩
          exact absurd hspace (by decide)

theorem triviaLength_written : triviaLength false (written ws) = 0 := by
  rcases written_opens h with hnil | ⟨c, rest, hshape, hblank, hslash⟩
  · rw [hnil]
    rfl
  · have hspace : isSpace c = false := by
      cases hc : isSpace c with
      | false => rfl
      | true => rw [isBlank_of_isSpace hc] at hblank; cases hblank
    rw [hshape]
    cases rest with
    | nil => simp [triviaLength, hspace]
    | cons d rest =>
        have hcomment : (c == '/' && d == '/') = false := by simpa using hslash
        simp [triviaLength, hspace, hcomment]

theorem trimmed_written : trimmed (written ws) = written ws := by
  rw [trimmed, triviaLength_written h, List.drop_zero]

theorem triviaLength_spaced : triviaLength false (spaced ws) = if ws = [] then 0 else 1 := by
  cases ws with
  | nil => rfl
  | cons w ws =>
      have hzero := triviaLength_written h
      rw [spaced_cons, if_neg (List.cons_ne_nil _ _)]
      cases hshape : written (w :: ws) with
      | nil => rfl
      | cons c rest =>
          rw [hshape] at hzero
          simp [triviaLength, isSpace, hzero]

theorem trimmed_spaced : trimmed (spaced ws) = written ws := by
  rw [trimmed, triviaLength_spaced h]
  cases ws with
  | nil => rfl
  | cons w ws =>
      rw [if_neg (List.cons_ne_nil _ _), spaced_cons, List.drop_succ_cons, List.drop_zero]

/-- Words that were written lie ahead. -/
theorem ahead_of_written {c : Cursor} (hrest : trimmed c.rest = written ws)
    (hclear : ws ≠ [] → c.skipTrivia.previous.any isKeywordChar = false) : c.Ahead ws := by
  induction ws generalizing c with
  | nil => exact .nil hrest
  | cons w ws ih =>
      have hw := h w List.mem_cons_self
      have hvalid : ∀ v ∈ ws, v.Valid := fun v hv => h v (List.mem_cons_of_mem _ hv)
      have hbehind : (trimmed c.rest).drop w.spelling.length = spaced ws := by
        rw [hrest, written, List.drop_left]
      refine .cons ?_ ?_ ?_ (ih hvalid ?_ fun hne => ?_)
      · rw [hrest]
        exact hw.stands ((Gap.spaced ws).endsBefore w)
      · rw [hbehind]
        exact ((Gap.spaced ws).endsBefore w).bounded
      · have hclear := hclear (List.cons_ne_nil _ _)
        cases w <;> first | exact hclear | trivial
      · rw [Cursor.rest_advance, Cursor.rest_skipTrivia, hbehind, trimmed_spaced hvalid]
      · obtain ⟨v, vs, rfl⟩ := List.exists_cons_of_ne_nil hne
        have hspaced : (c.skipTrivia.advance w.spelling.length).rest = ' ' :: written (v :: vs) := by
          rw [Cursor.rest_advance, Cursor.rest_skipTrivia, hbehind, spaced_cons]
        rw [Cursor.skipTrivia, hspaced, ← spaced_cons, triviaLength_spaced hvalid, if_neg hne,
          Cursor.advance_succ, Cursor.advance_zero, Cursor.previous_next hspaced]
        decide

theorem ahead_written : (Cursor.start (written ws)).Ahead ws := by
  refine ahead_of_written h (trimmed_written h) fun _ => ?_
  rw [Cursor.skipTrivia, Cursor.start, triviaLength_written h]
  rfl

/-- The words of a written text are the words that were written. -/
theorem words_written : words (written ws) = ws := (ahead_written h).words_eq

end Trivia

end Lox
