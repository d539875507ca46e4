/-
The words of a text. Once white space and comments are gone a text is a list of
words, and which ones they are can be told without the grammar: at every place
the longest word counts (`words`).

The readers of the grammar look for the word they want and are content with it
(`Word.Stands`). The two agree on every text that the grammar accepts, because
no two words follow one another there that could be taken for longer ones
(`Word.Apart`).
-/
import Lox.Source.Trivia
import Lox.Text.Lexeme
import Mathlib.Data.List.Chain

namespace Lox

open Text Text.Lexeme

inductive Word where
  /-- Punctuation and operators. -/
  | symbol (spelling : String)
  | keyword (spelling : String)
  | name (spelling : String)
  | number (spelling : String)
  | string (content : String)
deriving DecidableEq

/-- How a word is written. -/
def Word.spelling : Word → List Char
  | .symbol s | .keyword s | .name s | .number s => s.toList
  | .string s => '"' :: s.toList ++ ['"']

-- ============================================================== the words

/-- The word that is spelt like a name. -/
def Word.named (s : String) : Word := if s ∈ reservedWords then .keyword s else .name s

theorem Word.spelling_named (s : String) : (Word.named s).spelling = s.toList := by
  unfold named
  split <;> rfl

/-- The word at the start of a text that starts with no trivia. -/
def Word.first (cs : List Char) : Word :=
  if cs.head? = some '"' then .string (String.ofList ((cs.drop 1).takeWhile (· ≠ '"')))
  else if numberLength cs ≠ 0 then .number (String.ofList (cs.take (numberLength cs)))
  else if nameLength cs ≠ 0 then .named (String.ofList (cs.take (nameLength cs)))
  else .symbol (String.ofList (cs.take (max 1 (comparisonLength cs))))

/-- A text from its first word on. -/
def trimmed (cs : List Char) : List Char := cs.drop (triviaLength false cs)

theorem length_trimmed (cs : List Char) : (trimmed cs).length ≤ cs.length := by
  simp [trimmed]

theorem Word.spelling_first_pos {cs : List Char} (h : cs ≠ []) :
    0 < (Word.first cs).spelling.length := by
  have hpos : 0 < cs.length := List.length_pos_iff.mpr h
  unfold Word.first
  split
  · simp [spelling]
  split
  · simp [spelling]
    omega
  split
  · simp [spelling_named]
    omega
  · simp [spelling]
    omega

/-- The words of a text. -/
def words (cs : List Char) : List Word :=
  if _h : trimmed cs = [] then []
  else
    let w := Word.first (trimmed cs)
    w :: words ((trimmed cs).drop w.spelling.length)
termination_by cs.length
decreasing_by
  have hle := length_trimmed cs
  have hpos := Word.spelling_first_pos _h
  have hne : 0 < (trimmed cs).length := List.length_pos_iff.mpr _h
  simp only [List.length_drop]
  omega

theorem words_of_trimmed_nil {cs : List Char} (h : trimmed cs = []) : words cs = [] := by
  rw [words, dif_pos h]

theorem words_of_trimmed_ne {cs : List Char} (h : trimmed cs ≠ []) :
    words cs = Word.first (trimmed cs)
      :: words ((trimmed cs).drop (Word.first (trimmed cs)).spelling.length) := by
  rw [words, dif_neg h]

-- ================================================================= trivia

/-- A character that no trivia starts with. -/
def Solid (c : Char) : Prop := isSpace c = false ∧ c ≠ '/'

theorem trimmed_cons_of_solid {c : Char} (h : Solid c) (cs : List Char) :
    trimmed (c :: cs) = c :: cs := by
  obtain ⟨hspace, hslash⟩ := h
  have hzero : triviaLength false (c :: cs) = 0 := by
    cases cs with
    | nil => simp [triviaLength, hspace]
    | cons d cs => simp [triviaLength, hspace, hslash]
  simp [trimmed, hzero]

/-- No trivia is left behind trivia. -/
theorem triviaLength_drop (inComment : Bool) (cs : List Char) :
    triviaLength false (cs.drop (triviaLength inComment cs)) = 0 := by
  fun_induction triviaLength inComment cs <;> simp_all [triviaLength]

theorem trimmed_trimmed (cs : List Char) : trimmed (trimmed cs) = trimmed cs := by
  have h := triviaLength_drop false cs
  simp only [trimmed] at h ⊢
  rw [h, List.drop_zero]

-- ======================================================= words in a text

/-- The punctuation of the grammar. -/
def symbols : List String :=
  ["(", ")", "\x7b", "\x7d", ",", ";", ".", "=", "==", "!=", "!", "-", "+", "*", "/", ">", ">=", "<",
   "<="]

/-- A word stands at the start of a text, for a reader that looks for it. -/
def Word.Stands (cs : List Char) : Word → Prop
  | .symbol s => s ∈ symbols ∧ s.toList <+: cs ∧ (s = "=" → cs[1]? ≠ some '=')
  | .keyword s =>
    s ∈ reservedWords ∧ s.toList <+: cs
      ∧ (cs.drop s.toList.length).head?.any isKeywordChar = false
  | .name s => s.toList = cs.take (nameLength cs) ∧ nameLength cs ≠ 0 ∧ startsReserved cs = false
  | .number s => s.toList = cs.take (numberLength cs) ∧ numberLength cs ≠ 0
  | .string s => '"' ∉ s.toList ∧ (Word.string s).spelling <+: cs

/-- Two words that are still two when nothing stands between them. -/
def Word.Apart : Word → Word → Prop
  | .name _, .number _ => False
  | .symbol s, .symbol t => s ∈ ["!", "<", ">"] → t ≠ "=" ∧ t ≠ "=="
  | _, _ => True

/-- A text begins with some words and goes on with another text. -/
inductive Spans : List Char → List Word → List Char → Prop
  | nil {cs : List Char} : Spans cs [] cs
  | cons {cs rest : List Char} {w : Word} {ws : List Word} (stands : w.Stands (trimmed cs))
      (further : Spans ((trimmed cs).drop w.spelling.length) ws rest) : Spans cs (w :: ws) rest

-- --------------------------------------------------- the character in front

theorem isDigit_of_isNameStart {c : Char} (h : isNameStart c = true) : isDigit c = false := by
  simp only [isNameStart, Bool.or_eq_true, Bool.and_eq_true, decide_eq_true_eq, Char.le_def,
    UInt32.le_iff_toNat_le, beq_iff_eq] at h
  have hlow : c.toNat < 0x660 ∧ ¬ (0x30 ≤ c.toNat ∧ c.toNat ≤ 0x39) := by
    rcases h with (h | h) | rfl
    · change 97 ≤ c.toNat ∧ c.toNat ≤ 122 at h
      omega
    · change 65 ≤ c.toNat ∧ c.toNat ≤ 90 at h
      omega
    · decide
  simp [isDigit, digitValue?, hlow.1, hlow.2]

theorem toNat_lt_of_isNameStart {c : Char} (h : isNameStart c = true) : c.toNat < 128 := by
  simp only [isNameStart, Bool.or_eq_true, Bool.and_eq_true, decide_eq_true_eq, Char.le_def,
    UInt32.le_iff_toNat_le, beq_iff_eq] at h
  rcases h with (h | h) | rfl
  · change 97 ≤ c.toNat ∧ c.toNat ≤ 122 at h
    omega
  · change 65 ≤ c.toNat ∧ c.toNat ≤ 90 at h
    omega
  · decide

theorem numberLength_eq_zero {c : Char} (h : isDigit c = false) (cs : List Char) :
    numberLength (c :: cs) = 0 := by
  simp [numberLength, h]

theorem nameLength_eq_zero {c : Char} (h : isNameStart c = false) (cs : List Char) :
    nameLength (c :: cs) = 0 := by
  simp [nameLength, h]

/-- What is known about a symbol from its first character. -/
structure SymbolHead (c : Char) (s : String) : Prop where
  ascii : c.toNat < 128
  noDigit : isDigit c = false
  noName : isNameStart c = false
  noQuote : c ≠ '"'
  equals : c = '=' → s = "=" ∨ s = "=="
  pair : s.toList = [c, '='] → c = '=' ∨ c = '!' ∨ c = '<' ∨ c = '>'
  single : s.toList = [c] → c = '=' ∨ c = '!' ∨ c = '<' ∨ c = '>' → s = "=" ∨ s ∈ ["!", "<", ">"]

theorem symbols_shape : ∀ s ∈ symbols, ∃ c, (s.toList = [c] ∨ s.toList = [c, '=']) ∧ SymbolHead c s := by
  intro s hs
  simp only [symbols, List.mem_cons, List.not_mem_nil, or_false] at hs
  rcases hs with rfl | rfl | rfl | rfl | rfl | rfl | rfl | rfl | rfl | rfl | rfl | rfl | rfl | rfl
    | rfl | rfl | rfl | rfl | rfl
  all_goals
    exact ⟨_, by first | exact .inl rfl | exact .inr rfl, by decide, by decide, by decide, by decide,
      by decide, by decide, by decide⟩

theorem reservedWords_shape : ∀ s ∈ reservedWords, ∃ c tail, s.toList = c :: tail
    ∧ isNameStart c = true ∧ tail.all isNameChar = true := by
  intro s hs
  simp only [reservedWords, List.mem_cons, List.not_mem_nil, or_false] at hs
  rcases hs with rfl | rfl | rfl | rfl | rfl | rfl | rfl | rfl | rfl | rfl | rfl | rfl | rfl | rfl
    | rfl | rfl
  all_goals exact ⟨_, _, rfl, by decide, by decide⟩

theorem exists_of_prefix_cons {α : Type} {c : α} {l cs : List α} (h : c :: l <+: cs) :
    ∃ rest, cs = c :: rest ∧ l <+: rest := by
  obtain ⟨rest, rfl⟩ := h
  exact ⟨l ++ rest, rfl, List.prefix_append l rest⟩

theorem drop_takeWhile {α : Type} (p : α → Bool) (l : List α) :
    l.drop (l.takeWhile p).length = l.dropWhile p := by
  induction l with
  | nil => rfl
  | cons a l ih => by_cases ha : p a <;> simp [ha, ih]

-- ------------------------------------------------------------ the first word

variable {cs rest : List Char} {w next : Word}

namespace Word

theorem first_string {s : String} (h : (Word.string s).Stands cs) : first cs = .string s := by
  obtain ⟨hquote, rest, rfl⟩ := h
  have htake : (s.toList ++ ['"'] ++ rest).takeWhile (· ≠ '"') = s.toList := by
    rw [List.append_assoc, List.takeWhile_append_of_pos]
    · simp
    · intro c hc
      have hne : c ≠ '"' := fun he => hquote (he ▸ hc)
      simpa using hne
  unfold first
  rw [if_pos (by simp [spelling])]
  show Word.string (String.ofList ((s.toList ++ ['"'] ++ rest).takeWhile (· ≠ '"'))) = _
  rw [htake, String.ofList_toList]

theorem first_number {s : String} (h : (Word.number s).Stands cs) : first cs = .number s := by
  obtain ⟨hs, hlength⟩ := h
  have hquote : cs.head? ≠ some '"' := by
    intro hhead
    obtain ⟨c, cs⟩ := cs
    · cases hhead
    · cases hhead
      exact hlength (numberLength_eq_zero (by decide) _)
  simp [first, hquote, hlength, ← hs]

/-- Words that are spelt like names. -/
theorem first_named {c : Char} (hc : isNameStart c = true) :
    first (c :: rest) = .named (String.ofList ((c :: rest).take (nameLength (c :: rest)))) := by
  have hquote : c ≠ '"' := by
    intro he
    rw [he] at hc
    exact absurd hc (by decide)
  have hlength : nameLength (c :: rest) ≠ 0 := by
    simp only [nameLength, hc, if_true]
    omega
  simp [first, hquote, numberLength_eq_zero (isDigit_of_isNameStart hc), hlength]

theorem first_keyword {s : String} (h : (Word.keyword s).Stands cs) : first cs = .keyword s := by
  obtain ⟨hreserved, ⟨rest, rfl⟩, hnext⟩ := h
  obtain ⟨c, tail, hs, hc, htail⟩ := reservedWords_shape s hreserved
  have hrest : rest.takeWhile isNameChar = [] := by
    rw [List.drop_left] at hnext
    cases rest with
    | nil => rfl
    | cons d rest =>
        have hd : isNameChar d = false := by
          simp only [List.head?_cons, Option.any_some, isKeywordChar, Bool.or_eq_false_iff] at hnext
          exact hnext.1
        simp [hd]
  have hlength : nameLength (s.toList ++ rest) = s.toList.length := by
    rw [hs, List.cons_append, nameLength, if_pos hc, List.takeWhile_append_of_pos
      (fun d hd => List.all_eq_true.mp htail d hd), hrest]
    simp
    omega
  have hfirst : first (c :: (tail ++ rest)) = _ := first_named hc
  rw [← List.cons_append, ← hs, hlength, List.take_left, String.ofList_toList] at hfirst
  rw [hfirst, named, if_pos hreserved]

/-- How a symbol in front of a text begins. -/
theorem Stands.symbol_head {c : Char} {s : String} (h : (Word.symbol s).Stands (c :: rest)) :
    (s.toList = [c] ∨ s.toList = [c, '=']) ∧ SymbolHead c s := by
  obtain ⟨hs, hprefix, -⟩ := h
  obtain ⟨d, hshape, hd⟩ := symbols_shape s hs
  have hcd : c = d := by
    rcases hshape with hshape | hshape <;> rw [hshape] at hprefix
    all_goals
      obtain ⟨_, he, -⟩ := exists_of_prefix_cons hprefix
      exact (List.cons.inj he).1
  rw [hcd]
  exact ⟨hshape, hd⟩

theorem Stands.keyword_head {c : Char} {s : String} (h : (Word.keyword s).Stands (c :: rest)) :
    isNameStart c = true := by
  obtain ⟨hs, hprefix, -⟩ := h
  obtain ⟨d, tail, hshape, hd, -⟩ := reservedWords_shape s hs
  rw [hshape] at hprefix
  obtain ⟨_, he, -⟩ := exists_of_prefix_cons hprefix
  rw [(List.cons.inj he).1]
  exact hd

theorem Stands.name_head {c : Char} {s : String} (h : (Word.name s).Stands (c :: rest)) :
    isNameStart c = true := by
  cases hstart : isNameStart c with
  | true => rfl
  | false => exact absurd (nameLength_eq_zero hstart _) h.2.1

theorem Stands.number_head {c : Char} {s : String} (h : (Word.number s).Stands (c :: rest)) :
    isDigit c = true := by
  cases hdigit : isDigit c with
  | true => rfl
  | false => exact absurd (numberLength_eq_zero hdigit _) h.2

theorem Stands.string_head {c : Char} {s : String} (h : (Word.string s).Stands (c :: rest)) :
    c = '"' := by
  obtain ⟨_, he, -⟩ := exists_of_prefix_cons h.2
  exact (List.cons.inj he).1

/-- Only numbers are written with characters beyond ASCII in front. -/
theorem Stands.eq_number {c : Char} (h : next.Stands (c :: rest)) (hc : 128 ≤ c.toNat) :
    ∃ s, next = .number s := by
  cases next with
  | number s => exact ⟨s, rfl⟩
  | symbol s =>
      have hlow := h.symbol_head.2.ascii
      omega
  | keyword s =>
      have hlow := toNat_lt_of_isNameStart h.keyword_head
      omega
  | name s =>
      have hlow := toNat_lt_of_isNameStart h.name_head
      omega
  | string s =>
      rw [h.string_head] at hc
      exact absurd hc (by decide)

/-- Only two words begin with an equals sign. -/
theorem Stands.eq_equals (h : next.Stands ('=' :: rest)) :
    next = .symbol "=" ∨ next = .symbol "==" := by
  cases next with
  | symbol s =>
      rcases h.symbol_head.2.equals rfl with rfl | rfl
      · exact .inl rfl
      · exact .inr rfl
  | number s => exact absurd h.number_head (by decide)
  | keyword s => exact absurd h.keyword_head (by decide)
  | name s => exact absurd h.name_head (by decide)
  | string s => exact absurd h.string_head (by decide)

/-- What follows a word does not make it longer. -/
def Followed (w : Word) (rest : List Char) : Prop :=
  trimmed rest = [] ∨ ∃ next : Word, next.Stands (trimmed rest) ∧ w.Apart next

theorem Followed.symbol {s : String} (h : (Word.symbol s).Followed ('=' :: rest)) :
    s ∉ ["!", "<", ">"] := by
  intro hs
  rw [Followed, trimmed_cons_of_solid ⟨by decide, by decide⟩] at h
  rcases h with h | ⟨next, hnext, hapart⟩
  · cases h
  · rcases hnext.eq_equals with rfl | rfl
    · exact (hapart hs).1 rfl
    · exact (hapart hs).2 rfl

theorem Followed.name {s : String} {c : Char} (h : (Word.name s).Followed (c :: rest))
    (hc : 128 ≤ c.toNat) : False := by
  have hsolid : Solid c := by
    refine ⟨?_, ?_⟩
    · cases hspace : isSpace c with
      | false => rfl
      | true =>
          simp only [isSpace, Bool.or_eq_true, beq_iff_eq] at hspace
          rcases hspace with ((rfl | rfl) | rfl) | rfl <;> exact absurd hc (by decide)
    · intro he
      rw [he] at hc
      exact absurd hc (by decide)
  rw [Followed, trimmed_cons_of_solid hsolid] at h
  rcases h with h | ⟨next, hnext, hapart⟩
  · cases h
  · obtain ⟨t, rfl⟩ := hnext.eq_number hc
    exact hapart

/-- The characters behind a word do not make it longer. -/
def Bounded (w : Word) (rest : List Char) : Prop :=
  match w with
  | .symbol s => rest.head? = some '=' → s ∉ ["!", "<", ">"]
  | .name _ => ∀ c ∈ rest.head?, c.toNat < 128
  | _ => True

theorem Followed.bounded (h : w.Followed rest) : w.Bounded rest := by
  cases w with
  | symbol s =>
      intro hhead
      obtain ⟨tail, rfl⟩ := List.head?_eq_some_iff.mp hhead
      exact h.symbol
  | name s =>
      intro c hc
      obtain ⟨tail, rfl⟩ := List.head?_eq_some_iff.mp hc
      by_contra hlow
      exact h.name (Nat.le_of_not_lt hlow)
  | _ => trivial

theorem first_symbol {s : String} (h : (Word.symbol s).Stands cs)
    (hf : (Word.symbol s).Bounded (cs.drop s.toList.length)) : first cs = .symbol s := by
  obtain ⟨c, cs, rfl⟩ : ∃ c tail, cs = c :: tail := by
    obtain ⟨hs, ⟨tail, rfl⟩, -⟩ := h
    obtain ⟨c, hshape | hshape, -⟩ := symbols_shape s hs
    all_goals exact ⟨c, _, by rw [hshape]; rfl⟩
  obtain ⟨hshape, hc⟩ := h.symbol_head
  have hplain : first (c :: cs)
      = .symbol (String.ofList ((c :: cs).take (max 1 (comparisonLength (c :: cs))))) := by
    simp [first, hc.noQuote, numberLength_eq_zero hc.noDigit, nameLength_eq_zero hc.noName]
  have hprefix := h.2.1
  have hshown : (c :: cs).take (max 1 (comparisonLength (c :: cs))) = s.toList := by
    rcases hshape with hshape | hshape <;> rw [hshape] at hprefix ⊢
    · cases cs with
      | nil => rfl
      | cons d cs =>
          by_cases hd : d = '='
          · rw [hd] at h hf ⊢
            by_cases hpair : c = '=' ∨ c = '!' ∨ c = '<' ∨ c = '>'
            · rw [hshape] at hf
              rcases hc.single hshape hpair with rfl | hs
              · exact absurd rfl (h.2.2 rfl)
              · exact absurd hs (hf rfl)
            · have hnone : comparisonLength (c :: '=' :: cs) = 0 := by
                simp only [not_or] at hpair
                simp [comparisonLength, hpair]
              simp [hnone]
          · have hnone : comparisonLength (c :: d :: cs) = 0 := by
              unfold comparisonLength
              split
              · rename_i heq
                exact absurd (List.cons.inj (List.cons.inj heq).2).1 hd
              · rfl
            simp [hnone]
    · obtain ⟨_, he, hrest⟩ := exists_of_prefix_cons hprefix
      obtain ⟨-, rfl⟩ := List.cons.inj he
      obtain ⟨tail, rfl, -⟩ := exists_of_prefix_cons hrest
      have htwo : comparisonLength (c :: '=' :: tail) = 2 := by
        rcases hc.pair hshape with rfl | rfl | rfl | rfl <;> rfl
      simp [htwo]
  rw [hplain, hshown, String.ofList_toList]

theorem first_name {s : String} (h : (Word.name s).Stands cs)
    (hf : (Word.name s).Bounded (cs.drop s.toList.length)) : first cs = .name s := by
  obtain ⟨hs, hlength, hfree⟩ := h
  obtain ⟨c, tail, rfl⟩ : ∃ c tail, cs = c :: tail := by
    cases cs with
    | nil => exact absurd rfl hlength
    | cons c tail => exact ⟨c, tail, rfl⟩
  have hstart : isNameStart c = true := Stands.name_head ⟨hs, hlength, hfree⟩
  have hreserved : s ∉ reservedWords := by
    intro hmem
    have hprefix : s.toList <+: c :: tail := by
      rw [hs]
      exact List.take_prefix _ _
    have hends : wordEndsBefore ((c :: tail).drop s.toList.length) = false := by
      have hany := List.any_eq_false.mp hfree s hmem
      rw [List.isPrefixOf_iff_prefix.mpr hprefix, Bool.true_and, Bool.not_eq_true,
        ← String.length_toList] at hany
      exact hany
    -- The name is as long as can be, so the character behind it is one of a word beyond ASCII.
    cases hbehind : (c :: tail).drop s.toList.length with
    | nil =>
        rw [hbehind] at hends
        exact absurd hends (by decide)
    | cons d rest =>
        rw [hbehind] at hends hf
        have hword : isWord d = true := by simpa [wordEndsBefore] using hends
        have hnot : isNameChar d = false := by
          have hlen : s.toList.length = 1 + (tail.takeWhile isNameChar).length := by
            rw [hs, nameLength, if_pos hstart, List.length_take, Nat.min_eq_left]
            have hle := (List.takeWhile_prefix (l := tail) isNameChar).length_le
            simp only [List.length_cons]
            omega
          rw [hlen, Nat.add_comm, List.drop_succ_cons, drop_takeWhile] at hbehind
          have hhead := List.head_dropWhile_not isNameChar (l := tail) (by simp [hbehind])
          simpa [hbehind] using hhead
        rw [isWord, if_pos (hf d rfl)] at hword
        rw [isNameChar, hword] at hnot
        cases hnot
  have hfirst : first (c :: tail) = _ := first_named hstart
  rw [hfirst, ← hs, String.ofList_toList, named, if_neg hreserved]

/-- The longest word at the start of a text is the one that a reader found there. -/
theorem first_eq (h : w.Stands cs) (hf : w.Bounded (cs.drop w.spelling.length)) :
    first cs = w := by
  cases w with
  | symbol s => exact first_symbol h hf
  | keyword s => exact first_keyword h
  | name s => exact first_name h hf
  | number s => exact first_number h
  | string s => exact first_string h

end Word

-- ============================================================== whole texts

/-- A word takes a character at least. -/
theorem Word.Stands.length_pos (h : w.Stands cs) : 0 < w.spelling.length ∧ 0 < cs.length := by
  cases w with
  | symbol s =>
      obtain ⟨hs, ⟨tail, rfl⟩, -⟩ := h
      obtain ⟨c, hshape | hshape, -⟩ := symbols_shape s hs <;> simp [spelling, hshape]
  | keyword s =>
      obtain ⟨hs, ⟨tail, rfl⟩, -⟩ := h
      obtain ⟨c, more, hshape, -⟩ := reservedWords_shape s hs
      simp [spelling, hshape]
  | name s =>
      obtain ⟨hs, hlength, -⟩ := h
      cases cs with
      | nil => exact absurd rfl hlength
      | cons c tail =>
          rw [spelling, hs, List.length_take, List.length_cons]
          omega
  | number s =>
      obtain ⟨hs, hlength⟩ := h
      cases cs with
      | nil => exact absurd rfl hlength
      | cons c tail =>
          rw [spelling, hs, List.length_take, List.length_cons]
          omega
  | string s =>
      obtain ⟨-, tail, rfl⟩ := h
      simp [spelling]

/-- Words that stand apart do not make one another longer. -/
theorem Spans.followed {ws : List Word} (h : Spans cs ws rest) (hend : trimmed rest = [])
    (happart : (w :: ws).IsChain Word.Apart) : w.Followed cs := by
  cases h with
  | nil => exact .inl hend
  | cons hnext _ => exact .inr ⟨_, hnext, (List.isChain_cons_cons.mp happart).1⟩

/-- The words that the readers of the grammar found are the words of the text, if they are words
even when nothing stands between them. -/
theorem Spans.words_eq {ws : List Word} (h : Spans cs ws rest) (hend : trimmed rest = [])
    (happart : ws.IsChain Word.Apart) : words cs = ws := by
  induction h with
  | nil => exact words_of_trimmed_nil hend
  | cons stands further ih =>
      have hne := List.length_pos_iff.mp stands.length_pos.2
      have hfollowed := further.followed hend happart
      rw [words_of_trimmed_ne hne, Word.first_eq stands hfollowed.bounded, ih hend happart.tail]

end Lox
