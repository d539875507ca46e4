/-
The readers of single words at work on the words of a text. Each of them takes
the word it looks for, and leaves any other: the words alone decide, for no word
can be taken for a longer one, or for a part of it.
-/
import Lox.Proofs.Rendering.Facing
import Lox.Proofs.Rendering.Written
import Mathlib.Data.List.Find

namespace Lox

open Text Text.Lexeme Word

-- ========================================================== the word in front

/-- Words that begin like a symbol are symbols. -/
theorem Word.Valid.symbolic {w : Word} (h : w.Valid) {c : Char} {s : String}
    (hw : w.spelling.head? = some c) (hs : s ∈ symbols) (hc : s.toList.head? = some c) :
    ∃ t ∈ symbols, w = .symbol t := by
  have hstands := h.stands (Gap.nil.endsBefore w)
  obtain ⟨tail, hshape⟩ := List.head?_eq_some_iff.mp hw
  obtain ⟨d, hd, hhead⟩ := symbols_shape s hs
  obtain rfl : d = c := by
    rcases hd with hd | hd <;> rw [hd] at hc <;> exact Option.some.inj hc
  rw [List.append_nil, hshape] at hstands
  cases w with
  | symbol t => exact ⟨t, h, rfl⟩
  | keyword t =>
      have hnot := hhead.noName
      rw [hstands.keyword_head] at hnot
      cases hnot
  | name t =>
      have hnot := hhead.noName
      rw [hstands.name_head] at hnot
      cases hnot
  | number t =>
      have hnot := hhead.noDigit
      rw [hstands.number_head] at hnot
      cases hnot
  | string t => exact absurd hstands.string_head hhead.noQuote

/-- A row of characters of names in front is the beginning of a name. -/
theorem nameLength_of_prefix {word cs : List Char} {c : Char} {tail : List Char}
    (hshape : word = c :: tail) (hc : isNameStart c = true) (htail : tail.all isNameChar = true)
    (h : word <+: cs) :
    nameLength cs = word.length + ((cs.drop word.length).takeWhile isNameChar).length := by
  obtain ⟨rest, rfl⟩ := h
  rw [List.drop_left, hshape, List.cons_append, nameLength, if_pos hc,
    List.takeWhile_append_of_pos (List.all_eq_true.mp htail), List.length_append, List.length_cons]
  omega

namespace Cursor.InFront

variable {cursor : Cursor} {ws more : List Word} {w : Word} {c : Char}

/-- A text begins as the word in front does. -/
theorem head? (h : cursor.InFront (w :: more)) : cursor.rest.head? = w.spelling.head? := by
  obtain ⟨rest, hrest⟩ := h.exists_rest
  obtain ⟨d, tail, hshape, -, -⟩ := (h.valid w List.mem_cons_self).opens
  rw [hrest, hshape, List.cons_append, List.head?_cons, List.head?_cons]

theorem head_ne (h : cursor.InFront ws) (hne : ∀ w ∈ ws.head?, w.spelling.head? ≠ some c) :
    cursor.rest.head? ≠ some c := by
  cases ws with
  | nil =>
      rw [h.rest_nil]
      exact nofun
  | cons w ws =>
      rw [h.head?]
      exact hne w rfl

/-- A word that is spelt like a name is the longest there is. -/
theorem eq_named (h : cursor.InFront (w :: more)) {tail : List Char}
    (hrest : cursor.rest = c :: tail) (hc : isNameStart c = true) :
    w = .named (String.ofList (cursor.rest.take (nameLength cursor.rest))) := by
  have hfirst := h.first
  rw [hrest, first_named hc] at hfirst
  rw [hrest, hfirst]

/-- A symbol in front of the text is one in front of its first word. -/
theorem prefix_spelling (h : cursor.InFront (w :: more)) {s : String} (hs : s ∈ symbols)
    (hstarts : s.toList <+: cursor.rest) :
    ∃ t ∈ symbols, w = .symbol t ∧ s.toList <+: t.toList := by
  obtain ⟨c, hshape, hhead⟩ := symbols_shape s hs
  obtain ⟨rest, hrest⟩ : ∃ rest, cursor.rest = c :: rest := by
    rcases hshape with hshape | hshape
    all_goals
      rw [hshape] at hstarts
      obtain ⟨rest, hrest, -⟩ := exists_of_prefix_cons hstarts
      exact ⟨rest, hrest⟩
  have hfirst : s.toList.head? = some c := by
    rcases hshape with hshape | hshape <;> rw [hshape, List.head?_cons]
  have hw : w.spelling.head? = some c := by rw [← h.head?, hrest, List.head?_cons]
  obtain ⟨t, ht, rfl⟩ := (h.valid w List.mem_cons_self).symbolic hw hs hfirst
  refine ⟨t, ht, rfl, ?_⟩
  have hstands := h.stands
  have hbounded := h.bounded
  rw [hrest] at hstands hbounded hstarts
  obtain ⟨htshape, hthead⟩ := hstands.symbol_head
  rcases hshape with hshape | hshape <;> rcases htshape with htshape | htshape
  · exact hshape.trans htshape.symm ▸ List.prefix_rfl
  · exact ⟨['='], by rw [hshape, htshape]; rfl⟩
  · -- The longer symbol would be the word in front.
    rw [hshape] at hstarts
    obtain ⟨_, he, hsecond⟩ := exists_of_prefix_cons hstarts
    obtain ⟨-, rfl⟩ := List.cons.inj he
    obtain ⟨rest', rfl, -⟩ := exists_of_prefix_cons hsecond
    rw [Word.spelling, htshape] at hbounded
    rcases hthead.single htshape (hhead.pair hshape) with rfl | hmem
    · exact absurd rfl (hstands.2.2 rfl)
    · exact absurd hmem (hbounded rfl)
  · exact hshape.trans htshape.symm ▸ List.prefix_rfl

end Cursor.InFront

namespace Parser

variable {α : Type} {ws more : List Word} {w : Word} {good : α → Prop}

theorem symbols_ne_nil : ∀ s ∈ symbols, s.toList ≠ [] := by decide

-- ============================================================ looking ahead

/-- A reader that passes trivia, looks at the text and then takes a word. -/
theorem takes_look {k : Cursor → Parser α}
    (hk : ∀ s, s.cursor.InFront (w :: more) →
      ∃ a, k s.cursor s = .ok a { s with cursor := s.cursor.advance w.spelling.length } ∧ good a) :
    Takes (do
      let _ ← skipTrivia
      let cursor ← here
      k cursor) [w] more good := by
  intro s hs
  obtain ⟨a, hrun, hgood⟩ := hk { s with cursor := s.cursor.skipTrivia } hs.front
  exact ⟨a, _, hrun, hgood, hs.next, rfl⟩

/-- A reader that passes trivia, looks at the text and goes no further. -/
theorem leaves_look {k : Cursor → Parser α}
    (hk : ∀ s, s.cursor.InFront ws → ∃ e, k s.cursor s = .error e s ∧ e.weight = .soft) :
    Leaves (do
      let _ ← skipTrivia
      let cursor ← here
      k cursor) ws := by
  intro s hs
  obtain ⟨e, hrun, hsoft⟩ := hk { s with cursor := s.cursor.skipTrivia } hs.front
  exact ⟨e, _, hrun, hsoft, rfl, rfl⟩

/-- Taking the word in front as a token. -/
theorem run_takeToken_front {s : Progress} (kind : TokenKind)
    (h : s.cursor.InFront (w :: more)) : ∃ token : Token,
      takeToken kind w.spelling.length s
        = .ok token { s with cursor := s.cursor.advance w.spelling.length }
      ∧ token.Is kind (String.ofList w.spelling) := by
  refine ⟨_, rfl, rfl, ?_⟩
  show String.ofList (s.cursor.rest.take w.spelling.length) = _
  obtain ⟨rest, hrest⟩ := h.exists_rest
  rw [hrest, List.take_left]

-- ============================================================== punctuation

/-- The reader of a symbol leaves the words that begin with something else. -/
theorem leaves_symbol {c : Char} (hne : ∀ w ∈ ws.head?, w.spelling.head? ≠ some c) :
    Leaves (symbol c) ws := by
  refine leaves_look fun s hs => ?_
  rw [if_neg (hs.head_ne hne)]
  exact ⟨_, rfl, rfl⟩

/-- Where only one word begins with the symbol, the reader leaves all others. -/
theorem leaves_symbol_ne {c : Char} (spelling : String)
    (honly : ∀ s ∈ symbols, s.toList.head? = some c → s = spelling) (hmem : spelling ∈ symbols)
    (hhead : spelling.toList.head? = some c) (hne : ws.head? ≠ some (.symbol spelling)) :
    Leaves (symbol c) ws := by
  intro s hs
  refine leaves_symbol (fun w hw hc => ?_) s hs
  have hvalid := hs.front.valid w (List.mem_of_mem_head? hw)
  obtain ⟨t, ht, rfl⟩ := hvalid.symbolic hc hmem hhead
  exact hne (honly t ht hc ▸ hw)

section Symbol

variable {c : Char} {spelling : String} (hshape : spelling.toList = [c])
include hshape

theorem head_of_symbol {cursor : Cursor} (h : cursor.InFront (.symbol spelling :: more)) :
    cursor.rest.head? = some c := by
  rw [h.head?, Word.spelling, hshape, List.head?_cons]

theorem takes_symbol : Takes (symbol c) [.symbol spelling] more fun _ => True := by
  refine takes_look fun s hs => ⟨(), ?_, trivial⟩
  rw [if_pos (head_of_symbol hshape hs), Word.spelling, hshape]
  rfl

theorem takes_symbolToken (kind : TokenKind) :
    Takes (symbolToken kind c) [.symbol spelling] more (Token.Is kind spelling) := by
  refine takes_look fun s hs => ?_
  obtain ⟨token, hrun, his⟩ := run_takeToken_front kind hs
  rw [Word.spelling, String.ofList_toList] at his
  rw [Word.spelling, hshape] at hrun ⊢
  rw [if_pos (head_of_symbol hshape hs)]
  exact ⟨token, hrun, his⟩

end Symbol

-- ================================================================= keywords

theorem takes_keyword (kind : TokenKind) (word : String) :
    Takes (keyword kind word) [.keyword word] more (Token.Is kind word) := by
  refine takes_look fun s hs => ?_
  obtain ⟨token, hrun, his⟩ := run_takeToken_front kind hs
  obtain ⟨-, hstarts, hnext⟩ := hs.stands
  rw [Word.spelling, String.ofList_toList] at his
  rw [Word.spelling, String.length_toList] at hrun ⊢
  rw [String.length_toList] at hnext
  refine ⟨token, ?_, his⟩
  have hclear : s.cursor.previous.any isKeywordChar = false := hs.clear
  rw [startsWith, List.isPrefixOf_iff_prefix.mpr hstarts, hclear]
  dsimp only
  rw [Cursor.rest_advance, hnext]
  exact hrun

theorem leaves_keyword (kind : TokenKind) {word : String} (hword : word ∈ reservedWords)
    (hne : ws.head? ≠ some (.keyword word)) : Leaves (keyword kind word) ws := by
  refine leaves_look fun s hs => ?_
  by_cases hstarts : word.toList <+: s.cursor.rest
  · obtain ⟨c, tail, hshape, hc, htail⟩ := reservedWords_shape word hword
    obtain ⟨rest, hrest⟩ : ∃ rest, s.cursor.rest = c :: rest := by
      rw [hshape] at hstarts
      obtain ⟨rest, hrest, -⟩ := exists_of_prefix_cons hstarts
      exact ⟨rest, hrest⟩
    obtain ⟨w, more, rfl⟩ : ∃ w more, ws = w :: more := by
      cases ws with
      | nil => exact absurd (hs.rest_nil.symm.trans hrest) (List.cons_ne_nil _ _).symm
      | cons w more => exact ⟨w, more, rfl⟩
    have hlength := nameLength_of_prefix hshape hc htail hstarts
    -- The word in front is longer than the one looked for.
    have hlonger : (s.cursor.rest.drop word.length).head?.any isKeywordChar = true := by
      rw [← String.length_toList]
      cases hbehind : s.cursor.rest.drop word.toList.length with
      | nil =>
          refine absurd ?_ hne
          rw [hbehind, List.takeWhile_nil, List.length_nil, Nat.add_zero] at hlength
          rw [hs.eq_named hrest hc, hlength, lexeme_of_prefix hstarts, String.ofList_toList,
            Word.named, if_pos hword, List.head?_cons]
      | cons d behind =>
          by_cases hd : isNameChar d = true
          · simp [isKeywordChar, hd]
          · refine absurd ?_ hne
            rw [hbehind, List.takeWhile_cons_of_neg hd, List.length_nil, Nat.add_zero] at hlength
            rw [hs.eq_named hrest hc, hlength, lexeme_of_prefix hstarts, String.ofList_toList,
              Word.named, if_pos hword, List.head?_cons]
    rw [startsWith, List.isPrefixOf_iff_prefix.mpr hstarts]
    dsimp only
    rw [Cursor.rest_advance, hlonger]
    cases s.cursor.previous.any isKeywordChar <;> exact ⟨_, rfl, rfl⟩
  · have hnot : startsWith word s.cursor.rest = false := by
      rw [startsWith, ← Bool.not_eq_true, List.isPrefixOf_iff_prefix]
      exact hstarts
    rw [hnot]
    exact ⟨_, rfl, rfl⟩

-- ================================================================ operators

section Operator

variable {spellings : List String} (hmem : ∀ s ∈ spellings, s ∈ symbols)
include hmem

/-- Which operator stands in front is decided by the first word alone. -/
theorem find_startsWith {c : Cursor} (h : c.InFront (w :: more)) :
    spellings.find? (fun s => startsWith s c.rest)
      = spellings.find? fun s => startsWith s w.spelling := by
  refine List.find?_congr fun s hs => ?_
  rw [startsWith, startsWith, Bool.eq_iff_iff, List.isPrefixOf_iff_prefix,
    List.isPrefixOf_iff_prefix]
  refine ⟨fun hprefix => ?_, fun hprefix => hprefix.trans h.stands.isPrefix⟩
  obtain ⟨t, -, rfl, ht⟩ := h.prefix_spelling (hmem s hs) hprefix
  exact ht

theorem takes_operator {spelling : String}
    (hfind : spellings.find? (fun s => startsWith s spelling.toList) = some spelling) :
    Takes (operator spellings) [.symbol spelling] more (Token.Is .operator spelling) := by
  refine takes_look fun s hs => ?_
  obtain ⟨token, hrun, his⟩ := run_takeToken_front .operator hs
  rw [Word.spelling, String.ofList_toList] at his
  rw [Word.spelling, String.length_toList] at hrun ⊢
  rw [find_startsWith hmem hs, Word.spelling, hfind]
  exact ⟨token, hrun, his⟩

theorem leaves_operator
    (hnone : ∀ s, ws.head? = some (.symbol s) → ∀ t ∈ spellings, ¬ t.toList <+: s.toList) :
    Leaves (operator spellings) ws := by
  refine leaves_look fun s hs => ?_
  have hfind : spellings.find? (fun t => startsWith t s.cursor.rest) = none := by
    rw [List.find?_eq_none]
    intro t ht hstarts
    rw [startsWith, List.isPrefixOf_iff_prefix] at hstarts
    cases ws with
    | nil =>
        rw [hs.rest_nil] at hstarts
        exact symbols_ne_nil t (hmem t ht) (List.prefix_nil.mp hstarts)
    | cons w more =>
        obtain ⟨u, -, rfl, hprefix⟩ := hs.prefix_spelling (hmem t ht) hstarts
        exact hnone u rfl t ht hprefix
  rw [hfind]
  exact ⟨_, rfl, rfl⟩

end Operator

theorem takes_equalSign : Takes equalSign [.symbol "="] more fun _ => True := by
  refine takes_look fun s hs => ?_
  obtain ⟨token, hrun, -⟩ := run_takeToken_front .equal hs
  refine ⟨token, ?_, trivial⟩
  have hsecond := hs.stands.2.2 rfl
  have hhead := head_of_symbol (c := '=') rfl hs
  generalize s.cursor.rest = cs at hsecond hhead ⊢
  split
  · exact absurd rfl hsecond
  · exact hrun
  · rename_i hnot
    obtain ⟨rest, rfl⟩ := List.head?_eq_some_iff.mp hhead
    exact absurd rfl (hnot rest)

theorem leaves_equalSign (hne : ws.head? ≠ some (.symbol "=")) : Leaves equalSign ws := by
  refine leaves_look fun s hs => ?_
  -- A word that begins with the sign is a comparison, if it is not the sign itself.
  have hlonger : ∀ rest, s.cursor.rest = '=' :: rest → ∃ more, rest = '=' :: more := by
    intro rest hrest
    cases ws with
    | nil =>
        rw [hs.rest_nil] at hrest
        cases hrest
    | cons w more =>
        have hstands := hs.stands
        rw [hrest] at hstands
        rcases hstands.eq_equals with rfl | rfl
        · exact absurd rfl hne
        · obtain ⟨tail, htail⟩ := hstands.2.1
          exact ⟨tail, (List.cons.inj htail).2.symm⟩
  generalize s.cursor.rest = cs at hlonger ⊢
  split
  · exact ⟨_, rfl, rfl⟩
  · rename_i rest hnot
    obtain ⟨more, rfl⟩ := hlonger rest rfl
    exact absurd rfl (hnot more)
  · exact ⟨_, rfl, rfl⟩

-- ==================================================================== names

theorem takes_identifier (s : String) :
    Takes identifier [.name s] more (Token.Is .identifier s) := by
  refine takes_look fun t ht => ?_
  obtain ⟨token, hrun, his⟩ := run_takeToken_front .identifier ht
  rw [Word.spelling, String.ofList_toList] at his
  obtain ⟨hlexeme, hpos, hfree⟩ := ht.stands
  have hlength : (Word.name s).spelling.length = nameLength t.cursor.rest := by
    rw [Word.spelling, hlexeme, List.length_take_of_le (nameLength_le _)]
  rw [hlength] at hrun ⊢
  refine ⟨token, ?_, his⟩
  rw [hfree, Bool.or_false, if_neg (by simpa using hpos)]
  exact hrun

theorem leaves_identifier (hname : ∀ s, ws.head? ≠ some (.name s))
    (hkeyword : ∀ s, ws.head? ≠ some (.keyword s)) : Leaves identifier ws := by
  refine leaves_look fun t ht => ?_
  have hnone : nameLength t.cursor.rest = 0 := by
    cases hrest : t.cursor.rest with
    | nil => rfl
    | cons c tail =>
        cases ws with
        | nil => exact absurd (ht.rest_nil.symm.trans hrest) (List.cons_ne_nil _ _).symm
        | cons w more =>
            refine nameLength_eq_zero (Bool.eq_false_iff.mpr fun hc => ?_) tail
            have hw := ht.eq_named hrest hc
            unfold Word.named at hw
            split at hw
            · exact hkeyword _ (congrArg some hw)
            · exact hname _ (congrArg some hw)
  have hcond : (decide (nameLength t.cursor.rest = 0) || startsReserved t.cursor.rest) = true := by
    simp [hnone]
  rw [hcond]
  exact ⟨_, rfl, rfl⟩

-- ================================================================ constants

/-- A constant and its token, as they were written. -/
abbrev IsConstant (value : Constant) (kind : TokenKind) (spelling : String)
    (found : Constant × Token) : Prop :=
  found.1 = value ∧ found.2.Is kind spelling

theorem takes_numberConstant (s : String) :
    Takes numberConstant [.number s] more (IsConstant (.ofNumber s.toList) .number s) := by
  refine takes_look fun t ht => ?_
  obtain ⟨token, hrun, his⟩ := run_takeToken_front .number ht
  rw [Word.spelling, String.ofList_toList] at his
  obtain ⟨hlexeme, hpos⟩ := ht.stands
  have hlength : (Word.number s).spelling.length = numberLength t.cursor.rest := by
    rw [Word.spelling, hlexeme, List.length_take_of_le (numberLength_le _)]
  rw [hlength] at hrun ⊢
  rw [if_neg hpos]
  refine ⟨(_, token), run_bind_ok hrun, ?_, his⟩
  rw [← hlexeme, Constant.ofNumber]

theorem leaves_numberConstant (hne : ∀ s, ws.head? ≠ some (.number s)) :
    Leaves numberConstant ws := by
  refine leaves_look fun t ht => ?_
  have hzero : numberLength t.cursor.rest = 0 := by
    by_contra hpos
    cases ws with
    | nil =>
        rw [ht.rest_nil] at hpos
        exact hpos rfl
    | cons w more =>
        have hnumber : (Word.number (String.ofList (t.cursor.rest.take
            (numberLength t.cursor.rest)))).Stands t.cursor.rest :=
          ⟨String.toList_ofList, hpos⟩
        exact hne _ (congrArg some (ht.first.symm.trans (Word.first_number hnumber)))
  rw [if_pos hzero]
  exact ⟨_, rfl, rfl⟩

theorem takes_stringConstant (s : String) :
    Takes stringConstant [.string s] more (IsConstant (.string s) .string s) := by
  refine takes_look fun t ht => ?_
  obtain ⟨hquote, rest, hrest⟩ := ht.stands
  have htake : (s.toList ++ '"' :: rest).takeWhile (· ≠ '"') = s.toList := by
    rw [List.takeWhile_append_of_pos]
    · simp
    · intro c hc
      have hne : c ≠ '"' := fun he => hquote (he ▸ hc)
      simpa using hne
  have hshape : t.cursor.rest = '"' :: (s.toList ++ '"' :: rest) := by
    rw [← hrest, Word.spelling]
    simp
  have hlength : (Word.string s).spelling.length = s.toList.length + 2 := by
    simp [Word.spelling]
  have hclosed : s.toList.length < (s.toList ++ '"' :: rest).length := by
    simp
  rw [hlength]
  generalize t.cursor.rest = cs at hshape ⊢
  split
  · rename_i behind
    obtain ⟨-, rfl⟩ := List.cons.inj hshape
    dsimp only
    rw [htake, if_pos hclosed, String.ofList_toList]
    exact ⟨_, rfl, rfl, rfl, rfl⟩
  · rename_i hnot
    exact absurd hshape (hnot _)

theorem leaves_stringConstant (hne : ∀ s, ws.head? ≠ some (.string s)) :
    Leaves stringConstant ws := by
  refine leaves_look fun t ht => ?_
  have hhead : t.cursor.rest.head? ≠ some '"' := by
    intro hquote
    cases ws with
    | nil =>
        rw [ht.rest_nil] at hquote
        cases hquote
    | cons w more =>
        have hfirst := ht.first
        rw [Word.first, if_pos hquote] at hfirst
        exact hne _ (congrArg some hfirst.symm)
  generalize t.cursor.rest = cs at hhead ⊢
  split
  · exact absurd rfl hhead
  · exact ⟨_, rfl, rfl⟩

theorem takes_wordConstant (word : String) (value : Constant) :
    Takes (wordConstant word value) [.keyword word] more (IsConstant value .keyword word) := by
  refine (takes_keyword .keyword word).last fun token his => Takes.pure ⟨rfl, his⟩

theorem leaves_wordConstant {word : String} (value : Constant) (hword : word ∈ reservedWords)
    (hne : ws.head? ≠ some (.keyword word)) : Leaves (wordConstant word value) ws :=
  (leaves_keyword .keyword hword hne).bind

end Parser

end Lox
