/-
What reading takes and gives. Between two points of progress a reader takes words
off the text and hands out numbers (`Reads`). The readers of single words take
one word each and hand out nothing.
-/
import Lox.Proofs.Reading.Contract

namespace Lox

/-- Numbers that were handed out between two counts, none of them twice. -/
structure Numbers (low high : Nat) (ids : List Nat) : Prop where
  distinct : ids.Nodup
  range : ∀ id ∈ ids, low ≤ id ∧ id < high

namespace Numbers

variable {low mid high : Nat} {ids more : List Nat}

theorem nil (low high : Nat) : Numbers low high [] := ⟨List.nodup_nil, nofun⟩

theorem one (low : Nat) : Numbers low (low + 1) [low] := by
  refine ⟨List.nodup_cons.mpr ⟨List.not_mem_nil, List.nodup_nil⟩, fun id h => ?_⟩
  obtain rfl := List.mem_singleton.mp h
  omega

theorem widen {low' high' : Nat} (h : Numbers low high ids) (hlow : low' ≤ low)
    (hhigh : high ≤ high') : Numbers low' high' ids := by
  refine ⟨h.distinct, fun id hid => ?_⟩
  have := h.range id hid
  omega

theorem append (h : Numbers low mid ids) (h' : Numbers mid high more) (hlow : low ≤ mid)
    (hhigh : mid ≤ high) : Numbers low high (ids ++ more) := by
  refine ⟨List.nodup_append.mpr ⟨h.distinct, h'.distinct, fun a ha b hb => ?_⟩, fun id hid => ?_⟩
  · have := h.range a ha
    have := h'.range b hb
    omega
  · rcases List.mem_append.mp hid with hid | hid
    · have := h.range id hid
      omega
    · have := h'.range id hid
      omega

theorem perm (h : Numbers low high ids) (hperm : more.Perm ids) : Numbers low high more :=
  ⟨hperm.nodup_iff.mpr h.distinct, fun id hid => h.range id (hperm.mem_iff.mp hid)⟩

theorem sublist (h : Numbers low high ids) (hsub : more.Sublist ids) : Numbers low high more :=
  ⟨hsub.nodup h.distinct, fun id hid => h.range id (hsub.subset hid)⟩

end Numbers

/-- Nothing touches a reserved word in front. -/
def Word.Clear (previous : Option Char) : Word → Prop
  | .keyword _ => previous.any Text.isKeywordChar = false
  | _ => True

namespace Cursor

theorem previous_next {c : Cursor} {x : Char} {rest : List Char} (h : c.rest = x :: rest) :
    c.next.previous = some x := by
  unfold next
  rw [h]
  split
  · rename_i hnil
    cases hnil
  · rename_i hcons
    rw [(List.cons.inj hcons).1]
  · rename_i hcons
    rw [(List.cons.inj hcons).1]

/-- The character before the cursor is the last one that was passed. -/
theorem previous_advance (c : Cursor) (n : Nat) :
    (c.advance n).previous = (c.rest.take n).getLast?.or c.previous := by
  induction n generalizing c with
  | zero => simp
  | succ n ih =>
      rw [advance_succ, ih, rest_next]
      cases hrest : c.rest with
      | nil =>
          have hnext : c.next = c := by
            unfold next
            rw [hrest]
          rw [hnext]
          simp
      | cons x rest =>
          rw [previous_next hrest, List.take_succ_cons, List.getLast?_cons, List.drop_succ_cons,
            List.drop_zero]
          cases (rest.take n).getLast? <;> rfl

theorem rest_skipTrivia (c : Cursor) : c.skipTrivia.rest = trimmed c.rest := by
  rw [skipTrivia, rest_advance, trimmed]

theorem skipTrivia_skipTrivia (c : Cursor) : c.skipTrivia.skipTrivia = c.skipTrivia := by
  have hzero : triviaLength false c.skipTrivia.rest = 0 := by
    rw [rest_skipTrivia]
    exact triviaLength_drop false c.rest
  rw [skipTrivia.eq_1 c.skipTrivia, hzero, advance_zero]

/-- Some words lie between two cursors. -/
inductive Passes : Cursor → List Word → Cursor → Prop
  | nil {c : Cursor} : Passes c [] c
  | cons {c d : Cursor} {w : Word} {ws : List Word} (stands : w.Stands (trimmed c.rest))
      (clear : w.Clear c.skipTrivia.previous)
      (further : Passes (c.skipTrivia.advance w.spelling.length) ws d) : Passes c (w :: ws) d

namespace Passes

variable {c d : Cursor} {ws more : List Word}

theorem append {mid : Cursor} (h : c.Passes ws mid) (h' : mid.Passes more d) :
    c.Passes (ws ++ more) d := by
  induction h with
  | nil => exact h'
  | cons stands clear _ ih => exact .cons stands clear (ih h')

theorem of_skipTrivia (h : c.skipTrivia.Passes ws d) (hne : ws ≠ []) : c.Passes ws d := by
  cases h with
  | nil => exact absurd rfl hne
  | cons stands clear further =>
      rw [rest_skipTrivia, trimmed_trimmed] at stands
      rw [skipTrivia_skipTrivia] at clear further
      exact .cons stands clear further

theorem spans (h : c.Passes ws d) : Spans c.rest ws d.rest := by
  induction h with
  | nil => exact .nil
  | cons stands _ _ ih =>
      rw [rest_advance, rest_skipTrivia] at ih
      exact .cons stands ih

end Passes

end Cursor

namespace Parser

variable {s t u : Progress} {ws more : List Word} {ids others : List NodeId}

/-- Reading takes some words and hands out some numbers. -/
structure Reads (s t : Progress) (ws : List Word) (ids : List NodeId) : Prop where
  passes : s.cursor.Passes ws t.cursor
  numbers : Numbers s.nextId t.nextId ids
  ids_le : s.nextId ≤ t.nextId

namespace Reads

theorem refl (s : Progress) : Reads s s [] [] := ⟨.nil, .nil _ _, Nat.le_refl _⟩

theorem trans (h : Reads s t ws ids) (h' : Reads t u more others) :
    Reads s u (ws ++ more) (ids ++ others) where
  passes := h.passes.append h'.passes
  numbers := h.numbers.append h'.numbers h.ids_le h'.ids_le
  ids_le := Nat.le_trans h.ids_le h'.ids_le

theorem perm (h : Reads s t ws ids) (hperm : others.Perm ids) : Reads s t ws others :=
  { h with numbers := h.numbers.perm hperm }

theorem sublist (h : Reads s t ws ids) (hsub : others.Sublist ids) : Reads s t ws others :=
  { h with numbers := h.numbers.sublist hsub }

/-- A reader that gave up before may have used up numbers. -/
theorem of_same (h : Reads s t ws ids) (hcursor : s.cursor = u.cursor)
    (hids : u.nextId ≤ s.nextId) : Reads u t ws ids where
  passes := hcursor ▸ h.passes
  numbers := h.numbers.widen hids (Nat.le_refl _)
  ids_le := Nat.le_trans hids h.ids_le

theorem skip (hcursor : t.cursor = s.cursor) (hids : s.nextId ≤ t.nextId) : Reads s t [] [] where
  passes := hcursor ▸ .nil
  numbers := .nil _ _
  ids_le := hids

/-- Trivia that was passed before the first word does not count. -/
theorem of_skipTrivia (h : Reads s t ws ids) (hne : ws ≠ [])
    (hcursor : s.cursor = u.cursor.skipTrivia) (hids : u.nextId ≤ s.nextId) :
    Reads u t ws ids where
  passes := by
    have hpasses := h.passes
    rw [hcursor] at hpasses
    exact hpasses.of_skipTrivia hne
  numbers := h.numbers.widen hids (Nat.le_refl _)
  ids_le := Nat.le_trans hids h.ids_le

/-- Handing out the next number. -/
theorem fresh (s : Progress) : Reads s { s with nextId := s.nextId + 1 } [] [s.nextId] :=
  ⟨.nil, .one _, Nat.le_succ _⟩

/-- The number of a node is handed out after those of its parts. -/
theorem numbered (h : Reads s t ws ids) :
    Reads s { t with nextId := t.nextId + 1 } ws (t.nextId :: ids) := by
  have hall := h.trans (fresh t)
  rw [List.append_nil] at hall
  exact hall.perm (List.perm_append_singleton _ _).symm

/-- Taking one word. -/
theorem word {w : Word} (hw : w.Stands (trimmed s.cursor.rest))
    (hclear : w.Clear s.cursor.skipTrivia.previous)
    (hcursor : t.cursor = s.cursor.skipTrivia.advance w.spelling.length)
    (hids : t.nextId = s.nextId) : Reads s t [w] [] where
  passes := .cons hw hclear (hcursor ▸ .nil)
  numbers := .nil _ _
  ids_le := Nat.le_of_eq hids.symm

end Reads

-- ============================================================= single words

/-- What a reader does that passes trivia, looks at the text, and then reads on or fails. -/
theorem does_look {α : Type} {k : Cursor → Parser α} (post : α → Progress → Progress → Prop)
    (hk : ∀ c, Does (k c) fun a s t => s.cursor = c → post a s t) :
    Does (do
      let _ ← skipTrivia
      let cursor ← here
      k cursor) fun a s t => post a { s with cursor := s.cursor.skipTrivia } t := by
  refine (Does.skipTrivia.bind fun _ => Does.here.bind hk).mono fun a s t h => ?_
  obtain ⟨_, _, rfl, c, _, ⟨rfl, rfl⟩, h⟩ := h
  exact h rfl

theorem does_takeToken (kind : TokenKind) (n : Nat) :
    Does (takeToken kind n) fun token s t =>
      token = ⟨kind, String.ofList (s.cursor.rest.take n), s.cursor.place⟩
        ∧ t = { s with cursor := s.cursor.advance n } := by
  unfold takeToken
  refine (Does.here.bind fun c => (Does.take n).bind fun _ => Does.pure _).mono fun token s t h => ?_
  obtain ⟨_, _, ⟨rfl, rfl⟩, _, _, rfl, rfl, rfl⟩ := h
  exact ⟨rfl, rfl⟩

/-- A symbol of one character, other than the sign of assignment. -/
theorem stands_symbol {c : Char} {spelling : String} {cs : List Char}
    (hshape : spelling.toList = [c]) (hmem : spelling ∈ symbols) (hne : spelling ≠ "=")
    (hhead : cs.head? = some c) : (Word.symbol spelling).Stands cs := by
  refine ⟨hmem, ?_, fun h => absurd h hne⟩
  obtain ⟨rest, rfl⟩ := List.head?_eq_some_iff.mp hhead
  rw [hshape]
  exact ⟨rest, rfl⟩

theorem does_symbol {c : Char} (spelling : String) (hshape : spelling.toList = [c])
    (hmem : spelling ∈ symbols) (hne : spelling ≠ "=") :
    Does (symbol c) fun _ s t => Reads s t [.symbol spelling] [] := by
  unfold symbol
  refine (does_look (fun _ s t => s.cursor.rest.head? = some c
    ∧ t = { s with cursor := s.cursor.advance 1 }) fun cursor => ?_).mono fun a s t h => ?_
  · split
    · rename_i hhead
      refine (Does.take 1).mono fun _ s t h hcursor => ?_
      subst hcursor
      exact ⟨hhead, h⟩
    · exact (Does.reject _).mono fun _ _ _ h => h.elim
  · obtain ⟨hhead, rfl⟩ := h
    rw [Cursor.rest_skipTrivia] at hhead
    refine .word (stands_symbol hshape hmem hne hhead) trivial ?_ rfl
    rw [Word.spelling, hshape]
    rfl

/-- Taking the spelling of a word that stands behind the trivia. -/
theorem reads_token {kind : TokenKind} {n : Nat} {w : Word} {token : Token}
    (hw : w.Stands (trimmed s.cursor.rest)) (hclear : w.Clear s.cursor.skipTrivia.previous)
    (hn : w.spelling.length = n)
    (h : token = ⟨kind, String.ofList (s.cursor.skipTrivia.rest.take n), s.cursor.skipTrivia.place⟩
      ∧ t = { s with cursor := s.cursor.skipTrivia.advance n }) : Reads s t [w] [] := by
  obtain ⟨-, rfl⟩ := h
  refine .word hw hclear ?_ rfl
  rw [hn]

theorem lexeme_of_prefix {l cs : List Char} (h : l <+: cs) :
    String.ofList (cs.take l.length) = String.ofList l := by
  obtain ⟨rest, rfl⟩ := h
  rw [List.take_left]

theorem nameLength_le (cs : List Char) : Text.nameLength cs ≤ cs.length := by
  unfold Text.nameLength
  split
  · exact Nat.le_refl _
  · rename_i c rest
    have hle := (List.takeWhile_prefix (l := rest) Text.isNameChar).length_le
    rw [List.length_cons]
    split <;> omega

theorem numberLength_le (cs : List Char) : Text.Lexeme.numberLength cs ≤ cs.length := by
  have hwhole := (List.takeWhile_prefix (l := cs) Text.isDigit).length_le
  unfold Text.Lexeme.numberLength
  dsimp only
  split
  · omega
  split
  · rename_i rest hrest
    have hdrop := congrArg List.length hrest
    have hle := (List.takeWhile_prefix (l := rest) Text.isDigit).length_le
    rw [List.length_drop, List.length_cons] at hdrop
    split <;> omega
  · exact hwhole

theorem does_symbolToken {c : Char} (kind : TokenKind) (spelling : String)
    (hshape : spelling.toList = [c]) (hmem : spelling ∈ symbols) (hne : spelling ≠ "=") :
    Does (symbolToken kind c) fun token s t =>
      token.Is kind spelling ∧ Reads s t [.symbol spelling] [] := by
  unfold symbolToken
  refine (does_look (fun token s t => s.cursor.rest.head? = some c
    ∧ token = ⟨kind, String.ofList (s.cursor.rest.take 1), s.cursor.place⟩
    ∧ t = { s with cursor := s.cursor.advance 1 }) fun cursor => ?_).mono fun token s t h => ?_
  · split
    · rename_i hhead
      refine (does_takeToken kind 1).mono fun _ s t h hcursor => ?_
      subst hcursor
      exact ⟨hhead, h⟩
    · exact (Does.reject _).mono fun _ _ _ h => h.elim
  · obtain ⟨hhead, h⟩ := h
    rw [Cursor.rest_skipTrivia] at hhead
    have hstands := stands_symbol hshape hmem hne hhead
    refine ⟨⟨by rw [h.1], ?_⟩, reads_token hstands trivial (by rw [Word.spelling, hshape]; rfl) h⟩
    rw [h.1, Cursor.rest_skipTrivia]
    have hlexeme := lexeme_of_prefix hstands.2.1
    rw [String.ofList_toList, hshape] at hlexeme
    exact hlexeme

theorem does_keyword (kind : TokenKind) (word : String) (hword : word ∈ Text.reservedWords) :
    Does (keyword kind word) fun token s t =>
      token.Is kind word ∧ Reads s t [.keyword word] [] := by
  unfold keyword
  refine (does_look (fun token s t => word.toList <+: s.cursor.rest
    ∧ s.cursor.previous.any Text.isKeywordChar = false
    ∧ (s.cursor.rest.drop word.length).head?.any Text.isKeywordChar = false
    ∧ token = ⟨kind, String.ofList (s.cursor.rest.take word.length), s.cursor.place⟩
    ∧ t = { s with cursor := s.cursor.advance word.length })
    fun cursor => ?_).mono fun token s t h => ?_
  · split
    · exact (Does.reject _).mono fun _ _ _ h => h.elim
    rename_i hstarts
    split
    · exact (Does.failAt _ _ _).mono fun _ _ _ h => h.elim
    rename_i hprevious
    dsimp only
    split
    · exact (Does.failAt _ _ _).mono fun _ _ _ h => h.elim
    · rename_i hnext
      refine (does_takeToken kind word.length).mono fun _ s t h hcursor => ?_
      subst hcursor
      rw [Bool.not_eq_true, Bool.not_eq_false'] at hstarts
      refine ⟨List.isPrefixOf_iff_prefix.mp hstarts, Bool.eq_false_iff.mpr hprevious, ?_, h⟩
      rw [← Cursor.rest_advance]
      exact Bool.eq_false_iff.mpr hnext
  · obtain ⟨hstarts, hprevious, hnext, h⟩ := h
    rw [Cursor.rest_skipTrivia] at hstarts hnext
    have hstands : (Word.keyword word).Stands (trimmed s.cursor.rest) := by
      rw [← String.length_toList] at hnext
      exact ⟨hword, hstarts, hnext⟩
    refine ⟨⟨by rw [h.1], ?_⟩,
      reads_token hstands hprevious (by rw [Word.spelling, String.length_toList]) h⟩
    rw [h.1, Cursor.rest_skipTrivia, ← String.length_toList, lexeme_of_prefix hstarts,
      String.ofList_toList]

theorem does_operator (spellings : List String) (hmem : ∀ s ∈ spellings, s ∈ symbols)
    (hne : "=" ∉ spellings) :
    Does (operator spellings) fun token s t =>
      token.kind = .operator ∧ token.lexeme ∈ spellings ∧ Reads s t [.symbol token.lexeme] [] := by
  unfold operator
  refine (does_look (fun token s t => ∃ spelling ∈ spellings,
    spelling.toList <+: s.cursor.rest
    ∧ token = ⟨.operator, String.ofList (s.cursor.rest.take spelling.length), s.cursor.place⟩
    ∧ t = { s with cursor := s.cursor.advance spelling.length })
    fun cursor => ?_).mono fun token s t h => ?_
  · split
    · rename_i spelling hfind
      refine (does_takeToken .operator spelling.length).mono fun _ s t h hcursor => ?_
      subst hcursor
      have hstarts := List.find?_some hfind
      exact ⟨spelling, List.mem_of_find?_eq_some hfind, List.isPrefixOf_iff_prefix.mp hstarts, h⟩
    · exact (Does.reject _).mono fun _ _ _ h => h.elim
  · obtain ⟨spelling, hspelling, hstarts, h⟩ := h
    rw [Cursor.rest_skipTrivia] at hstarts
    have hlexeme : token.lexeme = spelling := by
      rw [h.1, Cursor.rest_skipTrivia, ← String.length_toList, lexeme_of_prefix hstarts,
        String.ofList_toList]
    have hstands : (Word.symbol spelling).Stands (trimmed s.cursor.rest) := by
      refine ⟨hmem _ hspelling, hstarts, fun he => ?_⟩
      rw [he] at hspelling
      exact absurd hspelling hne
    rw [hlexeme]
    exact ⟨by rw [h.1], hspelling,
      reads_token hstands trivial (by rw [Word.spelling, String.length_toList]) h⟩

theorem does_equalSign : Does equalSign fun _ s t => Reads s t [.symbol "="] [] := by
  unfold equalSign
  refine (does_look (fun token s t => s.cursor.rest.head? = some '='
    ∧ s.cursor.rest[1]? ≠ some '='
    ∧ token = ⟨.equal, String.ofList (s.cursor.rest.take 1), s.cursor.place⟩
    ∧ t = { s with cursor := s.cursor.advance 1 }) fun cursor => ?_).mono fun token s t h => ?_
  · split
    · exact (Does.reject _).mono fun _ _ _ h => h.elim
    · rename_i rest hnot hrest
      refine (does_takeToken .equal 1).mono fun _ s t h hcursor => ?_
      subst hcursor
      refine ⟨by rw [hrest]; rfl, fun hsecond => ?_, h⟩
      rw [hrest, List.getElem?_cons_succ] at hsecond
      obtain ⟨more, rfl⟩ := List.head?_eq_some_iff.mp (List.head?_eq_getElem? ▸ hsecond)
      exact hnot more rfl
    · exact (Does.reject _).mono fun _ _ _ h => h.elim
  · obtain ⟨hhead, hsecond, h⟩ := h
    rw [Cursor.rest_skipTrivia] at hhead hsecond
    have hstands : (Word.symbol "=").Stands (trimmed s.cursor.rest) := by
      refine ⟨by decide, ?_, fun _ => hsecond⟩
      obtain ⟨rest, hrest⟩ := List.head?_eq_some_iff.mp hhead
      exact ⟨rest, hrest.symm⟩
    exact reads_token hstands trivial rfl h

theorem does_identifier :
    Does identifier fun token s t =>
      token.kind = .identifier ∧ Reads s t [token.word] [] := by
  unfold identifier
  refine (does_look (fun token s t => Text.nameLength s.cursor.rest ≠ 0
    ∧ Text.startsReserved s.cursor.rest = false
    ∧ token = ⟨.identifier, String.ofList (s.cursor.rest.take (Text.nameLength s.cursor.rest)),
      s.cursor.place⟩
    ∧ t = { s with cursor := s.cursor.advance (Text.nameLength s.cursor.rest) })
    fun cursor => ?_).mono fun token s t h => ?_
  · dsimp only
    split
    · exact (Does.reject _).mono fun _ _ _ h => h.elim
    · rename_i hname
      rw [Bool.or_eq_true, decide_eq_true_eq, not_or, Bool.not_eq_true] at hname
      refine (does_takeToken .identifier _).mono fun _ s t h hcursor => ?_
      subst hcursor
      exact ⟨hname.1, hname.2, h⟩
  · obtain ⟨hlength, hfree, h⟩ := h
    rw [Cursor.rest_skipTrivia] at hlength hfree h
    have hlexeme : token.lexeme.toList
        = (trimmed s.cursor.rest).take (Text.nameLength (trimmed s.cursor.rest)) := by
      rw [h.1]
      exact String.toList_ofList
    have hword : token.word = .name token.lexeme := by
      rw [Token.word, h.1]
    have hstands : token.word.Stands (trimmed s.cursor.rest) := by
      rw [hword]
      exact ⟨hlexeme, hlength, hfree⟩
    refine ⟨by rw [h.1], .word hstands (by rw [hword]; trivial) ?_ (by rw [h.2])⟩
    rw [h.2, hword, Word.spelling, hlexeme, List.length_take_of_le (nameLength_le _)]

/-- A constant and the token that stands for it. -/
abbrev Constants (found : Constant × Token) (s t : Progress) : Prop :=
  found.2.Denotes found.1 ∧ Reads s t [found.2.word] []

theorem does_numberConstant : Does numberConstant Constants := by
  unfold numberConstant
  refine (does_look (fun found s t => Text.Lexeme.numberLength s.cursor.rest ≠ 0
    ∧ found.2 = ⟨.number, String.ofList (s.cursor.rest.take
        (Text.Lexeme.numberLength s.cursor.rest)), s.cursor.place⟩
    ∧ found.1 = .ofNumber (s.cursor.rest.take (Text.Lexeme.numberLength s.cursor.rest))
    ∧ t = { s with cursor := s.cursor.advance (Text.Lexeme.numberLength s.cursor.rest) })
    fun cursor => ?_).mono fun found s t h => ?_
  · dsimp only
    split
    · exact (Does.reject _).mono fun _ _ _ h => h.elim
    · rename_i hlength
      refine ((does_takeToken .number _).bind fun token => Does.pure _).mono
        fun _ s t h hcursor => ?_
      subst hcursor
      obtain ⟨token, _, ⟨htoken, ht⟩, rfl, rfl⟩ := h
      exact ⟨hlength, htoken, rfl, ht⟩
  · obtain ⟨value, token⟩ := found
    obtain ⟨hlength, htoken, hvalue, ht⟩ := h
    dsimp only at htoken hvalue
    rw [Cursor.rest_skipTrivia] at hlength htoken hvalue ht
    have hlexeme : token.lexeme.toList
        = (trimmed s.cursor.rest).take (Text.Lexeme.numberLength (trimmed s.cursor.rest)) := by
      rw [htoken]
      exact String.toList_ofList
    have hword : token.word = .number token.lexeme := by
      rw [Token.word, htoken]
    refine ⟨?_, .word (w := token.word) ?_ (by rw [hword]; trivial) ?_ (by rw [ht])⟩
    · show token.Denotes value
      rw [hvalue, ← hlexeme]
      exact .number (by rw [htoken])
    · rw [hword]
      exact ⟨hlexeme, hlength⟩
    · rw [ht, hword, Word.spelling, hlexeme, List.length_take_of_le (numberLength_le _)]

theorem does_stringConstant : Does stringConstant Constants := by
  unfold stringConstant
  refine (does_look (fun found s t => ∃ text, '"' ∉ text
    ∧ '"' :: text ++ ['"'] <+: s.cursor.rest
    ∧ found = (.string (String.ofList text), ⟨.string, String.ofList text, s.cursor.place⟩)
    ∧ t = { s with cursor := s.cursor.advance (text.length + 2) })
    fun cursor => ?_).mono fun found s t h => ?_
  · split
    · rename_i rest hrest
      dsimp only
      split
      · rename_i hclosed
        refine ((Does.take _).bind fun _ => Does.pure _).mono fun _ s t h hcursor => ?_
        subst hcursor
        obtain ⟨_, _, rfl, rfl, rfl⟩ := h
        refine ⟨_, fun hmem => ?_, ?_, rfl, rfl⟩
        · have hall := List.all_eq_true.mp List.all_takeWhile _ hmem
          simp at hall
        · rw [hrest]
          obtain ⟨more, hmore⟩ : ∃ more, rest.dropWhile (· ≠ '"') = '"' :: more := by
            cases hdrop : rest.dropWhile (· ≠ '"') with
            | nil =>
                have happend := List.takeWhile_append_dropWhile (p := (· ≠ '"')) (l := rest)
                rw [hdrop, List.append_nil] at happend
                rw [happend] at hclosed
                omega
            | cons d more =>
                have hd := List.head_dropWhile_not (· ≠ '"') (l := rest)
                  (by rw [hdrop]; exact List.cons_ne_nil _ _)
                simp only [hdrop, List.head_cons] at hd
                exact ⟨more, by simpa using hd⟩
          refine ⟨more, ?_⟩
          nth_rewrite 2 [← List.takeWhile_append_dropWhile (p := (· ≠ '"')) (l := rest)]
          rw [hmore]
          simp
      · exact (Does.reject _).mono fun _ _ _ h => h.elim
    · exact (Does.reject _).mono fun _ _ _ h => h.elim
  · obtain ⟨text, hquote, hprefix, rfl, rfl⟩ := h
    rw [Cursor.rest_skipTrivia] at hprefix
    refine ⟨.string rfl, .word (w := .string (String.ofList text)) ?_ trivial ?_ rfl⟩
    · exact ⟨by rwa [String.toList_ofList], by rwa [Word.spelling, String.toList_ofList]⟩
    · simp [Word.spelling]

theorem does_wordConstant (word : String) (value : Constant) (hword : word ∈ Text.reservedWords)
    (hdenotes : ∀ token : Token, token.Is .keyword word → token.Denotes value) :
    Does (wordConstant word value) Constants := by
  unfold wordConstant
  refine ((does_keyword .keyword word hword).bind fun token => Does.pure _).mono fun _ s t h => ?_
  obtain ⟨token, _, ⟨his, hreads⟩, rfl, rfl⟩ := h
  have hw : token.word = .keyword word := by
    rw [Token.word, his.1, his.2]
  exact ⟨hdenotes token his, hw ▸ hreads⟩

end Parser

end Lox
