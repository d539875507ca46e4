/-
Places where a name may begin. The grammar reads a name wherever one is allowed, and
looks at nothing before it; that a name never begins in the middle of a word is due to
what may stand in front of names: punctuation, and reserved words, which must not touch
the character behind them. Behind a number, where a name could begin at once, no name
is allowed.

Such a place is fresh (`Cursor.Fresh`): the character before it belongs to no name, or
the character behind it begins none. Trivia leaves a fresh place fresh, and every word
but names and constants makes one.
-/
import Lox.Proofs.Naming.Leads
import Lox.Proofs.Position.Text
import Lox.Proofs.Reading.Program

namespace Lox

variable {text : List Char}

-- =================================================================== trivia

/-- Trivia ends in white space, unless it takes the whole text. The character in front counts where
it was in a comment or was white space. -/
theorem last_trivia {inComment : Bool} {p : Char} (cs : List Char)
    (hp : inComment = true ∨ isSpace p = true) :
    cs.drop (triviaLength inComment cs) = []
      ∨ isSpace ((p :: cs.take (triviaLength inComment cs)).getLast (List.cons_ne_nil _ _))
        = true := by
  fun_induction triviaLength inComment cs generalizing p with
  | case1 => exact .inl rfl
  | case2 => exact .inl rfl
  | case3 => exact .inl rfl
  | case4 inComment c hcomment => exact .inr (by simpa using hp.resolve_left hcomment)
  | case5 c d rest hcarry ih => simpa using ih (p := d) (.inl rfl)
  | case6 c d rest hcarry ih =>
      have hc : (decide (c ≠ '\n')) = true ∨ isSpace c = true := by
        by_cases hc : c = '\n'
        · exact .inr (by rw [hc]; rfl)
        · exact .inl (by simpa using hc)
      simpa using ih hc
  | case7 inComment c d rest hcomment hslash ih => simpa using ih (p := d) (.inl rfl)
  | case8 inComment c d rest hcomment hslash hspace ih => simpa using ih (p := c) (.inr hspace)
  | case9 inComment c d rest hcomment => exact .inr (by simpa using hp.resolve_left hcomment)

/-- What the trivia at the start of a text ends in. -/
theorem getLast?_trivia (cs : List Char) :
    cs.drop (triviaLength false cs) = []
      ∨ ∀ x ∈ (cs.take (triviaLength false cs)).getLast?, isSpace x = true := by
  by_cases hnone : triviaLength false cs = 0
  · rw [hnone]
    exact .inr nofun
  -- Seen from behind a blank in front of the text, which is not the last character.
  refine (last_trivia (p := ' ') cs (.inr rfl)).imp_right fun h x hx => ?_
  have hne : cs.take (triviaLength false cs) ≠ [] := by
    intro hnil
    rw [hnil] at hx
    cases hx
  rw [List.getLast_cons hne] at h
  rw [List.getLast?_eq_some_getLast hne] at hx
  cases hx
  exact h

-- ============================================================= fresh places

/-- A place of the text where no name can begin that touches a name in front of it. -/
structure Cursor.Fresh (text : List Char) (c : Cursor) : Prop where
  on : c.On text
  apart : c.previous.any Text.isNameChar = false ∨ c.rest.head?.any Text.isNameStart = false

namespace Cursor

variable {c : Cursor}

/-- Behind trivia no name touches what stands in front of the trivia. -/
theorem Fresh.skipTrivia (h : c.Fresh text) : c.skipTrivia.Fresh text := by
  refine ⟨h.on.advance _, ?_⟩
  unfold Cursor.skipTrivia
  rw [previous_advance, rest_advance]
  rcases getLast?_trivia c.rest with hend | hlast
  · rw [hend]
    exact .inr rfl
  cases hpassed : (c.rest.take (triviaLength false c.rest)).getLast? with
  | none =>
      have hzero : triviaLength false c.rest = 0 ∨ c.rest = [] := by
        simpa using hpassed
      rcases hzero with hzero | hnil
      · rw [hzero]
        exact h.apart
      · exact .inr (by rw [hnil]; simp)
  | some x =>
      have hx := hlast x hpassed
      refine .inl ?_
      show Text.isNameChar x = false
      simp only [isSpace, Bool.or_eq_true, beq_iff_eq] at hx
      rcases hx with ((rfl | rfl) | rfl) | rfl <;> decide

end Cursor

-- ============================================================== single names

/-- A token that is spelt like a name and stands for itself in the text: neither the character in
front of it nor the one behind it could belong to a name. -/
structure Token.StandsAlone (text : List Char) (t : Token) : Prop where
  spelt : ∃ first more, t.lexeme.toList = first :: more ∧ Text.isNameStart first = true
    ∧ ∀ c ∈ more, Text.isNameChar c = true
  alone : ∃ before behind, text = before ++ t.lexeme.toList ++ behind
    ∧ t.place.At text before.length
    ∧ (∀ c ∈ before.getLast?, Text.isNameChar c = false)
    ∧ ∀ c ∈ behind.head?, Text.isNameChar c = false

/-- A token of the tree: if it is a name, it stands alone. -/
def Token.Settled (text : List Char) (t : Token) : Prop :=
  t.kind = .identifier → t.StandsAlone text

theorem Token.StandsAlone.settled {t : Token} (h : t.StandsAlone text) : t.Settled text :=
  fun _ => h

theorem Token.settled_of_kind {kind : TokenKind} {lexeme : String} {place : Place}
    (h : kind ≠ .identifier) : (⟨kind, lexeme, place⟩ : Token).Settled text :=
  fun hname => absurd hname h

theorem Text.isNameChar_of_isNameStart {c : Char} (h : isNameStart c = true) :
    isNameChar c = true := by
  simp only [isNameStart, Bool.or_eq_true] at h
  simp only [isNameChar, isAsciiAlnum, Bool.or_eq_true]
  tauto

/-- The longest name at the start of a text. -/
theorem Text.exists_name {cs : List Char} (h : nameLength cs ≠ 0) :
    ∃ first rest, cs = first :: rest ∧ isNameStart first = true
      ∧ cs.take (nameLength cs) = first :: rest.takeWhile isNameChar
      ∧ cs.drop (nameLength cs) = rest.dropWhile isNameChar := by
  unfold nameLength at h ⊢
  split at h
  · exact absurd rfl h
  · rename_i first rest
    split at h
    · rename_i hfirst
      refine ⟨first, rest, rfl, hfirst, ?_⟩
      rw [if_pos hfirst, Nat.add_comm, List.take_succ_cons, List.drop_succ_cons, take_takeWhile,
        drop_takeWhile]
      exact ⟨rfl, rfl⟩
    · exact absurd rfl h

/-- A name that is read at a fresh place stands alone. -/
theorem Cursor.Fresh.standsAlone {c : Cursor} (h : c.Fresh text)
    (hname : Text.nameLength c.rest ≠ 0) :
    (⟨.identifier, String.ofList (c.rest.take (Text.nameLength c.rest)), c.place⟩ :
      Token).StandsAlone text := by
  obtain ⟨first, rest, hrest, hfirst, htake, hdrop⟩ := Text.exists_name hname
  obtain ⟨k, hk, htext, hprevious⟩ := h.on.place_at
  have hapart : c.previous.any Text.isNameChar = false := by
    refine h.apart.resolve_right fun hnone => ?_
    rw [hrest] at hnone
    exact absurd hfirst (by simpa using hnone)
  refine ⟨⟨first, rest.takeWhile Text.isNameChar, ?_, hfirst, ?_⟩,
    text.take k, c.rest.drop (Text.nameLength c.rest), ?_, ?_, ?_, ?_⟩
  · rw [String.toList_ofList, htake]
  · exact List.all_eq_true.mp List.all_takeWhile
  · rw [String.toList_ofList, List.append_assoc, List.take_append_drop, htext,
      List.take_append_drop]
  · rw [List.length_take, Nat.min_eq_left hk.within]
    exact hk
  · intro x hx
    rw [← hprevious] at hx
    rw [hx] at hapart
    exact hapart
  · intro x hx
    rw [hdrop] at hx
    have hhead := List.head?_dropWhile_not Text.isNameChar rest
    rw [hx] at hhead
    simpa using hhead

namespace Parser.Leads

variable {kind : TokenKind}

theorem skips_on : Skips (Cursor.On text) := fun _ h => h.advance _

theorem skips_fresh : Skips (Cursor.Fresh text) := fun _ h => h.skipTrivia

/-- Behind a character that belongs to no name the text goes on afresh. -/
theorem fresh_behind {c : Cursor} {x : Char} {n : Nat} (h : c.On text)
    (hlast : (c.rest.take n).getLast? = some x) (hx : Text.isNameChar x = false) :
    (c.advance n).Fresh text := by
  refine ⟨h.advance n, .inl ?_⟩
  rw [Cursor.previous_advance, hlast]
  exact hx

theorem fresh_behind_one {c : Cursor} {x : Char} (h : c.On text) (hhead : c.rest.head? = some x)
    (hx : Text.isNameChar x = false) : (c.advance 1).Fresh text := by
  obtain ⟨rest, hrest⟩ := List.head?_eq_some_iff.mp hhead
  exact fresh_behind h (by rw [hrest]; rfl) hx

theorem symbol {x : Char} (hx : Text.isNameChar x = false) :
    Leads (Cursor.On text) (symbol x) (fun _ => True) (Cursor.Fresh text) := by
  refine look skips_on fun c => ?_
  split
  · rename_i hhead
    exact take 1 fun h => fresh_behind_one h hhead hx
  · exact reject

theorem symbolToken {x : Char} (hx : Text.isNameChar x = false) (hkind : kind ≠ .identifier) :
    Leads (Cursor.On text) (symbolToken kind x) (Token.Settled text) (Cursor.Fresh text) := by
  refine look skips_on fun c => ?_
  split
  · rename_i hhead
    exact takeToken 1 (fun h => fresh_behind_one h hhead hx) fun _ => Token.settled_of_kind hkind
  · exact reject

/-- A reserved word must not touch the character behind it. -/
theorem keyword {word : String} (hkind : kind ≠ .identifier) :
    Leads (Cursor.On text) (keyword kind word) (Token.Settled text) (Cursor.Fresh text) := by
  refine look skips_on fun c => ?_
  split
  · exact reject
  split
  · exact fails
  dsimp only
  split
  · exact fails
  · rename_i hnext
    refine takeToken _ (fun h => ⟨h.advance _, .inr ?_⟩) fun _ => Token.settled_of_kind hkind
    cases hhead : (c.advance word.length).rest.head? with
    | none => rfl
    | some x =>
        rw [hhead, Option.any_some, Bool.not_eq_true] at hnext
        rw [Option.any_some]
        refine Bool.eq_false_iff.mpr fun hx => ?_
        rw [Text.isKeywordChar, Text.isNameChar_of_isNameStart hx] at hnext
        cases hnext

/-- Operators that end in no character of a name. -/
theorem operator {spellings : List String}
    (hlast : ∀ s ∈ spellings, s.toList.getLast?.all Text.isNameChar = false) :
    Leads (Cursor.On text) (operator spellings) (Token.Settled text) (Cursor.Fresh text) := by
  refine look skips_on fun c => ?_
  split
  · rename_i s hfound
    obtain ⟨x, hend, hx⟩ :=
      (Option.all_eq_false _ _).mp (hlast s (List.mem_of_find?_eq_some hfound))
    have hstarts : s.toList <+: c.rest :=
      List.isPrefixOf_iff_prefix.mp
        (List.find?_some (p := fun spelling => startsWith spelling c.rest) hfound)
    have htake : c.rest.take s.length = s.toList := by
      rw [← String.length_toList]
      exact (List.prefix_iff_eq_take.mp hstarts).symm
    exact takeToken _ (fun h => fresh_behind h (htake ▸ hend) hx)
      fun _ => Token.settled_of_kind (by decide)
  · exact reject

theorem equalSign :
    Leads (Cursor.On text) equalSign (Token.Settled text) (Cursor.Fresh text) := by
  refine look skips_on fun c => ?_
  split
  · exact reject
  · rename_i rest _ hrest
    exact takeToken 1 (fun h => fresh_behind_one h (by rw [hrest]; rfl) (by decide))
      fun _ => Token.settled_of_kind (by decide)
  · exact reject

theorem identifier :
    Leads (Cursor.Fresh text) identifier (Token.StandsAlone text) (Cursor.On text) := by
  refine look skips_fresh fun c => ?_
  dsimp only
  split
  · exact reject
  · rename_i hname
    simp only [Bool.or_eq_true, decide_eq_true_eq, not_or, Bool.not_eq_true] at hname
    exact takeToken _ (fun h => h.on.advance _) fun h => h.standsAlone hname.1

theorem numberConstant :
    Leads (Cursor.On text) numberConstant (fun found => Token.Settled text found.2)
      (Cursor.On text) := by
  refine look skips_on fun c => ?_
  dsimp only
  split
  · exact reject
  · have htoken : Leads (fun d => d = c ∧ c.On text)
        (Parser.takeToken .number (Text.Lexeme.numberLength c.rest)) (Token.Settled text)
        (Cursor.On text) :=
      takeToken _ (fun h => h.advance _) fun _ => Token.settled_of_kind (by decide)
    exact htoken.bind fun _ => pure id

theorem stringConstant :
    Leads (Cursor.On text) stringConstant (fun found => Token.Settled text found.2)
      (Cursor.On text) := by
  refine look skips_on fun c => ?_
  split
  · dsimp only
    split
    · have htake : ∀ n, Leads (fun d => d = c ∧ c.On text) (Parser.take n) (fun _ => True)
          (Cursor.On text) := fun n => take n fun h => h.advance n
      exact (htake _).bind fun _ => pure fun _ => Token.settled_of_kind (by decide)
    · exact reject
  · exact reject

theorem wordConstant {word : String} {value : Constant} :
    Leads (Cursor.On text) (wordConstant word value) (fun found => Token.Settled text found.2)
      (Cursor.On text) := by
  have htoken : Leads (Cursor.On text) (Parser.keyword .keyword word) (Token.Settled text)
      (Cursor.Fresh text) := keyword (by decide)
  exact (htoken.between (fun _ h => h) fun _ h => h.on).bind fun _ => pure id

end Parser.Leads

end Lox
