/-
Bracketed texts. A piece is an atom, the head of a function, or a bracket with a
word and its parts. Atoms hold neither blanks nor brackets nor quotes, unless they
are strings, which end at the second quote whatever they hold; so a piece can be
told from what stands behind it, and its text says which piece it is
(`Piece.text_inj`).
-/
import Lox.Syntax.Printer

namespace Lox

/-- A bracketed text. -/
inductive Piece where
  | atom (spelling : List Char)
  /-- A name, and names behind it in brackets. -/
  | signature (name : List Char) (params : List (List Char))
  | node (word : List Char) (parts : List Piece)

namespace Piece

mutual

def text : Piece → List Char
  | .atom spelling => spelling
  | .signature name params => name ++ '(' :: ([' '].intercalate params ++ [')'])
  | .node word parts => '(' :: (word ++ (textAll parts ++ [')']))

/-- Pieces with a blank before each. -/
def textAll : List Piece → List Char
  | [] => []
  | p :: rest => ' ' :: (p.text ++ textAll rest)

end

-- ================================================================= spellings

/-- A character that ends no atom. -/
def isPlain (c : Char) : Bool := c ≠ ' ' && c ≠ '(' && c ≠ ')' && c ≠ '"'

/-- A word without blanks, brackets and quotes. -/
def Plain (s : List Char) : Prop := s ≠ [] ∧ ∀ c ∈ s, isPlain c = true

instance (s : List Char) : Decidable (Plain s) :=
  decidable_of_iff (s ≠ [] ∧ s.all isPlain = true) (and_congr_right fun _ => List.all_eq_true)

/-- Characters of a kind that blanks, brackets and quotes are not of. -/
theorem isPlain_of {p : Char → Bool}
    (h : p ' ' = false ∧ p '(' = false ∧ p ')' = false ∧ p '"' = false) {c : Char}
    (hc : p c = true) : isPlain c = true := by
  obtain ⟨hblank, hopen, hclose, hquote⟩ := h
  unfold isPlain
  simp only [ne_eq, decide_not, Bool.and_eq_true, Bool.not_eq_true', decide_eq_false_iff_not]
  refine ⟨⟨⟨?_, ?_⟩, ?_⟩, ?_⟩
  all_goals
    rintro rfl
    simp_all

/-- A string in its quotes. -/
def Quoted (s : List Char) : Prop := ∃ content, s = '"' :: (content ++ ['"']) ∧ '"' ∉ content

mutual

/-- A piece whose words are what they should be. -/
def Good : Piece → Prop
  | .atom spelling => Plain spelling ∨ Quoted spelling
  | .signature name params => Plain name ∧ ∀ param ∈ params, Plain param
  | .node word parts => Plain word ∧ GoodAll parts

def GoodAll : List Piece → Prop
  | [] => True
  | p :: rest => p.Good ∧ GoodAll rest

end

theorem goodAll_iff {ps : List Piece} : GoodAll ps ↔ ∀ p ∈ ps, p.Good := by
  induction ps with
  | nil => simp [GoodAll]
  | cons p rest ih => simp [GoodAll, ih]

-- ============================================================== what follows

/-- A text that can stand behind a piece. -/
def Closes (r : List Char) : Prop := ∀ c ∈ r.head?, c = ' ' ∨ c = ')'

/-- A text that ends a plain word in front of it. -/
def Stops (r : List Char) : Prop := ∀ c ∈ r.head?, isPlain c = false

theorem Closes.stops {r : List Char} (h : Closes r) : Stops r := by
  intro c hc
  rcases h c hc with rfl | rfl
  · rfl
  · rfl

theorem closes_cons_blank (r : List Char) : Closes (' ' :: r) := by
  intro c hc
  cases hc
  exact .inl rfl

theorem closes_cons_bracket (r : List Char) : Closes (')' :: r) := by
  intro c hc
  cases hc
  exact .inr rfl

theorem stops_cons {c : Char} (h : isPlain c = false) (r : List Char) : Stops (c :: r) := by
  intro d hd
  cases hd
  exact h

/-- Characters up to the first of another kind. -/
theorem append_inj_of_takeWhile {p : Char → Bool} {s s' r r' : List Char}
    (hs : ∀ c ∈ s, p c = true) (hs' : ∀ c ∈ s', p c = true) (hr : ∀ c ∈ r.head?, p c = false)
    (hr' : ∀ c ∈ r'.head?, p c = false) (h : s ++ r = s' ++ r') : s = s' ∧ r = r' := by
  have htake : ∀ {a b : List Char}, (∀ c ∈ a, p c = true) → (∀ c ∈ b.head?, p c = false) →
      (a ++ b).takeWhile p = a := by
    intro a b ha hb
    rw [List.takeWhile_append_of_pos ha]
    cases b with
    | nil => rw [List.takeWhile_nil, List.append_nil]
    | cons c b =>
        rw [List.takeWhile_cons_of_neg (by simp [hb c rfl]), List.append_nil]
  have hsame : s = s' := by
    rw [← htake hs hr, ← htake hs' hr', h]
  subst hsame
  exact ⟨rfl, List.append_cancel_left h⟩

/-- A plain word ends where something else begins. -/
theorem Plain.append_inj {s s' r r' : List Char} (hs : Plain s) (hs' : Plain s') (hr : Stops r)
    (hr' : Stops r') (h : s ++ r = s' ++ r') : s = s' ∧ r = r' :=
  append_inj_of_takeWhile hs.2 hs'.2 hr hr' h

/-- A string ends at its second quote. -/
theorem Quoted.append_inj {s s' r r' : List Char} (hs : Quoted s) (hs' : Quoted s')
    (h : s ++ r = s' ++ r') : s = s' ∧ r = r' := by
  obtain ⟨content, rfl, hcontent⟩ := hs
  obtain ⟨content', rfl, hcontent'⟩ := hs'
  have hinner : content ++ '"' :: r = content' ++ '"' :: r' := by simpa using h
  have hfree : ∀ {l : List Char}, '"' ∉ l → ∀ c ∈ l, (decide (c ≠ '"')) = true := by
    intro l hl c hc
    exact decide_eq_true fun he => hl (he ▸ hc)
  have hquote : ∀ l : List Char, ∀ c ∈ ('"' :: l).head?, decide (c ≠ '"') = false := by
    intro l c hc
    cases hc
    rfl
  obtain ⟨rfl, hrest⟩ :=
    append_inj_of_takeWhile (hfree hcontent) (hfree hcontent') (hquote r) (hquote r') hinner
  exact ⟨rfl, (List.cons.inj hrest).2⟩

theorem Plain.head {s : List Char} (h : Plain s) : ∃ c rest, s = c :: rest ∧ isPlain c = true := by
  cases s with
  | nil => exact absurd rfl h.1
  | cons c rest => exact ⟨c, rest, rfl, h.2 c List.mem_cons_self⟩

/-- Names with blanks between them. -/
theorem intercalate_inj {names names' : List (List Char)} (h : ∀ s ∈ names, Plain s)
    (h' : ∀ s ∈ names', Plain s) (heq : [' '].intercalate names = [' '].intercalate names') :
    names = names' := by
  have hblank : ∀ {l : List (List Char)}, (∀ s ∈ l, Plain s) → ∀ s ∈ l, ' ' ∉ s := by
    intro l hl s hs hmem
    have := (hl s hs).2 ' ' hmem
    cases this
  have hnil : ∀ {l : List (List Char)}, (∀ s ∈ l, Plain s) → [' '].intercalate l = [] → l = [] := by
    intro l hl hempty
    cases l with
    | nil => rfl
    | cons s rest =>
        have hs := (hl s List.mem_cons_self).1
        cases rest with
        | nil => simp [List.intercalate] at hempty; exact absurd hempty hs
        | cons t rest => simp [List.intercalate] at hempty
  by_cases hn : names = []
  · subst hn
    exact (hnil h' heq.symm).symm
  · have hn' : names' ≠ [] := by
      rintro rfl
      exact hn (hnil h heq)
    rw [← List.splitOn_intercalate ' ' (hblank h) hn, heq,
      List.splitOn_intercalate ' ' (hblank h') hn']

-- ========================================================= unique decoding

/-- There is no bracket among names. -/
theorem no_bracket_intercalate : ∀ {names : List (List Char)}, (∀ s ∈ names, Plain s) →
    ∀ c ∈ [' '].intercalate names, decide (c ≠ ')') = true := by
  have hplain : ∀ {s : List Char}, Plain s → ∀ c ∈ s, decide (c ≠ ')') = true := by
    intro s hs c hc
    refine decide_eq_true fun he => ?_
    subst he
    cases hs.2 ')' hc
  intro names h c hc
  induction names with
  | nil => cases hc
  | cons s rest ih =>
      obtain ⟨hs, hrest⟩ := List.forall_mem_cons.mp h
      cases rest with
      | nil => exact hplain hs c (by simpa using hc)
      | cons t rest =>
          rw [List.intercalate_cons_cons, List.mem_append, List.mem_append] at hc
          rcases hc with (hc | hc) | hc
          · exact hplain hs c hc
          · rw [List.mem_singleton.mp hc]
            decide
          · exact ih hrest hc

theorem signature_inj {name name' : List Char} {params params' : List (List Char)}
    (h : (Piece.signature name params).Good) (h' : (Piece.signature name' params').Good)
    {r r' : List Char}
    (heq : (Piece.signature name params).text ++ r = (Piece.signature name' params').text ++ r') :
    Piece.signature name params = .signature name' params' ∧ r = r' := by
  simp only [text, List.append_assoc, List.cons_append] at heq
  obtain ⟨rfl, hrest⟩ := h.1.append_inj h'.1 (stops_cons (by decide) _) (stops_cons (by decide) _) heq
  have hrest := (List.cons.inj hrest).2
  have hends : ∀ l : List Char, ∀ c ∈ (')' :: l).head?, decide (c ≠ ')') = false := by
    intro l c hc
    cases hc
    rfl
  obtain ⟨hparams, hbehind⟩ := append_inj_of_takeWhile (no_bracket_intercalate h.2)
    (no_bracket_intercalate h'.2) (hends r) (hends r') (by simpa using hrest)
  rw [intercalate_inj h.2 h'.2 hparams]
  exact ⟨rfl, (List.cons.inj hbehind).2⟩

/-- Kinds of pieces begin with different characters, but for names that may go on in brackets. -/
theorem atom_inj {spelling : List Char} {q : Piece} (h : (Piece.atom spelling).Good) (hq : q.Good)
    {r r' : List Char} (hr : Closes r) (hr' : Closes r')
    (heq : (Piece.atom spelling).text ++ r = q.text ++ r') :
    Piece.atom spelling = q ∧ r = r' := by
  cases q with
  | atom spelling' =>
      have hinj : spelling = spelling' ∧ r = r' := by
        rcases h with h | h
        · rcases hq with hq | ⟨content, hq, -⟩
          · exact h.append_inj hq hr.stops hr'.stops heq
          · obtain ⟨c, rest, rfl, hc⟩ := h.head
            subst hq
            cases (List.cons.inj heq).1
            cases hc
        · rcases hq with hq | hq
          · obtain ⟨content, rfl, -⟩ := h
            obtain ⟨c, rest, rfl, hc⟩ := hq.head
            cases (List.cons.inj heq).1
            cases hc
          · exact h.append_inj hq heq
      rw [hinj.1]
      exact ⟨rfl, hinj.2⟩
  | signature name params =>
      exfalso
      simp only [text, List.append_assoc, List.cons_append] at heq
      rcases h with h | ⟨content, rfl, -⟩
      · obtain ⟨-, hrest⟩ := h.append_inj hq.1 hr.stops (stops_cons (by decide) _) heq
        subst hrest
        rcases hr '(' rfl with h | h
        · cases h
        · cases h
      · obtain ⟨c, rest, rfl, hc⟩ := hq.1.head
        cases (List.cons.inj heq).1
        cases hc
  | node word parts =>
      exfalso
      rcases h with h | ⟨content, rfl, -⟩
      · obtain ⟨c, rest, rfl, hc⟩ := h.head
        cases (List.cons.inj heq).1
        cases hc
      · cases (List.cons.inj heq).1

theorem stops_textAll (ps : List Piece) (r : List Char) : Stops (textAll ps ++ ')' :: r) := by
  cases ps with
  | nil => exact stops_cons (by decide) _
  | cons p rest => exact stops_cons (by decide) _

theorem closes_textAll (ps : List Piece) (r : List Char) : Closes (textAll ps ++ ')' :: r) := by
  cases ps with
  | nil => exact closes_cons_bracket _
  | cons p rest => exact closes_cons_blank _

mutual

/-- The text of a piece says which piece it is and where it ends. -/
theorem text_inj : ∀ {p q : Piece}, p.Good → q.Good → ∀ {r r' : List Char}, Closes r → Closes r' →
    p.text ++ r = q.text ++ r' → p = q ∧ r = r'
  | .atom _, _, h, hq, _, _, hr, hr', heq => atom_inj h hq hr hr' heq
  | .signature .., .atom _, h, hq, _, _, hr, hr', heq =>
      have hinj := atom_inj hq h hr' hr heq.symm
      ⟨hinj.1.symm, hinj.2.symm⟩
  | .signature .., .signature .., h, hq, _, _, _, _, heq => signature_inj h hq heq
  | .signature name params, .node word parts, h, _, _, _, _, _, heq => by
      exfalso
      obtain ⟨c, rest, rfl, hc⟩ := h.1.head
      cases (List.cons.inj heq).1
      cases hc
  | .node .., .atom _, h, hq, _, _, hr, hr', heq =>
      have hinj := atom_inj hq h hr' hr heq.symm
      ⟨hinj.1.symm, hinj.2.symm⟩
  | .node word parts, .signature name params, _, hq, _, _, _, _, heq => by
      exfalso
      obtain ⟨c, rest, rfl, hc⟩ := hq.1.head
      cases (List.cons.inj heq).1
      cases hc
  | .node word parts, .node word' parts', h, hq, r, r', _, _, heq => by
      simp only [text, List.cons_append, List.append_assoc, List.nil_append] at heq
      obtain ⟨rfl, hparts⟩ := h.1.append_inj hq.1 (stops_textAll _ _) (stops_textAll _ _)
        (List.cons.inj heq).2
      obtain ⟨rfl, hrest⟩ := textAll_inj h.2 hq.2 hparts
      exact ⟨rfl, hrest⟩

theorem textAll_inj : ∀ {ps qs : List Piece}, GoodAll ps → GoodAll qs → ∀ {r r' : List Char},
    textAll ps ++ ')' :: r = textAll qs ++ ')' :: r' → ps = qs ∧ r = r'
  | [], [], _, _, _, _, heq => ⟨rfl, (List.cons.inj heq).2⟩
  | [], _ :: _, _, _, _, _, heq => by cases (List.cons.inj heq).1
  | _ :: _, [], _, _, _, _, heq => by cases (List.cons.inj heq).1
  | p :: ps, q :: qs, h, hq, r, r', heq => by
      simp only [textAll, List.cons_append, List.append_assoc] at heq
      obtain ⟨rfl, hrest⟩ := text_inj h.1 hq.1 (closes_textAll _ _) (closes_textAll _ _)
        (List.cons.inj heq).2
      obtain ⟨rfl, hbehind⟩ := textAll_inj h.2 hq.2 hrest
      exact ⟨rfl, hbehind⟩

end

/-- Pieces of one text are the same. -/
theorem eq_of_text {p q : Piece} (h : p.Good) (hq : q.Good) (heq : p.text = q.text) : p = q := by
  have hend : Closes [] := nofun
  have hboth : p.text ++ [] = q.text ++ [] := congrArg (· ++ []) heq
  exact (text_inj h hq hend hend hboth).1

end Piece

end Lox
