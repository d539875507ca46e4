/-
Diagnostics come in the order of the text. Recovery goes on strictly behind the
fault that it put on record, unless the text is used up there, so the next fault
lies further on. At the end of the text every construct that is still open reports
what it misses, each at the same place (`unclosed_reported_each`).

One refusal comes late. A function with too many parameters is refused at its name
when its body has been read, whatever faults that body put on record; nothing is
said about what this does to the order.

Expressions put nothing on record. Of them it is enough to know that they fail no
further to the left than where they began (`Parser.Invariant.beyond`); declarations
then keep the record in order (`Parser.Invariant.ordered`).
-/
import Lox.Proofs.Position.Faithful

namespace Lox

variable {text : List Char}

-- ============================================================ order of places

namespace Text

/-- Of two offsets of a text the later one is on a later line, or on the same line further to the
right. -/
theorem place_lt {j k : Nat} (hjk : j < k) (hk : k ≤ text.length) :
    lineAt text j < lineAt text k
      ∨ lineAt text j = lineAt text k ∧ columnAt text j < columnAt text k := by
  induction k with
  | zero => cases hjk
  | succ k ih =>
      obtain ⟨c, rest, hdrop⟩ : ∃ c rest, text.drop k = c :: rest :=
        List.exists_cons_of_length_pos (by rw [List.length_drop]; omega)
      -- The step from `k` to the next offset, and all before it.
      have hstep : lineAt text k < lineAt text (k + 1)
          ∨ lineAt text k = lineAt text (k + 1) ∧ columnAt text k < columnAt text (k + 1) := by
        rw [lineAt_succ hdrop, columnAt_succ hdrop]
        by_cases hc : c = '\n'
        · rw [if_pos hc]
          exact .inl (Nat.lt_succ_self _)
        · rw [if_neg hc, if_neg hc]
          exact .inr ⟨rfl, Nat.lt_succ_self _⟩
      rcases Nat.lt_succ_iff_lt_or_eq.mp hjk with hjk | rfl
      · have := ih hjk (by omega)
        omega
      · exact hstep

end Text

/-- The one report lies strictly before the other. -/
def Diagnostic.Precedes (d d' : Diagnostic) : Prop :=
  d.line < d'.line ∨ d.line = d'.line ∧ d.column < d'.column

/-- A report on the end of the text. -/
def Diagnostic.AtEnd (text : List Char) (d : Diagnostic) : Prop :=
  d.line = Text.lineAt text text.length ∧ d.column = Text.columnAt text text.length

theorem Place.On.bounds {p : Place} (h : p.On text) : 0 ≤ p.offset ∧ p.offset ≤ text.length := by
  obtain ⟨k, hk⟩ := h
  have := hk.within
  rw [hk.offset]
  omega

-- =============================================================== expressions

/-- Nothing lies to the left of where an expression begins, but for keywords that touch the
character before them. -/
def Parser.Invariant.beyond (text : List Char) (low : Nat) : Parser.Invariant where
  state c _ := c.On text ∧ low ≤ c.offset
  failure e _ := e.fault.place.On text ∧ (low : Int) ≤ e.fault.place.offset
  lenient e := e.fault.place.On text
  token t := t.place.On text ∧ (low : Int) ≤ t.place.offset
  place p := p.On text ∧ (low : Int) ≤ p.offset
  advance h n := ⟨h.1.advance n, Nat.le_trans h.2 (Cursor.offset_le_advance _ n)⟩
  placed h := ⟨h.1.place_on, Int.ofNat_le.mpr h.2⟩
  marked h := h
  missing h _ := ⟨h.1.place_on, Int.ofNat_le.mpr h.2⟩
  followed h _ := ⟨h.1.place_on, Int.ofNat_le.mpr h.2⟩
  preceded h _ touches := by
    obtain ⟨x, hx, hkeyword⟩ := Option.any_eq_true _ _ |>.mp touches
    exact .inr (h.1.before_on hx (Text.ne_newline_of_isKeywordChar hkeyword))
  taken h _ _ _ := ⟨h.1.place_on, Int.ofNat_le.mpr h.2⟩
  named h _ _ := ⟨h.1.place_on, Int.ofNat_le.mpr h.2⟩
  quoted h _ _ := ⟨h.1.place_on, Int.ofNat_le.mpr h.2⟩
  committed h := h
  renamed h _ _ := h
  further := by
    intro a b r ha hb _
    have hb : b.fault.place.On text := hb.elim And.left id
    unfold Failure.further
    dsimp only
    constructor
    · split
      · exact ⟨hb, by omega⟩
      · exact ha
    · split
      · exact ha
      · exact ⟨hb, by omega⟩
  recovered h he := by
    refine ⟨(h.1.skipGap.advance _).resume, ?_⟩
    exact Nat.le_trans h.2 (Nat.le_trans (Cursor.offset_le_advance _ _)
      (Nat.le_trans (Cursor.offset_le_advance _ _) (Cursor.offset_le_resume _)))

theorem Parser.Invariant.refuses_beyond {low : Nat} (cause : FaultCause) :
    (Parser.Invariant.beyond text low).Refuses cause := fun hplace _ => hplace

-- ============================================================== declarations

/-- The last fault on record lies before an offset, or both lie at the end of the text. -/
def Fault.AllBefore (text : List Char) (r : List Fault) (offset : Int) : Prop :=
  ∀ f ∈ r.getLast?, f.place.offset < offset
    ∨ f.place.offset = text.length ∧ offset = text.length

/-- How a fault may follow another one. -/
def Fault.Follows (text : List Char) (f g : Fault) : Prop :=
  f.place.offset < g.place.offset
    ∨ f.place.offset = text.length ∧ g.place.offset = text.length
    ∨ g.cause = .tooManyParameters

theorem Fault.AllBefore.mono {r : List Fault} {o o' : Int} (h : Fault.AllBefore text r o)
    (hle : o ≤ o') (hend : o' ≤ text.length) : Fault.AllBefore text r o' := by
  intro f hf
  rcases h f hf with h | ⟨hf, ho⟩
  · exact .inl (by omega)
  · exact .inr ⟨hf, by omega⟩

theorem Fault.isChain_concat {r : List Fault} {e : Fault} (h : r.IsChain (Fault.Follows text))
    (he : Fault.AllBefore text r e.place.offset ∨ e.cause = .tooManyParameters) :
    (r ++ [e]).IsChain (Fault.Follows text) := by
  refine List.isChain_append.mpr ⟨h, .singleton e, fun f hf g hg => ?_⟩
  cases hg
  rcases he with he | he
  · rcases he f hf with h | h
    · exact .inl h
    · exact .inr (.inl h)
  · exact .inr (.inr he)

/-- The faults on record are in order, and reading goes on behind all of them. Declarations that
fail lie behind them as well, but for a function that is refused at its name. -/
def Parser.Invariant.ordered (text : List Char) : Parser.Invariant where
  state c r := c.On text ∧ r.IsChain (Fault.Follows text) ∧ Fault.AllBefore text r c.offset
  failure e r := e.fault.place.On text ∧ r.IsChain (Fault.Follows text)
    ∧ (Fault.AllBefore text r e.fault.place.offset
      ∨ e.weight ≠ .soft ∧ e.fault.cause = .tooManyParameters)
  lenient e := e.fault.place.On text
  token t := t.place.On text
  place p := p.On text
  advance h n := ⟨h.1.advance n, h.2.1, h.2.2.mono (Int.ofNat_le.mpr (Cursor.offset_le_advance _ n))
    (h.1.advance n).place_on.bounds.2⟩
  placed h := h.1.place_on
  marked h := h
  missing h _ := ⟨h.1.place_on, h.2.1, .inl h.2.2⟩
  followed h _ := ⟨h.1.place_on, h.2.1, .inl h.2.2⟩
  preceded h _ touches := by
    obtain ⟨x, hx, hkeyword⟩ := Option.any_eq_true _ _ |>.mp touches
    exact .inr (h.1.before_on hx (Text.ne_newline_of_isKeywordChar hkeyword))
  taken h _ _ _ := h.1.place_on
  named h _ _ := h.1.place_on
  quoted h _ _ := h.1.place_on
  committed h := ⟨h.1, h.2.1, h.2.2.imp_right fun h => ⟨nofun, h.2⟩⟩
  renamed h soft _ := ⟨h.1, h.2.1, .inl (h.2.2.resolve_right fun h => h.1 soft)⟩
  further := by
    intro a b r ha hb hsoft
    have hon : b.fault.place.On text := hb.elim And.left id
    have hbefore := ha.2.2.resolve_right fun h => h.1 hsoft
    -- Of two failures the one that lies further on is behind the record if the other one is.
    have hbehind : a.fault.place.offset ≤ b.fault.place.offset →
        Fault.AllBefore text r b.fault.place.offset := fun hle => hbefore.mono hle hon.bounds.2
    unfold Failure.further
    dsimp only
    constructor
    · split
      · exact ⟨hon, ha.2.1, .inl (hbehind (by omega))⟩
      · exact ha
    · split
      · exact ha
      · exact ⟨hon, ha.2.1, .inl (hbehind (by omega))⟩
  recovered := by
    intro c r r' e h he
    have hresumed := (h.1.skipGap.advance (e.fault.place.offset - c.skipGap.offset).toNat).resume
    refine ⟨hresumed, Fault.isChain_concat he.2.1 (he.2.2.imp_right And.right), fun f hf => ?_⟩
    rw [List.getLast?_concat] at hf
    cases hf
    -- The cursor goes to the fault, and from there on unless the text is used up.
    have hreached := h.1.skipGap.advance (e.fault.place.offset - c.skipGap.offset).toNat
    have hlength := hreached.offset_add_length
    have hon := he.1.bounds
    have hat : e.fault.place.offset
        ≤ (c.skipGap.advance (e.fault.place.offset - c.skipGap.offset).toNat).offset := by
      have := h.1.skipGap.offset_add_length
      rw [Cursor.offset_advance]
      omega
    have hend := hresumed.offset_add_length
    have hle := Cursor.offset_le_resume
      (c.skipGap.advance (e.fault.place.offset - c.skipGap.offset).toNat)
    by_cases hrest :
        (c.skipGap.advance (e.fault.place.offset - c.skipGap.offset).toNat).rest = []
    · rw [hrest, List.length_nil] at hlength
      by_cases hsame : e.fault.place.offset = text.length
      · exact .inr ⟨hsame, by omega⟩
      · exact .inl (by omega)
    · have := Cursor.offset_lt_resume hrest
      exact .inl (by omega)

theorem Parser.Invariant.refuses_tooManyParameters :
    (Parser.Invariant.ordered text).Refuses .tooManyParameters := fun hplace hstate =>
  ⟨hplace, hstate.2.1, .inr ⟨nofun, rfl⟩⟩

/-- An expression puts nothing on record, and lies behind what is on record where it begins. -/
theorem Parser.upholds_ordered_assignment (depth : Nat) :
    Upholds (.ordered text) false (Invariant.ordered text).expr (assignment depth) := by
  intro s hs
  have hbeyond := Upholds.assignment (Invariant.refuses_beyond .tooManyArguments)
    (Invariant.refuses_beyond .invalidTarget) depth s ⟨hs.1, Nat.le_refl s.cursor.offset⟩
  have hsteady := Steady.assignment depth
  refine ⟨fun {e t} hrun => ?_, fun {e t} hrun => ?_⟩
  · obtain ⟨⟨hon, hle⟩, htokens⟩ := hbeyond.ok hrun
    refine ⟨?_, fun token htoken => (htokens token htoken).1⟩
    rw [hsteady.of_ok hrun]
    exact ⟨hon, hs.2.1, hs.2.2.mono (Int.ofNat_le.mpr hle) hon.place_on.bounds.2⟩
  · obtain ⟨hon, hle⟩ := (hbeyond.error hrun).strict
    refine .inl ?_
    rw [hsteady.of_error hrun]
    exact ⟨hon, hs.2.1, .inl (hs.2.2.mono hle hon.bounds.2)⟩

/-- The faults of a text, one behind the other. -/
theorem follows_of_rejected {nextId : NodeId} {faults : List Fault}
    (h : (readProgram text nextId).program = .error faults) :
    faults.IsChain (Fault.Follows text) := by
  have hprogram : Parser.Upholds (.ordered text) false (Parser.Invariant.ordered text).body
      (Parser.program (text.length + 1)) :=
    .program Parser.Invariant.refuses_tooManyParameters (Parser.upholds_ordered_assignment _)
  rcases hprogram.rejected ⟨Cursor.on_start text, .nil, nofun⟩ h with
    ⟨e, r, he, rfl⟩ | ⟨c, hc⟩
  · exact Fault.isChain_concat he.2.1 (he.2.2.imp_right And.right)
  · exact hc.2.1

-- =============================================================== diagnostics

/-- Faults that follow each other are reported at places that do. -/
theorem Fault.Follows.report {f g : Fault} (h : f.Follows text g) (hf : f.place.On text)
    (hg : g.place.On text) :
    (f.diagnostic text).Precedes (g.diagnostic text)
      ∨ (f.diagnostic text).AtEnd text ∧ (g.diagnostic text).AtEnd text
      ∨ (g.diagnostic text).message = FaultCause.tooManyParameters.message := by
  obtain ⟨j, hj⟩ := hf
  obtain ⟨k, hk⟩ := hg
  rcases h with h | ⟨hend, hend'⟩ | h
  · rw [hj.offset, hk.offset] at h
    have hlt := Text.place_lt (Int.ofNat_lt.mp h) hk.within
    refine .inl ?_
    show f.place.line < g.place.line
      ∨ f.place.line = g.place.line ∧ f.place.column < g.place.column
    rw [hj.line, hk.line, hj.column, hk.column]
    omega
  · rw [hj.offset] at hend
    rw [hk.offset] at hend'
    obtain rfl : j = text.length := by omega
    obtain rfl : k = text.length := by omega
    exact .inr (.inl ⟨⟨hj.line, hj.column⟩, hk.line, hk.column⟩)
  · refine .inr (.inr ?_)
    show g.cause.message = _
    rw [h]

/-- In the list of a text's diagnostics each lies strictly behind the one before it. Several may lie
at the end of the text, and nothing is said of a function that is refused for its parameters. -/
theorem reports_in_order (text : List Char) (nextId : NodeId) (faults : List Fault)
    (h : (readProgram text nextId).program = .error faults) :
    (faultReports text faults).IsChain fun d d' =>
      d.Precedes d' ∨ d.AtEnd text ∧ d'.AtEnd text
        ∨ d'.message = FaultCause.tooManyParameters.message := by
  have hon := onText_of_rejected h
  refine (List.isChain_map _).mpr ((follows_of_rejected h).imp_of_mem_imp fun f g hf hg hfg => ?_)
  exact hfg.report (hon f hf) (hon g hg)

/-- Faults in blocks, a class and a function, and nothing closed at the end. -/
def untidyText : List Char :=
  "\x7b var = 1; \x7d\n1 = 2;\nclass A \x7b m() \x7b print ; \x7d n; \x7d\nfun f() \x7b return 3".toList

theorem reports_in_order_untidy :
    ∃ faults, (readProgram untidyText 0).program = .error faults
      ∧ (faultReports untidyText faults).map (fun d => (d.line, d.column, d.message))
        = [(1, 7, "Expected identifier"), (2, 3, "Invalid assignment target."),
          (3, 23, "Expected expression"), (3, 27, "Expected '\x7d'"),
          (3, 30, "Expected declaration"), (4, 19, "Expected ';'"), (4, 19, "Expected '\x7d'")]
      ∧ (faultReports untidyText faults).IsChain fun d d' =>
        d.Precedes d' ∨ d.AtEnd untidyText ∧ d'.AtEnd untidyText
          ∨ d'.message = FaultCause.tooManyParameters.message := by
  have hreported : reported untidyText
      = [(1, 7, "Expected identifier"), (2, 3, "Invalid assignment target."),
        (3, 23, "Expected expression"), (3, 27, "Expected '\x7d'"),
        (3, 30, "Expected declaration"), (4, 19, "Expected ';'"), (4, 19, "Expected '\x7d'")] := by
    decide +kernel
  obtain ⟨faults, hfaults, hitems⟩ := exists_reported hreported nofun
  exact ⟨faults, hfaults, hitems, reports_in_order untidyText 0 faults hfaults⟩

/-- Every block that is still open at the end of the text reports that it is, so two reports may lie
at one place. -/
theorem unclosed_reported_each :
    ∃ faults, (readProgram "\x7b\x7b".toList 0).program = .error faults
      ∧ (faultReports "\x7b\x7b".toList faults).map (fun d => (d.line, d.column, d.message))
        = [(1, 3, "Expected '\x7d'"), (1, 3, "Expected '\x7d'")]
      ∧ ¬ (faultReports "\x7b\x7b".toList faults).IsChain Diagnostic.Precedes := by
  have hreported : reported "\x7b\x7b".toList
      = [(1, 3, "Expected '\x7d'"), (1, 3, "Expected '\x7d'")] := by decide +kernel
  obtain ⟨faults, hfaults, hitems⟩ := exists_reported hreported nofun
  refine ⟨faults, hfaults, hitems, fun hchain => ?_⟩
  -- The order of the reports is one of their lines and columns.
  have hplaces : ((faultReports "\x7b\x7b".toList faults).map
      fun d => (d.line, d.column, d.message)).IsChain
        fun p q => p.1 < q.1 ∨ p.1 = q.1 ∧ p.2.1 < q.2.1 :=
    (List.isChain_map _).mpr hchain
  rw [hitems] at hplaces
  rcases List.isChain_pair.mp hplaces with h | ⟨-, h⟩
  · exact absurd h (by decide)
  · exact absurd h (by decide)

end Lox
