/-
From one cursor to the next. What a rule of the grammar may read depends on where it
begins, and what may come behind it on where it ends. `Leads` says both at once: begun
where `pre` holds, a reader that succeeds reads something good and ends where `post`
holds. There is one lemma for each combinator, so that such a claim about a rule is
put together as the rule is.

As in every contract (`Does`), nothing is promised about a reader that puts a fault on
record. What is known of the first of two things read is therefore no hypothesis of
the second reader, which may have to go on behind a fault, but a premise of what is
claimed at the end (`Leads.bind`).
-/
import Lox.Proofs.Reading.Statement

namespace Lox.Parser

variable {α β : Type}

/-- Where `pre` holds of the cursor, the reader reads what is good and ends where `post` holds. -/
def Leads (pre : Cursor → Prop) (p : Parser α) (good : α → Prop) (post : Cursor → Prop) : Prop :=
  Does p fun a s t => pre s.cursor → good a ∧ post t.cursor

/-- What holds of a cursor holds behind the trivia as well. -/
def Skips (pre : Cursor → Prop) : Prop := ∀ c, pre c → pre c.skipTrivia

namespace Leads

variable {pre mid post : Cursor → Prop} {p : Parser α} {f : α → Parser β} {good : α → Prop}
  {better : β → Prop}

theorem mono {pre' post' : Cursor → Prop} {good' : α → Prop} (hp : Leads pre p good post)
    (hpre : ∀ c, pre' c → pre c) (hgood : ∀ a, good a → good' a) (hpost : ∀ c, post c → post' c) :
    Leads pre' p good' post' :=
  Does.mono hp fun _ _ _ h hs => (h (hpre _ hs)).imp (hgood _) (hpost _)

/-- Where more is known of the cursor at the start, and less is asked of it at the end. -/
theorem between {pre' post' : Cursor → Prop} (hp : Leads pre p good post)
    (hpre : ∀ c, pre' c → pre c) (hpost : ∀ c, post c → post' c) : Leads pre' p good post' :=
  hp.mono hpre (fun _ h => h) hpost

/-- Where less is asked of what is read. -/
theorem imp {good' : α → Prop} (hp : Leads pre p good post) (h : ∀ a, good a → good' a) :
    Leads pre p good' post :=
  hp.mono (fun _ h => h) h fun _ h => h

theorem pure {a : α} (h : good a) : Leads pre (pure a) good pre :=
  (Does.pure a).mono fun _ _ _ hrun hs => by
    obtain ⟨rfl, rfl⟩ := hrun
    exact ⟨h, hs⟩

theorem bind (hp : Leads pre p good mid)
    (hf : ∀ a, Leads mid (f a) (fun b => good a → better b) post) :
    Leads pre (p >>= f) better post :=
  (Does.bind hp hf).mono fun _ _ _ ⟨_, _, hfirst, hrest⟩ hs =>
    have h := hfirst hs
    have h' := hrest h.2
    ⟨h'.1 h.1, h'.2⟩

theorem fails {weight : Weight} {cause : FaultCause} {place : Place} :
    Leads pre (failAt weight cause place) good post :=
  (Does.failAt _ _ _).mono fun _ _ _ h => h.elim

theorem reject {what : Expectation} : Leads pre (reject what) good post :=
  (Does.reject _).mono fun _ _ _ h => h.elim

theorem committed (hp : Leads pre p good post) : Leads pre (committed p) good post :=
  Does.committed hp

theorem skipTrivia (hpre : Skips pre) : Leads pre skipTrivia (fun _ => True) pre :=
  Does.skipTrivia.mono fun _ s _ h hs => by
    subst h
    exact ⟨trivial, hpre _ hs⟩

theorem freshId : Leads pre freshId (fun _ => True) pre :=
  Does.freshId.mono fun _ _ _ h hs => by
    obtain ⟨-, rfl⟩ := h
    exact ⟨trivial, hs⟩

/-- Where nothing is read the cursor is put back. -/
theorem optional (hp : Leads pre p good post) (hpre : ∀ c, pre c → post c) :
    Leads pre (optional p) (fun found => ∀ a ∈ found, good a) post := by
  refine (Does.optional hp).mono fun found s t ⟨hsome, hnone⟩ hs => ?_
  cases found with
  | none =>
      rw [(hnone rfl).1]
      exact ⟨nofun, hpre _ hs⟩
  | some a =>
      have h := (hsome a rfl).1 hs
      refine ⟨fun b hb => ?_, h.2⟩
      cases hb
      exact h.1

theorem of_row {as : List α} {s t : Progress}
    (h : Does.Row (fun a s t => pre s.cursor → good a ∧ pre t.cursor) as s t) (hs : pre s.cursor) :
    (∀ a ∈ as, good a) ∧ pre t.cursor := by
  induction h with
  | nil same => exact ⟨nofun, same ▸ hs⟩
  | cons first _ ih =>
      have hfirst := first hs
      have hrest := ih hfirst.2
      exact ⟨List.forall_mem_cons.mpr ⟨hfirst.1, hrest.1⟩, hrest.2⟩

/-- Every round begins where the one before it ended. -/
theorem many (hp : Leads pre p good pre) :
    Leads pre (many p) (fun found => ∀ a ∈ found, good a) pre :=
  (Does.many hp).mono fun _ _ _ hrow hs => of_row hrow hs

theorem firstOf {ps : List (Parser α)} (hps : ∀ p ∈ ps, Leads pre p good post) :
    Leads pre (firstOf none ps) good post :=
  (Does.firstOf _ hps none).mono fun _ _ _ ⟨_, hcursor, _, h⟩ hs => h (hcursor ▸ hs)

theorem choice {name : Expectation} {ps : List (Parser α)} (hpre : Skips pre)
    (hps : ∀ p ∈ ps, Leads pre p good post) : Leads pre (choice name ps) good post :=
  (Does.choice name _ hps).mono fun _ _ _ ⟨_, hcursor, _, h⟩ hs => h (hcursor ▸ hpre _ hs)

/-- A reader that passes trivia and looks at the text. -/
theorem look {k : Cursor → Parser α} (hpre : Skips pre)
    (hk : ∀ c, Leads (fun d => d = c ∧ pre c) (k c) good post) :
    Leads pre (do let _ ← Parser.skipTrivia; let cursor ← Parser.here; k cursor) good post := by
  refine (does_look (fun a s t => pre s.cursor → good a ∧ post t.cursor) fun c => ?_).mono
    fun _ s _ h hs => h (hpre _ hs)
  exact Does.mono (hk c) fun _ _ _ h hc hs => h ⟨hc, hc ▸ hs⟩

/-- Passing some characters of the text. -/
theorem take {c : Cursor} (n : Nat) (hpost : pre c → post (c.advance n)) :
    Leads (fun d => d = c ∧ pre c) (take n) (fun _ => True) post :=
  (Does.take n).mono fun _ s _ h hs => by
    subst h
    obtain ⟨rfl, hs⟩ := hs
    exact ⟨trivial, hpost hs⟩

theorem takeToken {c : Cursor} {kind : TokenKind} {good : Token → Prop} (n : Nat)
    (hpost : pre c → post (c.advance n))
    (hgood : pre c → good ⟨kind, String.ofList (c.rest.take n), c.place⟩) :
    Leads (fun d => d = c ∧ pre c) (takeToken kind n) good post :=
  (does_takeToken kind n).mono fun _ _ _ ⟨htoken, hend⟩ ⟨hcursor, hs⟩ => by
    subst htoken hend hcursor
    exact ⟨hgood hs, hpost hs⟩

/-- One declaration, of which nothing is known when it fails. -/
theorem recovering {declaration : Parser Stmt} {good : Stmt → Prop} (closer : Option Char)
    (hpre : Skips pre) (hd : Leads pre declaration good post) :
    Leads pre (recovering closer declaration) (fun found => ∀ a ∈ found, good a) post := by
  refine (Does.recovering closer hd).mono fun o s t ⟨a, ho, h⟩ hs => ?_
  subst ho
  have h := h (hpre _ hs)
  refine ⟨fun b hb => ?_, h.2⟩
  cases hb
  exact h.1

end Leads

end Lox.Parser
