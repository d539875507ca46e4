/-
How rules number their nodes. A reader that finds some nodes built and succeeds leaves
others built (`Parser.Makes`): those it found are still there, or went into new ones, or
were taken apart. There is one lemma for each combinator and one for each rule of the
grammar, which says what the rule makes where nothing is built; whatever else was built
before stays in front of it (`Makes.behind`).

Words are no nodes. All that a rule of words leaves built is what it found, however
many numbers were handed out on the way.
-/
import Lox.Proofs.Numbering.Lineage
import Lox.Proofs.Reading.Program

namespace Lox.Parser

open Lineage (Built)

variable {α β : Type}

/-- A success takes back no number. -/
theorem Does.with_ids {p : Parser α} {post : α → Progress → Progress → Prop} (hp : Does p post) :
    Does p fun a s t => post a s t ∧ s.nextId ≤ t.nextId := by
  intro s
  cases hrun : p s with
  | ok a t => exact ⟨hp.grown hrun, fun hclean => ⟨hp.holds hrun hclean, (hp.grown hrun).ids⟩⟩
  | error e t => exact hp.grown_error hrun

/-- Where the nodes `given` are built, a reader that succeeds leaves the nodes `view` of what it
reads built. -/
def Makes (given : List Lineage) (p : Parser α) (view : α → List Lineage) : Prop :=
  Does p fun a s t => ∀ low, Built low s.nextId given → Built low t.nextId (view a)

namespace Makes

variable {given : List Lineage} {p : Parser α} {f : α → Parser β} {view : α → List Lineage}
  {after : β → List Lineage}

-- ============================================================ the combinators

theorem pure {a : α} (h : ∀ low high, Built low high given → Built low high (view a)) :
    Makes given (pure a) view :=
  (Does.pure a).mono fun _ _ _ hrun low hs => by
    obtain ⟨rfl, rfl⟩ := hrun
    exact h low _ hs

/-- The same nodes, perhaps in another order. -/
theorem pure_perm {a : α} (h : (view a).Perm given) : Makes given (Pure.pure a) view :=
  pure fun _ _ hbuilt => hbuilt.perm h

theorem bind (hp : Makes given p view) (hf : ∀ a, Makes (view a) (f a) after) :
    Makes given (p >>= f) after :=
  (Does.bind hp hf).mono fun _ _ _ ⟨_, _, hfirst, hrest⟩ low hs => hrest low (hfirst low hs)

theorem mono {given' : List Lineage} (hp : Makes given' p view)
    (h : ∀ low high, Built low high given → Built low high given') : Makes given p view :=
  Does.mono hp fun _ _ _ hrun low hs => hrun low (h low _ hs)

theorem perm {given' : List Lineage} (hp : Makes given' p view) (h : given'.Perm given) :
    Makes given p view :=
  hp.mono fun _ _ hbuilt => hbuilt.perm h

/-- What is read may be looked at in another way. -/
theorem congr {view' : α → List Lineage} (hp : Makes given p view) (h : ∀ a, view' a = view a) :
    Makes given p view' :=
  Does.mono hp fun a _ _ hrun low hs => h a ▸ hrun low hs

/-- What was built before stays in front. -/
theorem behind (hp : Makes [] p view) (given : List Lineage) :
    Makes given p fun a => given ++ view a :=
  Does.mono hp fun _ _ _ hrun _ hs => hs.append (hrun _ (.nil (Nat.le_refl _)))

/-- Readers of words build nothing. -/
theorem words {post : α → Progress → Progress → Prop} (hp : Does p post) :
    Makes given p fun _ => given :=
  hp.with_ids.mono fun _ _ _ h _ hs => hs.widen h.2

theorem fails {weight : Weight} {cause : FaultCause} {place : Place} :
    Makes given (failAt weight cause place) view :=
  (Does.failAt _ _ _).mono fun _ _ _ h => h.elim

theorem reject {what : Expectation} : Makes given (reject what) view :=
  (Does.reject _).mono fun _ _ _ h => h.elim

theorem committed (hp : Makes given p view) : Makes given (committed p) view :=
  Does.committed hp

/-- A node that is made of the first of the nodes built so far. -/
theorem numberFirst {f : NodeId → Parser β} (parts more : List Lineage)
    (hf : ∀ id, Makes (.node id parts :: more) (f id) after) :
    Makes (parts ++ more) (freshId >>= f) after :=
  (Does.freshId.bind hf).mono fun _ s _ ⟨_, _, ⟨hid, hcount⟩, hrest⟩ low hs => by
    subst hid hcount
    exact hrest low hs.node

/-- A node that is made of all that was built. -/
theorem number {f : NodeId → Parser β} (hf : ∀ id, Makes [.node id given] (f id) after) :
    Makes given (freshId >>= f) after :=
  (numberFirst given [] hf).mono fun _ _ h => by rwa [List.append_nil]

theorem optional (hp : Makes [] p view) :
    Makes [] (optional p) fun found => found.toList.flatMap view :=
  (Does.optional hp).mono fun found s t ⟨hsome, hnone⟩ low hs => by
    cases found with
    | none => exact hs.widen (hnone rfl).2.1
    | some a => exact ((hsome a rfl).1 low hs).perm (by simp)

theorem many (hp : Makes [] p view) : Makes [] (many p) fun found => found.flatMap view := by
  refine (Does.many hp).mono fun found s t hrow low hs => ?_
  induction hrow generalizing low with
  | nil _ ids => exact hs.widen ids
  | @cons a rest s t u first further ih =>
      have hfirst := first low hs
      exact (hfirst.append (ih t.nextId (.nil (Nat.le_refl _)))).perm (by simp)

theorem firstOf {ps : List (Parser α)} (hps : ∀ p ∈ ps, Makes given p view) :
    Makes given (firstOf none ps) view :=
  (Does.firstOf _ hps none).mono fun _ _ _ ⟨_, _, hids, h⟩ low hs => h low (hs.widen hids)

theorem choice {name : Expectation} {ps : List (Parser α)} (hps : ∀ p ∈ ps, Makes given p view) :
    Makes given (choice name ps) view :=
  (Does.choice name _ hps).mono fun _ _ _ ⟨_, _, hids, h⟩ low hs => h low (hs.widen hids)

theorem recovering {declaration : Parser Stmt} {view : Stmt → List Lineage} (closer : Option Char)
    (hd : Makes [] declaration view) :
    Makes [] (recovering closer declaration) fun found => found.toList.flatMap view :=
  (Does.recovering closer hd).mono fun _ _ _ ⟨a, ho, h⟩ low hs => by
    subst ho
    exact (h low hs).perm (by simp)

-- ================================================================ single words

/-- A reader that passes trivia and looks at the text. -/
theorem look {k : Cursor → Parser α} (hk : ∀ c, Makes given (k c) view) :
    Makes given (do let _ ← skipTrivia; let cursor ← here; k cursor) view :=
  (words Does.skipTrivia).bind fun _ => (words Does.here).bind hk

theorem symbol {c : Char} : Makes given (symbol c) fun _ => given := by
  refine look fun cursor => ?_
  split
  · exact words (Does.take 1)
  · exact reject

theorem symbolToken {kind : TokenKind} {c : Char} :
    Makes given (symbolToken kind c) fun _ => given := by
  refine look fun cursor => ?_
  split
  · exact words (does_takeToken kind 1)
  · exact reject

theorem keyword {kind : TokenKind} {spelling : String} :
    Makes given (keyword kind spelling) fun _ => given := by
  refine look fun cursor => ?_
  split
  · exact reject
  split
  · exact fails
  dsimp only
  split
  · exact fails
  · exact words (does_takeToken kind _)

theorem operator {spellings : List String} :
    Makes given (operator spellings) fun _ => given := by
  refine look fun cursor => ?_
  split
  · exact words (does_takeToken _ _)
  · exact reject

theorem equalSign : Makes given equalSign fun _ => given := words does_equalSign

theorem identifier : Makes given identifier fun _ => given := words does_identifier

theorem word {spelling : String} : Makes given (word spelling) fun _ => given :=
  keyword.bind fun _ => pure fun _ _ h => h

/-- A reserved word that commits to what comes behind it. -/
theorem word_committed {spelling : String} (hp : Makes given p view) :
    Makes given (Parser.word spelling >>= fun _ => Parser.committed p) view :=
  word.bind fun _ => hp.committed

end Makes

end Lox.Parser
