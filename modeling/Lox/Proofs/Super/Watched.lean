/-
Runs that keep the frames of `this` and `super` in order, with all observers at
once. A watch is an observer that stops a run at one moment (`Watch`); a run
comes to a moment when all its watches notice it. `Runs` says what a run does
from one machine on: it leaves a machine behind that is in order, and where a
watch notices anything the machine was in order at that moment too, at a place
that the resolver has been to.

A run may take for granted that its own moments are part of the past. Whoever
puts runs together hands this down, so that a class knows the moment at which its
statement was entered.
-/
import Lox.Proofs.Super.Moves
import Lox.Proofs.Run.Host

namespace Lox

open Lockstep (run_bind_ok run_bind_error inScope_eq inScope_ok inScope_error)
open Machine

/-- An observer who stops a run when one node is entered on one machine. There are two ways to stop,
for a run could end in one of them by itself. -/
structure Watch where
  late : Bool
  node : Node
  moment : Machine

namespace Watch

def alarm (o : Watch) : Stop := if o.late then .exhausted else .overflow

open Classical in
/-- The check that fails at the moment and never else. -/
noncomputable def check (o : Watch) : Check := fun n k => !decide (n = o.node ∧ k = o.moment)

open Classical in
theorem check_eq_false_iff (o : Watch) {n : Node} {k : Machine} :
    o.check n k = false ↔ n = o.node ∧ k = o.moment := by
  unfold check
  rw [Bool.not_eq_false', decide_eq_true_iff]

theorem alarm_cases (o : Watch) : o.alarm = .exhausted ∨ o.alarm = .overflow := by
  unfold alarm
  cases o.late with
  | true => exact .inl rfl
  | false => exact .inr rfl

end Watch

variable {α β : Type} {w : Chronicle} {m m' : Machine}

/-- All watches of a moment notice it. -/
def Noticed (observed : Watch → Eval α) (m : Machine) (node : Node) (moment : Machine) : Prop :=
  ∀ late, ∃ m', observed ⟨late, node, moment⟩ m = .error (Watch.mk late node moment).alarm m'

/-- A node is known with all that is inside it. -/
def Chronicle.Covers (w : Chronicle) (around : Surroundings) (scopes : Scopes)
    (cls : Option ClassDecl) : Node → Prop
  | .expression e => w.Knows (e.visits around scopes) (Site.within cls e.nodes)
  | .statement s => w.Knows (s.visits around scopes) (s.sites cls)

/-- At a moment the machine is in order, at a place that is known. -/
def Chronicle.Meets (w : Chronicle) (node : Node) (moment : Machine) : Prop :=
  moment.Framed w ∧ ∃ around scopes cls, moment.Place w scopes cls ∧ w.Covers around scopes cls node

/-- A run ends on a later machine that is in order, and with a value of some kind. -/
def Ends (w : Chronicle) (m : Machine) (post : α → Machine → Prop) :
    EStateM.Result Stop Machine α → Prop
  | .ok a m' => m'.Framed w ∧ m.Later m' ∧ post a m'
  | .error _ m' => m'.Framed w ∧ m.Later m'

/-- A watched run goes its way, or the watch notices its moment, which lies between the machine at the
start and the one that is left behind. -/
def Spotted (w : Chronicle) (m : Machine) (observed : Watch → Eval α) (plain : Eval α)
    (o : Watch) : Prop :=
  observed o m = plain m
    ∨ (∃ m', observed o m = .error o.alarm m') ∧ w.Meets o.node o.moment
      ∧ m.Persists o.moment ∧ o.moment.Persists (plain.left m)

/-- What a run does from a machine on, given that its moments are past. -/
def Runs (w : Chronicle) (m : Machine) (observed : Watch → Eval α) (plain : Eval α)
    (post : α → Machine → Prop) : Prop :=
  (∀ node moment, Noticed observed m node moment → w.past node moment) →
    Ends w m post (plain m) ∧ ∀ o, Spotted w m observed plain o

theorem Ends.persists {post : α → Machine → Prop} {x : Eval α} (h : Ends w m post (x m)) :
    m.Persists (x.left m) := by
  unfold Eval.left
  cases hx : x m with
  | ok a m' =>
      rw [hx] at h
      exact h.2.1.toPersists
  | error s m' =>
      rw [hx] at h
      exact h.2.toPersists

theorem Ends.since {post : α → Machine → Prop} {r : EStateM.Result Stop Machine α}
    (h : Ends w m' post r) (hl : m.Later m') : Ends w m post r := by
  cases r with
  | ok a k => exact ⟨h.1, hl.trans h.2.1, h.2.2⟩
  | error s k => exact ⟨h.1, hl.trans h.2⟩

section

variable {observed : Watch → Eval α} {plain : Eval α} {f : Watch → α → Eval β} {g : α → Eval β}
  {o : Watch}

/-- What is noticed in a run that stops is noticed whatever was to follow. -/
theorem Spotted.bind_error (h : Spotted w m observed plain o) {s : Stop}
    (hx : plain m = .error s m') :
    Spotted w m (fun o => observed o >>= f o) (plain >>= g) o := by
  have hwhole : (plain >>= g) m = .error s m' := run_bind_error hx
  have hleft : (plain >>= g).left m = plain.left m := by
    rw [Intact.left_of_error hwhole, Intact.left_of_error hx]
  rcases h with he | ⟨⟨m'', he⟩, hmeets, hbefore, hafter⟩
  · exact .inl ((run_bind_error (he.trans hx)).trans hwhole.symm)
  · exact .inr ⟨⟨m'', run_bind_error he⟩, hmeets, hbefore, by rwa [hleft]⟩

/-- What is noticed in the first part is noticed there, and else in the second. -/
theorem Spotted.bind_ok {a : α} (h : Spotted w m observed plain o) (hx : plain m = .ok a m')
    (hl : m.Later m') (h' : Spotted w m' (fun o => f o a) (g a) o)
    (hsecond : m'.Persists ((g a).left m')) :
    Spotted w m (fun o => observed o >>= f o) (plain >>= g) o := by
  have hwhole : (plain >>= g) m = g a m' := run_bind_ok hx
  have hleft : (plain >>= g).left m = (g a).left m' := by
    unfold Eval.left
    rw [hwhole]
  rcases h with he | ⟨⟨m'', he⟩, hmeets, hbefore, hafter⟩
  · have hstep : (observed o >>= f o) m = f o a m' := run_bind_ok (he.trans hx)
    rcases h' with he' | ⟨⟨m'', he'⟩, hmeets, hbefore, hafter⟩
    · exact .inl (hstep.trans (he'.trans hwhole.symm))
    · exact .inr ⟨⟨m'', hstep.trans he'⟩, hmeets, hl.toPersists.trans hbefore, by rwa [hleft]⟩
  · rw [Intact.left_of_ok hx] at hafter
    refine .inr ⟨⟨m'', run_bind_error he⟩, hmeets, hbefore, ?_⟩
    rw [hleft]
    exact hafter.trans hsecond

end

namespace Runs

variable {observed : Watch → Eval α} {plain : Eval α} {post : α → Machine → Prop}

-- ================================================================= one step

/-- A step that nobody watches. -/
theorem unwatched (h : Ends w m post (plain m)) : Runs w m (fun _ => plain) plain post :=
  fun _ => ⟨h, fun _ => .inl rfl⟩

/-- A step that a machine takes. -/
theorem act {a : α} {m' : Machine} (hm : plain m = .ok a m') (hf : m'.Framed w)
    (hl : m.Later m') (hpost : post a m') : Runs w m (fun _ => plain) plain post := by
  apply unwatched
  rw [hm]
  exact ⟨hf, hl, hpost⟩

theorem done {a : α} (hf : m.Framed w) (hpost : post a m) :
    Runs w m (fun _ => pure a) (pure a) post :=
  act rfl hf (.refl m) hpost

/-- A step that stops the run. -/
theorem halt (hf : m.Framed w) (s : Stop) :
    Runs w m (fun _ => Eval.stop s) (Eval.stop s) post :=
  unwatched ⟨hf, .refl m⟩

theorem weaken {post' : α → Machine → Prop} (h : Runs w m observed plain post)
    (hpost : ∀ a m', m'.Framed w → m.Later m' → post a m' → post' a m') :
    Runs w m observed plain post' := by
  intro hpast
  obtain ⟨hends, hspots⟩ := h hpast
  refine ⟨?_, hspots⟩
  cases hx : plain m with
  | error s m' =>
      rw [hx] at hends
      exact hends
  | ok a m' =>
      rw [hx] at hends
      exact ⟨hends.1, hends.2.1, hpost a m' hends.1 hends.2.1 hends.2.2⟩

-- ============================================================== composition

/-- One run after another. -/
theorem bind {f : Watch → α → Eval β} {g : α → Eval β} {post' : β → Machine → Prop}
    (first : Runs w m observed plain post)
    (rest : ∀ a m', plain m = .ok a m' → m'.Framed w → m.Later m' → post a m' →
      Runs w m' (fun o => f o a) (g a) post') :
    Runs w m (fun o => observed o >>= f o) (plain >>= g) post' := by
  intro hpast
  -- What the first part notices the whole does.
  obtain ⟨hends, hspots⟩ := first fun node moment hn => hpast node moment fun late => by
    obtain ⟨m', he⟩ := hn late
    exact ⟨m', run_bind_error he⟩
  cases hx : plain m with
  | error s m' =>
      rw [hx] at hends
      refine ⟨?_, fun o => (hspots o).bind_error hx⟩
      rw [run_bind_error hx]
      exact hends
  | ok a m' =>
      rw [hx] at hends
      obtain ⟨hf, hl, hpost⟩ := hends
      -- A watch that the second part notices was passed by in the first, or was noticed there.
      obtain ⟨hends', hspots'⟩ := rest a m' hx hf hl hpost fun node moment hn =>
        hpast node moment fun late => by
          rcases hspots ⟨late, node, moment⟩ with he | ⟨⟨m'', he⟩, -⟩
          · obtain ⟨m'', hn'⟩ := hn late
            exact ⟨m'', (run_bind_ok (he.trans hx)).trans hn'⟩
          · exact ⟨m'', run_bind_error he⟩
      refine ⟨?_, fun o => (hspots o).bind_ok hx hl (hspots' o) hends'.persists⟩
      rw [run_bind_ok hx]
      exact hends'.since hl

/-- A step that a machine is known to take, and what comes behind it. -/
theorem step {a : α} {m' : Machine} {f : Watch → α → Eval β} {g : α → Eval β}
    {post' : β → Machine → Prop} (hm : plain m = .ok a m') (hf : m'.Framed w) (hl : m.Later m')
    (rest : Runs w m' (fun o => f o a) (g a) post') :
    Runs w m (fun o => plain >>= f o) (plain >>= g) post' := by
  have hfirst : Runs w m (fun _ => plain) plain fun b k => b = a ∧ k = m' := act hm hf hl ⟨rfl, rfl⟩
  refine hfirst.bind fun b k _ _ _ h => ?_
  obtain ⟨rfl, rfl⟩ := h
  exact rest

/-- The machine looks at itself. -/
theorem look {a : α} {f : Watch → α → Eval β} {g : α → Eval β} {post' : β → Machine → Prop}
    (hm : plain m = .ok a m) (hf : m.Framed w) (rest : Runs w m (fun o => f o a) (g a) post') :
    Runs w m (fun o => plain >>= f o) (plain >>= g) post' :=
  step hm hf (.refl m) rest

/-- A run in another frame. -/
theorem inScope {frame : FrameId} {post' : α → Machine → Prop}
    (h : Runs w { m with scope := frame } observed plain post)
    (hpost : ∀ a k, post a k → post' a { k with scope := m.scope }) :
    Runs w m (fun o => Eval.inScope frame (observed o)) (Eval.inScope frame plain) post' := by
  have hlater : ∀ {k : Machine}, Machine.Later { m with scope := frame } k →
      m.Later { k with scope := m.scope } := fun hk =>
    have hin : m.Persists { m with scope := frame } := .of_heap rfl
    have hout : ∀ k : Machine, k.Persists { k with scope := m.scope } := fun _ => .of_heap rfl
    ((hin.trans hk.toPersists).trans (hout _)).later rfl hk.distances
  intro hpast
  obtain ⟨hends, hspots⟩ := h fun node moment hn => hpast node moment fun late => by
    obtain ⟨m', he⟩ := hn late
    exact ⟨_, inScope_error he⟩
  constructor
  · cases hx : plain { m with scope := frame } with
    | ok a k =>
        rw [hx] at hends
        rw [inScope_ok hx]
        exact ⟨hends.1.of_heap rfl rfl, hlater hends.2.1, hpost a k hends.2.2⟩
    | error s k =>
        rw [hx] at hends
        rw [inScope_error hx]
        exact ⟨hends.1.of_heap rfl rfl, hlater hends.2⟩
  · intro o
    rcases hspots o with he | ⟨⟨k, he⟩, hmeets, hbefore, hafter⟩
    · exact .inl (inScope_eq he)
    · refine .inr ⟨⟨_, inScope_error he⟩, hmeets, ?_, ?_⟩
      · have hin : m.Persists { m with scope := frame } := .of_heap rfl
        exact hin.trans hbefore
      · rw [Intact.left_inScope]
        exact hafter.trans (.of_heap rfl)

/-- A fault may be lent a token; alarms are no faults. -/
theorem anchored (token : Token) (h : Runs w m observed plain post) :
    Runs w m (fun o => Eval.anchored token (observed o)) (Eval.anchored token plain) post := by
  have halarm : ∀ {o : Watch} {x : Eval α} {k : Machine}, x m = .error o.alarm k →
      Eval.anchored token x m = .error o.alarm k := by
    intro o x k hx
    unfold Eval.anchored
    rw [hx]
    rcases o.alarm_cases with ha | ha
    · rw [ha]
    · rw [ha]
  intro hpast
  obtain ⟨hends, hspots⟩ := h fun node moment hn => hpast node moment fun late => by
    obtain ⟨m', he⟩ := hn late
    exact ⟨m', halarm he⟩
  constructor
  · unfold Eval.anchored
    cases hx : plain m with
    | ok a k =>
        rw [hx] at hends
        exact hends
    | error s k =>
        rw [hx] at hends
        cases s with
        | fault f =>
            obtain ⟨place, cause⟩ := f
            cases place <;> exact hends
        | _ => exact hends
  · intro o
    rcases hspots o with he | ⟨⟨k, he⟩, hmeets, hbefore, hafter⟩
    · left
      show Eval.anchored token (observed o) m = Eval.anchored token plain m
      unfold Eval.anchored
      rw [he]
    · refine .inr ⟨⟨k, halarm he⟩, hmeets, hbefore, ?_⟩
      rw [Intact.left_anchored]
      exact hafter

/-- A node is entered, at a place that is known. From then on its moment is past. -/
theorem watch {node : Node} (hmeets : w.Meets node m)
    (h : w.past node m → Runs w m observed plain post) :
    Runs w m (fun o => fun k => if o.check node k then observed o k else .error o.alarm k) plain
      post := by
  intro hpast
  have hnow : w.past node m := hpast node m fun late => ⟨m, by
    dsimp only
    rw [if_neg]
    rw [Bool.not_eq_true, Watch.check_eq_false_iff]
    exact ⟨rfl, rfl⟩⟩
  obtain ⟨hends, hspots⟩ := h hnow fun n k hn => by
    by_cases hsame : node = n ∧ m = k
    · rw [← hsame.1, ← hsame.2]
      exact hnow
    · refine hpast n k fun late => ?_
      obtain ⟨m', he⟩ := hn late
      refine ⟨m', ?_⟩
      dsimp only
      rw [if_pos]
      · exact he
      · rw [← Bool.not_eq_false, Watch.check_eq_false_iff]
        exact hsame
  refine ⟨hends, fun o => ?_⟩
  by_cases hcheck : o.check node m = true
  · have hsame : (if o.check node m then observed o m else .error o.alarm m) = observed o m :=
      if_pos hcheck
    rcases hspots o with he | ⟨⟨k, he⟩, hrest⟩
    · exact .inl (hsame.trans he)
    · exact .inr ⟨⟨k, hsame.trans he⟩, hrest⟩
  · have hstop : (if o.check node m then observed o m else .error o.alarm m)
        = .error o.alarm m := if_neg hcheck
    obtain ⟨hnode, hmoment⟩ := o.check_eq_false_iff.1 (Bool.not_eq_true _ ▸ hcheck)
    refine .inr ⟨⟨m, hstop⟩, ?_, ?_, ?_⟩
    · rw [← hnode, ← hmoment]
      exact hmeets
    · rw [← hmoment]
      exact .refl m
    · rw [← hmoment]
      exact hends.persists

end Runs

end Lox
