/-
Simulation: a run on a machine and a run of the reference, started on the two
sides of a pair, end on the two sides of a pair again. `Sim` says this of three
runs at once, for the run on the machine comes twice: once as it is and once
with an observer that may interfere. To show that the observer never does, one
has to know where the run is, and that is just what simulation tells.

The rules below follow the ways in which runs are put together. Nothing else
about runs is used later.
-/
import Lox.Proofs.Lockstep.Place
import Lox.Proofs.Lockstep.Watch

namespace Lox.Lockstep

open Eval (stop fault anchored inScope)
open Reference (Run)

variable {α β γ δ : Type} {visits : List Visit} {still : Bool} {p q : Pair}

-- A run that goes on does so from where its first part ended.

theorem run_bind_ok {σ : Type} {x : Halting σ α} {f : α → Halting σ γ} {a : α} {s s' : σ}
    (h : x s = .ok a s') : (x >>= f) s = f a s' := by
  show EStateM.bind x f s = _
  unfold EStateM.bind
  rw [h]

theorem run_bind_error {σ : Type} {x : Halting σ α} {f : α → Halting σ γ} {e : Stop} {s s' : σ}
    (h : x s = .error e s') : (x >>= f) s = .error e s' := by
  show EStateM.bind x f s = _
  unfold EStateM.bind
  rw [h]

theorem run_bind_congr {σ : Type} {x y : Halting σ α} {f : α → Halting σ γ} {s : σ}
    (h : x s = y s) : (x >>= f) s = (y >>= f) s := by
  cases hy : y s with
  | ok a s' => rw [run_bind_ok (h.trans hy), run_bind_ok hy]
  | error e s' => rw [run_bind_error (h.trans hy), run_bind_error hy]

section

variable {x y : Eval α} {frame : FrameId} {m m' : Machine}

/-- What a run in another frame does is up to the run from that frame. -/
theorem inScope_eq (h : x { m with scope := frame } = y { m with scope := frame }) :
    Eval.inScope frame x m = Eval.inScope frame y m := by
  unfold Eval.inScope
  dsimp only
  rw [h]

/-- However a run in another frame ends, the frame is put back. -/
theorem inScope_ok {a : α} (h : x { m with scope := frame } = .ok a m') :
    Eval.inScope frame x m = .ok a { m' with scope := m.scope } := by
  unfold Eval.inScope
  dsimp only
  rw [h]

theorem inScope_error {s : Stop} (h : x { m with scope := frame } = .error s m') :
    Eval.inScope frame x m = .error s { m' with scope := m.scope } := by
  unfold Eval.inScope
  dsimp only
  rw [h]

end

/-- How two runs end that started on the two sides of a pair: both with values that belong together,
or both with the same stop, which is no broken link. -/
inductive Ends (visits : List Visit) (still : Bool) (p : Pair) (post : α → β → Pair → Prop) :
    EStateM.Result Stop Machine α → EStateM.Result Stop Reference.State β → Prop
  | ok {a : α} {b : β} {q : Pair} (fine : q.Ok visits) (later : Later still p q)
      (holds : post a b q) : Ends visits still p post (.ok a q.machine) (.ok b q.state)
  | error {s : Stop} {q : Pair} (fine : q.Ok visits) (later : Later false p q)
      (real : s.Genuine visits) :
      Ends visits still p post (.error s q.machine) (.error s q.state)

/-- An observed run, the plain one, and the reference go together. -/
structure Sim (visits : List Visit) (still : Bool) (p : Pair) (observed plain : Eval α)
    (reference : Run β) (post : α → β → Pair → Prop) : Prop where
  same : observed p.machine = plain p.machine
  ends : Ends visits still p post (plain p.machine) (reference p.state)

namespace Sim

variable {observed plain : Eval α} {reference : Run β} {post : α → β → Pair → Prop}

-- ================================================================ one step

/-- A step that both sides can take. -/
theorem act {a : α} {b : β} (hm : plain p.machine = .ok a q.machine)
    (hr : reference p.state = .ok b q.state) (hq : q.Ok visits) (hl : Later still p q)
    (hpost : post a b q) : Sim visits still p plain plain reference post where
  same := rfl
  ends := by
    rw [hm, hr]
    exact .ok hq hl hpost

/-- A step that both sides refuse for the same reason. -/
theorem halt {s : Stop} (hm : plain p.machine = .error s p.machine)
    (hr : reference p.state = .error s p.state) (hp : p.Ok visits)
    (hs : s.Genuine visits) : Sim visits still p plain plain reference post where
  same := rfl
  ends := by
    rw [hm, hr]
    exact .error hp (.refl false p) hs

theorem done {a : α} {b : β} (hp : p.Ok visits) (hpost : post a b p) :
    Sim visits still p (pure a) (pure a) (pure b) post :=
  act rfl rfl hp (.refl still p) hpost

theorem failed {token : Token} {cause : RuntimeCause} (hp : p.Ok visits)
    (hcause : ∀ name, cause ≠ .undefinedVariable name) :
    Sim visits still p (fault token cause) (fault token cause) (fault token cause) post :=
  halt rfl rfl hp (Stop.genuine_fault _ hcause)

-- ============================================================== composition

/-- One run after another. -/
theorem bind {f g : α → Eval γ} {k : β → Run δ} {post' : γ → δ → Pair → Prop}
    (h : Sim visits still p observed plain reference post)
    (hk : ∀ a b q, q.Ok visits → Later still p q → post a b q →
      Sim visits still q (f a) (g a) (k b) post') :
    Sim visits still p (observed >>= f) (plain >>= g) (reference >>= k) post' := by
  have hsame := h.same
  have hends := h.ends
  generalize hx : plain p.machine = x at hends
  generalize hy : reference p.state = y at hends
  rw [hx] at hsame
  cases hends with
  | @ok a b q fine later holds =>
      have hnext := hk a b q fine later holds
      constructor
      · rw [run_bind_ok hsame, run_bind_ok hx, hnext.same]
      · rw [run_bind_ok hx, run_bind_ok hy]
        have hends := hnext.ends
        generalize g a q.machine = x' at hends
        generalize k b q.state = y' at hends
        cases hends with
        | ok fine later' holds => exact .ok fine (later.trans later') holds
        | error fine later' real => exact .error fine (later.loosen.trans later') real
  | error fine later real =>
      constructor
      · rw [run_bind_error hsame, run_bind_error hx]
      · rw [run_bind_error hx, run_bind_error hy]
        exact .error fine later real

/-- A step that both sides are known to take, and what comes behind it. -/
theorem step {a : α} {b : β} {f g : α → Eval γ} {k : β → Run δ} {post' : γ → δ → Pair → Prop}
    (hm : plain p.machine = .ok a q.machine) (hr : reference p.state = .ok b q.state)
    (hl : Later still p q) (h : Sim visits still q (f a) (g a) (k b) post') :
    Sim visits still p (plain >>= f) (plain >>= g) (reference >>= k) post' := by
  constructor
  · rw [run_bind_ok hm, run_bind_ok hm, h.same]
  · rw [run_bind_ok hm, run_bind_ok hr]
    have hends := h.ends
    generalize g a q.machine = x at hends
    generalize k b q.state = y at hends
    cases hends with
    | ok fine later holds => exact .ok fine (hl.trans later) holds
    | error fine later real => exact .error fine (hl.loosen.trans later) real

/-- The machine does something of its own, which the reference knows nothing of. -/
theorem pass {a : α} {f g : α → Eval γ} {k : Run δ} {post' : γ → δ → Pair → Prop}
    (hm : plain p.machine = .ok a q.machine) (hstate : q.state = p.state) (hl : Later still p q)
    (h : Sim visits still q (f a) (g a) k post') :
    Sim visits still p (plain >>= f) (plain >>= g) k post' := by
  have hbind : Sim visits still p (plain >>= f) (plain >>= g) (pure () >>= fun _ => k) post' :=
    .step (q := q) (b := ()) hm (by rw [hstate]; rfl) hl h
  exact hbind

/-- The machine looks at itself. -/
theorem look {a : α} {f g : α → Eval γ} {k : Run δ} {post' : γ → δ → Pair → Prop}
    (hm : plain p.machine = .ok a p.machine) (h : Sim visits still p (f a) (g a) k post') :
    Sim visits still p (plain >>= f) (plain >>= g) k post' :=
  .pass hm rfl (.refl still p) h

/-- The reference goes first; the machine has nothing to do yet. -/
theorem before {observed plain : Eval γ} {k : β → Run δ} {post : Unit → β → Pair → Prop}
    {post' : γ → δ → Pair → Prop} (h : Sim visits still p (pure ()) (pure ()) reference post)
    (hk : ∀ b q, q.Ok visits → Later still p q → post () b q →
      Sim visits still q observed plain (k b) post') :
    Sim visits still p observed plain (reference >>= k) post' := by
  have hbind : Sim visits still p (pure () >>= fun _ => observed) (pure () >>= fun _ => plain)
      (reference >>= k) post' := h.bind fun _ b q hq hl hpost => hk b q hq hl hpost
  exact hbind

/-- The reference has something to add to what it yields. -/
theorem adding {post' : α → δ → Pair → Prop} {f : β → δ}
    (h : Sim visits still p observed plain reference post)
    (hpost : ∀ a b q, post a b q → post' a (f b) q) :
    Sim visits still p observed plain (reference >>= fun b => pure (f b)) post' := by
  have hbind : Sim visits still p (observed >>= pure) (plain >>= pure)
      (reference >>= fun b => pure (f b)) post' :=
    h.bind fun a b q hq _ hab => .done hq (hpost a b q hab)
  rwa [bind_pure, bind_pure] at hbind

/-- What a run yields may be known less well, and the frame less still. -/
theorem weaken {post' : α → β → Pair → Prop}
    (h : Sim visits still p observed plain reference post) (still' : Bool)
    (hstill : still' = true → still = true)
    (hpost : ∀ a b q, q.Ok visits → Later still p q → post a b q → post' a b q) :
    Sim visits still' p observed plain reference post' where
  same := h.same
  ends := by
    have hends := h.ends
    generalize plain p.machine = x at hends
    generalize reference p.state = y at hends
    cases hends with
    | ok fine later holds =>
        refine .ok fine ?_ (hpost _ _ _ fine later holds)
        cases still' with
        | true => rwa [hstill rfl] at later
        | false => exact later.loosen
    | error fine later real => exact .error fine later real

/-- A run in a new frame leaves the frames there were still. The reference may have to prepare for
it, as when parameters get their homes. -/
theorem inNewFrame {outer : FrameId} {bindings : Bindings Value} {before : Run β}
    {post' : α → β → Pair → Prop}
    (hm : q.machine = { p.machine with heap := p.machine.heap.addFrame outer bindings })
    (hr : before p.state = reference q.state) (hl : Later true p q)
    (h : Sim visits false (q.enter p.frames.next) observed plain reference post)
    (hpost : ∀ a b r, post a b r → post' a b (r.enter p.machine.scope)) :
    Sim visits true p (Eval.inNewFrame outer bindings observed)
      (Eval.inNewFrame outer bindings plain) before post' := by
  have hsame := h.same
  have hends := h.ends
  have hin : (q.enter p.frames.next).machine
      = { p.machine with
          heap := p.machine.heap.addFrame outer bindings, scope := p.frames.next } := by
    show { q.machine with scope := p.frames.next } = _
    rw [hm]
  have hmake : Eval.newFrame outer bindings p.machine
      = .ok p.frames.next { p.machine with heap := p.machine.heap.addFrame outer bindings } := rfl
  constructor
  · unfold Eval.inNewFrame
    rw [run_bind_ok hmake, run_bind_ok hmake]
    refine inScope_eq ?_
    show observed { p.machine with
      heap := p.machine.heap.addFrame outer bindings, scope := p.frames.next } = _
    rw [← hin]
    exact hsame
  · unfold Eval.inNewFrame
    rw [run_bind_ok hmake, hr]
    replace hends : Ends visits false (q.enter p.frames.next) post
      (plain (q.enter p.frames.next).machine) (reference q.state) := hends
    rw [hin] at hends
    generalize hx : plain _ = x at hends
    generalize reference q.state = y at hends
    cases hends with
    | @ok a b r fine later holds =>
        rw [inScope_ok hx]
        exact .ok (q := r.enter p.machine.scope) (fine.enter _)
          (hl.leave (Nat.le_refl _) later) (hpost a b r holds)
    | @error s r fine later real =>
        rw [inScope_error hx]
        exact .error (q := r.enter p.machine.scope) (fine.enter _)
          (hl.leave (Nat.le_refl _) later).loosen real

/-- A fault may be lent a token. -/
theorem anchored (token : Token) (h : Sim visits still p observed plain reference post) :
    Sim visits still p (Eval.anchored token observed) (Eval.anchored token plain)
      (Eval.anchored token reference) post := by
  have hsame := h.same
  have hends := h.ends
  constructor
  · unfold Eval.anchored
    rw [hsame]
  · unfold Eval.anchored
    generalize plain p.machine = x at hends
    generalize reference p.state = y at hends
    cases hends with
    | ok fine later holds => exact .ok fine later holds
    | @error s q fine later real =>
        cases s with
        | fault f =>
            obtain ⟨token?, cause⟩ := f
            cases token? with
            | none =>
                refine .error fine later ⟨nofun, fun other name he => ?_⟩
                cases he
                obtain ⟨v, hv, t, ht, -⟩ := real.unbound none name rfl
                cases ht
            | some token => exact .error fine later real
        | exit code => exact .error fine later real
        | overflow => exact .error fine later real
        | broken link => exact absurd rfl (real.whole link)
        | exhausted => exact .error fine later real

end Sim

end Lox.Lockstep
