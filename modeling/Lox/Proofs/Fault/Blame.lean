/-
Faults and the tokens to blame. A run on a machine on which everything is known
blames known tokens only. A native function knows no token; the call that has the
native for its callee lends it one, and no call further out changes that.

So that the call can be named, runs are looked at with all observers at once: each
fault of a native comes with a moment that the run was seen at, which is the
moment of that call (`Accounts`). A call is seen before it has found out that its
callee is a native, so what it owes is kept open inside the call.
-/
import Lox.Proofs.Fault.Known
import Lox.Proofs.Likeness.Evaluate
import Lox.Proofs.Super.Watched

namespace Lox

open Lockstep (run_bind_ok run_bind_error inScope_eq inScope_ok inScope_error)

/-- The functions in the heap come from known declarations. -/
def Machine.Known (known : List Token) (m : Machine) : Prop := m.heap.Alike (.within known) m.heap

/-- A call, entered at a moment, whose callee is a native function that then finds a fault without a
token. The machine that the fault leaves is the one that is left in the end, the current frame
aside. -/
inductive NativeFault (node : Node) (moment : Machine) (paren : Token) (cause : RuntimeCause)
    (left : Machine) : Prop
  | intro {fuel room : Nat} {id : NodeId} {callee : Expr} {arguments : List Expr} {native : Native}
      {given : List Value} {k k' final : Machine} {frame : FrameId}
      (call : node = .expression (.call id callee paren arguments))
      (called : Eval.evaluate fuel room callee moment = .ok (.native native) k)
      (supplied : Eval.evaluateAll (Eval.runner fuel) room arguments k = .ok given k')
      (raised : Eval.callNative native given k' = .error (.fault ⟨none, cause⟩) final)
      (last : left = { final with scope := frame })

variable {α β : Type} {known : List Token} {m m' : Machine}
  {own : Token → RuntimeCause → Machine → Prop} {observed : Watch → Eval α} {plain : Eval α}

/-- A run ends on a known machine. If it ends with a fault, a known token is to blame, and a fault of
a native is owed to the call at hand or to one that was seen. -/
def Answers (known : List Token) (own : Token → RuntimeCause → Machine → Prop)
    (observed : Watch → Eval α) (m : Machine) : EStateM.Result Stop Machine α → Prop
  | .ok _ m' => m'.Known known
  | .error s m' => m'.Known known ∧ ∀ fault, s = .fault fault →
    ∃ token ∈ known, fault.token = some token ∧ (fault.cause.native = true →
      own token fault.cause m' ∨ ∃ node moment, Noticed observed m node moment
        ∧ NativeFault node moment token fault.cause m')

/-- What a run answers for, and that its observers let it go its way or notice known moments. -/
structure Accounts (known : List Token) (own : Token → RuntimeCause → Machine → Prop)
    (observed : Watch → Eval α) (plain : Eval α) (m : Machine) : Prop where
  ends : Answers known own observed m (plain m)
  spots (o : Watch) : observed o m = plain m
    ∨ (∃ m', observed o m = .error o.alarm m') ∧ o.moment.Known known

/-- The call at hand owes nothing. -/
def Nothing : Token → RuntimeCause → Machine → Prop := fun _ _ _ => False

/-- On known machines a run answers for all its faults. -/
def Accountable (known : List Token) (observed : Watch → Eval α) (plain : Eval α) : Prop :=
  ∀ m, m.Known known → Accounts known Nothing observed plain m

namespace Accounts

-- ==================================================================== steps

/-- A step that is no fault and that nobody watches. -/
theorem act {a : α} (h : plain m = .ok a m') (hk : m'.Known known) :
    Accounts known own (fun _ => plain) plain m where
  ends := by
    rw [h]
    exact hk
  spots _ := .inl rfl

theorem halt {s : Stop} (hk : m.Known known)
    (hs : ∀ fault, s = .fault fault →
      ∃ token ∈ known, fault.token = some token ∧ fault.cause.native = false) :
    Accounts (α := α) known own (fun _ => Eval.stop s) (Eval.stop s) m where
  ends := by
    refine ⟨hk, fun fault he => ?_⟩
    obtain ⟨token, ht, hplace, hown⟩ := hs fault he
    exact ⟨token, ht, hplace, fun hn => absurd hn (by rw [hown]; decide)⟩
  spots _ := .inl rfl

/-- However a run ends, everything is known in the end. -/
theorem known_left (h : Accounts known own observed plain m) : (plain.left m).Known known := by
  have hends := h.ends
  unfold Eval.left
  cases hx : plain m with
  | ok a m' =>
      rw [hx] at hends
      exact hends
  | error s m' =>
      rw [hx] at hends
      exact hends.1

/-- Who owes nothing may owe something. -/
theorem owing (h : Accounts known Nothing observed plain m) :
    Accounts known own observed plain m where
  ends := by
    have hends := h.ends
    cases hx : plain m with
    | ok a m' =>
        rw [hx] at hends
        exact hends
    | error s m' =>
        rw [hx] at hends
        refine ⟨hends.1, fun fault he => ?_⟩
        obtain ⟨token, ht, hplace, hnative⟩ := hends.2 fault he
        exact ⟨token, ht, hplace, fun hn => .inr ((hnative hn).resolve_left id)⟩
  spots := h.spots

-- ============================================================== composition

/-- What is noticed in the second part is noticed in the whole. -/
theorem noticed_bind {f : Watch → α → Eval β} {a : α} {node : Node} {moment : Machine}
    (h : Accounts known own observed plain m) (hx : plain m = .ok a m')
    (hn : Noticed (fun o => f o a) m' node moment) :
    Noticed (fun o => observed o >>= f o) m node moment := by
  intro late
  rcases h.spots ⟨late, node, moment⟩ with he | ⟨⟨m'', he⟩, -⟩
  · obtain ⟨m'', hn'⟩ := hn late
    exact ⟨m'', (run_bind_ok (he.trans hx)).trans hn'⟩
  · exact ⟨m'', run_bind_error he⟩

theorem bind {f : Watch → α → Eval β} {g : α → Eval β}
    (first : Accounts known own observed plain m)
    (rest : ∀ a m', plain m = .ok a m' → m'.Known known →
      Accounts known own (fun o => f o a) (g a) m') :
    Accounts known own (fun o => observed o >>= f o) (plain >>= g) m := by
  have hends := first.ends
  cases hx : plain m with
  | error s m' =>
      rw [hx] at hends
      constructor
      · rw [run_bind_error hx]
        refine ⟨hends.1, fun fault he => ?_⟩
        obtain ⟨token, ht, hplace, hnative⟩ := hends.2 fault he
        refine ⟨token, ht, hplace, fun hn => (hnative hn).imp_right ?_⟩
        rintro ⟨node, moment, hnoticed, hcall⟩
        refine ⟨node, moment, fun late => ?_, hcall⟩
        obtain ⟨m'', hm''⟩ := hnoticed late
        exact ⟨m'', run_bind_error hm''⟩
      · intro o
        rcases first.spots o with he | ⟨⟨m'', he⟩, hk⟩
        · exact .inl ((run_bind_error (he.trans hx)).trans (run_bind_error hx).symm)
        · exact .inr ⟨⟨m'', run_bind_error he⟩, hk⟩
  | ok a m' =>
      rw [hx] at hends
      have hsecond := rest a m' hx hends
      constructor
      · rw [run_bind_ok hx]
        have hends' := hsecond.ends
        cases hy : g a m' with
        | ok b m'' =>
            rw [hy] at hends'
            exact hends'
        | error s m'' =>
            rw [hy] at hends'
            refine ⟨hends'.1, fun fault he => ?_⟩
            obtain ⟨token, ht, hplace, hnative⟩ := hends'.2 fault he
            refine ⟨token, ht, hplace, fun hn => (hnative hn).imp_right ?_⟩
            rintro ⟨node, moment, hnoticed, hcall⟩
            exact ⟨node, moment, first.noticed_bind hx hnoticed, hcall⟩
      · intro o
        rcases first.spots o with he | ⟨⟨m'', he⟩, hk⟩
        · have hstep : (observed o >>= f o) m = f o a m' := run_bind_ok (he.trans hx)
          rcases hsecond.spots o with he' | ⟨⟨m'', he'⟩, hk⟩
          · exact .inl (hstep.trans (he'.trans (run_bind_ok hx).symm))
          · exact .inr ⟨⟨m'', hstep.trans he'⟩, hk⟩
        · exact .inr ⟨⟨m'', run_bind_error he⟩, hk⟩

theorem inScope {frame : FrameId}
    (h : Accounts known Nothing observed plain { m with scope := frame }) :
    Accounts known Nothing (fun o => Eval.inScope frame (observed o)) (Eval.inScope frame plain)
      m where
  ends := by
    have hends := h.ends
    cases hx : plain { m with scope := frame } with
    | ok a k =>
        rw [hx] at hends
        rw [inScope_ok hx]
        exact hends
    | error s k =>
        rw [hx] at hends
        rw [inScope_error hx]
        refine ⟨hends.1, fun fault he => ?_⟩
        obtain ⟨token, ht, hplace, hnative⟩ := hends.2 fault he
        refine ⟨token, ht, hplace, fun hn => .inr ?_⟩
        obtain ⟨node, moment, hnoticed, hcall⟩ := (hnative hn).resolve_left id
        refine ⟨node, moment, fun late => ?_, ?_⟩
        · obtain ⟨m', he⟩ := hnoticed late
          exact ⟨_, inScope_error he⟩
        · obtain ⟨call, called, supplied, raised, last⟩ := hcall
          exact ⟨call, called, supplied, raised, by rw [last]⟩
  spots o := by
    rcases h.spots o with he | ⟨⟨k, he⟩, hk⟩
    · exact .inl (inScope_eq he)
    · exact .inr ⟨⟨_, inScope_error he⟩, hk⟩

/-- A fault with a token keeps it, however many calls it passes. -/
theorem anchored (token : Token) (h : Accounts known own observed plain m) :
    Accounts known own (fun o => Eval.anchored token (observed o)) (Eval.anchored token plain) m := by
  have halarm : ∀ {o : Watch} {x : Eval α} {k : Machine}, x m = .error o.alarm k →
      Eval.anchored token x m = .error o.alarm k := by
    intro o x k hx
    unfold Eval.anchored
    rw [hx]
    rcases o.alarm_cases with ha | ha <;> rw [ha]
  have hsame : Eval.anchored token plain m = plain m := by
    have hends := h.ends
    unfold Eval.anchored
    cases hx : plain m with
    | ok a k => rfl
    | error s k =>
        rw [hx] at hends
        cases s with
        | fault fault =>
            obtain ⟨place, cause⟩ := fault
            obtain ⟨own, -, hplace, -⟩ := hends.2 _ rfl
            cases hplace
            rfl
        | _ => rfl
  constructor
  · rw [hsame]
    have hends := h.ends
    cases hx : plain m with
    | ok a k =>
        rw [hx] at hends
        exact hends
    | error s k =>
        rw [hx] at hends
        refine ⟨hends.1, fun fault he => ?_⟩
        obtain ⟨token, ht, hplace, hnative⟩ := hends.2 fault he
        refine ⟨token, ht, hplace, fun hn => (hnative hn).imp_right ?_⟩
        rintro ⟨node, moment, hnoticed, hcall⟩
        refine ⟨node, moment, fun late => ?_, hcall⟩
        obtain ⟨m', he⟩ := hnoticed late
        exact ⟨m', halarm he⟩
  · intro o
    rcases h.spots o with he | ⟨⟨k, he⟩, hk⟩
    · left
      show Eval.anchored token (observed o) m = Eval.anchored token plain m
      unfold Eval.anchored
      rw [he]
    · exact .inr ⟨⟨k, halarm he⟩, hk⟩

/-- A node is entered. What it owes is settled by that. -/
theorem watch {node : Node} (hm : m.Known known)
    (h : Accounts known (NativeFault node m) observed plain m) :
    Accounts known Nothing
      (fun o => fun k => if o.check node k then observed o k else .error o.alarm k) plain m := by
  have hpass : ∀ o : Watch, ¬ (node = o.node ∧ m = o.moment) →
      (if o.check node m then observed o m else .error o.alarm m) = observed o m := by
    intro o hne
    rw [if_pos]
    rw [← Bool.not_eq_false, Watch.check_eq_false_iff]
    exact hne
  have hcaught : ∀ o : Watch, (node = o.node ∧ m = o.moment) →
      (if o.check node m then observed o m else .error o.alarm m) = .error o.alarm m := by
    intro o hsame
    rw [if_neg]
    rw [Bool.not_eq_true, Watch.check_eq_false_iff]
    exact hsame
  constructor
  · have hends := h.ends
    cases hx : plain m with
    | ok a k =>
        rw [hx] at hends
        exact hends
    | error s k =>
        rw [hx] at hends
        refine ⟨hends.1, fun fault he => ?_⟩
        obtain ⟨token, ht, hplace, hnative⟩ := hends.2 fault he
        refine ⟨token, ht, hplace, fun hn => .inr ?_⟩
        rcases hnative hn with hown | ⟨n, moment, hnoticed, hcall⟩
        · exact ⟨node, m, fun late => ⟨m, hcaught ⟨late, node, m⟩ ⟨rfl, rfl⟩⟩, hown⟩
        · refine ⟨n, moment, fun late => ?_, hcall⟩
          by_cases hsame : node = n ∧ m = moment
          · exact ⟨m, hcaught ⟨late, n, moment⟩ hsame⟩
          · obtain ⟨m', he⟩ := hnoticed late
            exact ⟨m', (hpass ⟨late, n, moment⟩ hsame).trans he⟩
  · intro o
    by_cases hsame : node = o.node ∧ m = o.moment
    · exact .inr ⟨⟨m, hcaught o hsame⟩, hsame.2 ▸ hm⟩
    · rcases h.spots o with he | ⟨⟨k, he⟩, hk⟩
      · exact .inl ((hpass o hsame).trans he)
      · exact .inr ⟨⟨k, (hpass o hsame).trans he⟩, hk⟩

end Accounts

-- ===================================================================== runs

/-- All that evaluation is put together from is accountable. -/
theorem Accountable.correspondence (known : List Token) :
    Correspondence (.within known) (fun {_} x y => Accountable known x y) where
  pure _ _ hm := .act rfl hm
  bind first rest m hm := (first m hm).bind fun a m' _ hm' => rest a m' hm'
  stop {α s s'} alike m hm := by
    cases alike with
    | fault own place =>
        obtain ⟨rfl, hknown⟩ := place
        refine .halt hm fun fault he => ?_
        cases he
        exact ⟨_, hknown, rfl, own⟩
    | missing node =>
        cases node
        exact .halt hm fun _ he => nomatch he
    | exit | overflow | broken | exhausted => exact .halt hm fun _ he => nomatch he
  inScope frame inner m hm := (inner { m with scope := frame } hm).inScope
  heap {α k l} rest m hm := by
    have hlook := rest m.heap m.heap hm m hm
    exact ⟨hlook.ends, hlook.spots⟩
  scope _ hm := .act rfl hm
  distance node m hm := by
    cases node
    exact .act rfl hm
  noteStatement {s s'} alike m hm := by
    have hnote : ∀ s : Stmt, ∃ trace, Eval.noteStatement s m = .ok () { m with trace } := by
      intro s
      unfold Eval.noteStatement
      split
      · exact ⟨_, rfl⟩
      · exact ⟨m.trace, rfl⟩
    have hsame : Eval.noteStatement s = Eval.noteStatement s' := by
      unfold Eval.noteStatement
      rw [alike.kindName_eq]
    obtain ⟨trace, htrace⟩ := hnote s'
    rw [hsame]
    exact .act htrace hm
  print _ _ hm := .act rfl hm
  define name value m hm := .act rfl (hm.define m.scope name value)
  bindAt frame name value m hm := .act rfl (hm.define frame name value)
  setField object name value m hm := .act rfl (hm.setField object name value)
  newFrame outer bindings m hm := .act rfl (hm.addFrame outer bindings)
  newFunction {c c'} alike m hm := by
    have hsame : c = c' := by
      obtain ⟨declaration, frame, isInitializer⟩ := c
      obtain ⟨declaration', frame', isInitializer'⟩ := c'
      cases alike.held.1
      cases alike.scope
      cases alike.isInitializer
      rfl
    subst hsame
    exact .act rfl (hm.addFunction alike)
  newClass c m hm := .act rfl (hm.addClass c)
  newObject o m hm := .act rfl (hm.addObject o)

-- ==================================================================== calls

/-- A native function leaves the heap alone; if it finds a fault, the fault has no token. -/
theorem callNative_cases (native : Native) (given : List Value) (m : Machine) :
    (∃ value k, Eval.callNative native given m = .ok value k ∧ k.heap = m.heap)
      ∨ (∃ code, Eval.callNative native given m = .error (.exit code) m)
      ∨ ∃ cause : RuntimeCause, cause.native = true
        ∧ Eval.callNative native given m = .error (.fault ⟨none, cause⟩) m := by
  cases native with
  | clock => exact .inl ⟨_, _, rfl, rfl⟩
  | exit =>
      unfold Eval.callNative
      dsimp only
      cases given.headD .nil with
      | number x =>
          unfold Eval.exitWith
          dsimp only
          cases Decimal.truncate? x with
          | none => exact .inr (.inr ⟨.exitCodeNotFinite, rfl, rfl⟩)
          | some code => exact .inr (.inl ⟨code, rfl⟩)
      | _ => exact .inr (.inr ⟨.exitCodeNotNumber, rfl, rfl⟩)

/-- Checks look at the machine only. -/
theorem checkArity_ok {paren : Token} {callee : Value} {given : Nat} {u : Unit}
    (h : Eval.checkArity paren callee given m = .ok u m') : m' = m := by
  unfold Eval.checkArity at h
  rw [run_bind_ok (show Eval.heap m = .ok m.heap m from rfl)] at h
  cases ha : m.heap.arity? callee with
  | none =>
      rw [ha] at h
      cases h
  | some expected =>
      rw [ha] at h
      dsimp only at h
      split at h
      · cases h
        rfl
      · cases h

variable {run : Watch → Runner} {fuel room : Nat}

/-- A call whose callee is a native owes what the native finds; any other call passes on faults that
have their token. -/
theorem Accounts.call (hr : Runner.Corresponds (.within known)
      (fun {_} x y => Accountable known x y) run (Eval.runner fuel))
    {id : NodeId} {callee : Expr} {paren : Token} {arguments : List Expr}
    (alike : (Expr.call id callee paren arguments).Alike (.within known)
      (.call id callee paren arguments)) (hm : m.Known known) :
    Accounts known (NativeFault (.expression (.call id callee paren arguments)) m)
      (fun o => Eval.evaluateNode (run o) room (.call id callee paren arguments))
      (Eval.evaluateNode (Eval.runner fuel) room (.call id callee paren arguments)) m := by
  have hc := Accountable.correspondence known
  cases alike with
  | call node hcallee hparen harguments =>
      refine (hr.evaluate room hcallee m hm).owing.bind fun f k called hk => ?_
      -- Faults that a call passes on have their token, so that the call owes nothing.
      have hpass : (∀ given, Accountable known (fun o => Eval.invoke (run o) room f given)
            (Eval.invoke (Eval.runner fuel) room f given)) →
          Accounts known (NativeFault (.expression (.call id callee paren arguments)) m)
            (fun o => do
              Eval.checkCallable paren f
              let given ← Eval.evaluateAll (run o) room arguments
              Eval.checkArity paren f given.length
              Eval.anchored paren (Eval.invoke (run o) room f given))
            (do
              Eval.checkCallable paren f
              let given ← Eval.evaluateAll (Eval.runner fuel) room arguments
              Eval.checkArity paren f given.length
              Eval.anchored paren (Eval.invoke (Eval.runner fuel) room f given)) k := fun h =>
        Accounts.owing <| hc.bind (hc.checkCallable hparen f)
          (fun _ => hc.bind (hc.evaluateAll hr harguments) fun given =>
            hc.bind (hc.checkArity hparen f given.length) fun _ j hj => (h given j hj).anchored paren)
          k hk
      cases f with
      | native native =>
          refine Accounts.bind (.act rfl hk) fun _ k' hsame _ => ?_
          cases hsame
          refine (hc.evaluateAll hr harguments k hk).owing.bind fun given k' supplied hk' => ?_
          refine (hc.checkArity hparen (.native native) given.length k' hk').owing.bind
            fun _ j harity _ => ?_
          obtain rfl := checkArity_ok harity
          refine ⟨?_, fun _ => .inl rfl⟩
          unfold Eval.anchored
          dsimp only [Eval.invoke]
          rcases callNative_cases native given j with ⟨value, l, he, hl⟩ | ⟨code, he⟩ | ⟨cause, hn, he⟩
          · rw [he]
            show Heap.Alike _ l.heap l.heap
            rw [hl]
            exact hk'
          · rw [he]
            exact ⟨hk', fun _ he => nomatch he⟩
          · rw [he]
            refine ⟨hk', fun fault hf => ?_⟩
            cases hf
            exact ⟨paren, hparen.2, rfl, fun _ => .inl ⟨rfl, called, supplied, he, rfl⟩⟩
      | function f => exact hpass fun given => hc.callFunction hr f given
      | cls c => exact hpass fun given => hc.construct hr c given
      | _ => exact hpass fun _ => hc.broken .dangling

/-- One more step into the tree. -/
theorem Accountable.deepen (hr : Runner.Corresponds (.within known)
      (fun {_} x y => Accountable known x y) run (Eval.runner fuel)) :
    Runner.Corresponds (.within known) (fun {_} x y => Accountable known x y)
      (fun o => (run o).deepen.watched o.check o.alarm) (Eval.runner (fuel + 1)) where
  evaluate room e e' alike m hm := by
    obtain rfl := Expr.eq_of_alike alike
    refine Accounts.watch hm ?_
    cases e' with
    | call id callee paren arguments => exact Accounts.call hr alike hm
    | _ =>
        have hnode : Accountable known (fun o => Eval.evaluateNode (run o) room _)
            (Eval.evaluateNode (Eval.runner fuel) room _) :=
          (correspondence known).evaluateNode hr alike fun _ _ _ _ he => nomatch he
        exact (hnode m hm).owing
  execute room s s' alike m hm :=
    Accounts.watch hm ((correspondence known).executeNode hr alike m hm).owing
  loop _ _ _ _ _ first rest := (correspondence known).loopNode hr first rest

/-- Whatever the bound on the steps is. -/
theorem Accountable.watchedRunner (known : List Token) (fuel : Nat) :
    Runner.Corresponds (.within known) (fun {_} x y => Accountable known x y)
      (fun o => Eval.watchedRunner o.check o.alarm fuel) (Eval.runner fuel) := by
  induction fuel with
  | zero => exact (correspondence known).exhausted
  | succ fuel ih => exact deepen ih

end Lox
