/-
Places of a run: finding a name from a place, and going from one place to the
next. A name that the resolver found `d` scopes out is in the frame `d` steps
out, and the reference has its home in sight (`Tied.lookUp`). Inwards lead new
frames, onwards lead declarations.
-/
import Lox.Proofs.Lockstep.Move

namespace Lox.Lockstep

open Reference (Location Names)

variable {visits : List Visit} {still : Bool} {o p q : Pair} {homes : Homes}
  {frames : Forest Value} {frame : FrameId} {scope : Scope} {scopes : Scopes} {names : Names}
  {name : String}

-- ================================================================== finding

/-- What the resolver found some scopes out is that many frames out, and its home is in sight. -/
theorem Tied.lookUp (h : Tied homes frames frame scopes names) {distance : Nat}
    (hd : scopes.distance? name = some distance) :
    ∃ (holder : FrameId) (bound : Scope) (location : Location),
      frames.ancestor? frame distance = some holder ∧ holder ≠ globalFrame
        ∧ names.find? name = some location ∧ homes holder name = some location
        ∧ scopes[distance]? = some bound ∧ bound.binds name = true
        ∧ (bound.find? name = some true → (frames.local? holder name).isSome) := by
  induction h generalizing distance with
  | top => cases hd
  | @inner frame outer scope scopes names seen around enclosed younger sees housed ready ih =>
      rw [Scopes.distance?_cons] at hd
      by_cases hb : scope.binds name = true
      · rw [if_pos hb] at hd
        cases hd
        obtain ⟨location, hl⟩ := Option.isSome_iff_exists.1 (housed name hb)
        refine ⟨frame, scope, location, rfl, ?_, ?_, hl, rfl, hb, ready name⟩
        · exact Nat.ne_of_gt (Nat.lt_of_le_of_lt (Nat.zero_le _) younger)
        · rw [sees, if_pos hb, hl]
      · rw [if_neg hb] at hd
        obtain ⟨d, hd', rfl⟩ := Option.map_eq_some_iff.1 hd
        obtain ⟨holder, bound, location, ha, hg, hs, hh, hrest⟩ := ih hd'
        refine ⟨holder, bound, location, ?_, hg, ?_, hh, hrest⟩
        · show (frames.enclosing? frame).bind _ = some holder
          rw [enclosed]
          exact ha
        · rw [sees, if_neg hb, hs]

/-- A name that no scope binds is not in sight. -/
theorem Tied.lookUp_none (h : Tied homes frames frame scopes names)
    (hd : scopes.distance? name = none) : names.find? name = none := by
  induction h with
  | top => rfl
  | @inner frame outer scope scopes names seen around enclosed younger sees housed ready ih =>
      rw [Scopes.distance?_cons] at hd
      by_cases hb : scope.binds name = true
      · rw [if_pos hb] at hd
        cases hd
      · rw [if_neg hb, Option.map_eq_none_iff] at hd
        rw [sees, if_neg hb, ih hd]

/-- Outside all scopes the frame is the global one. -/
theorem Tied.eq_global (h : Tied homes frames frame [] names) : frame = globalFrame := by
  cases h
  rfl

/-- Inside a scope it is not. -/
theorem Tied.ne_global (h : Tied homes frames frame (scope :: scopes) names) :
    frame ≠ globalFrame := by
  cases h with
  | inner _ _ younger => exact Nat.ne_of_gt (Nat.lt_of_le_of_lt (Nat.zero_le _) younger)

theorem Tied.eq_global_iff (h : Tied homes frames frame scopes names) :
    frame = globalFrame ↔ scopes = [] := by
  cases scopes with
  | nil => exact ⟨fun _ => rfl, fun _ => h.eq_global⟩
  | cons scope scopes => exact ⟨fun he => absurd he h.ne_global, nofun⟩

-- ================================================================= distances

/-- A frame is younger than those around it, so there cannot be more of them than its number. -/
theorem Tied.length_le (h : Tied homes frames frame scopes names) : scopes.length ≤ frame := by
  induction h with
  | top => exact Nat.le_refl _
  | @inner frame outer scope scopes names seen around enclosed younger sees housed ready ih =>
      exact Nat.lt_of_le_of_lt ih younger

/-- There are as many frames around a frame as there are scopes. -/
theorem Tied.depth (hp : p.Ok visits) (h : Tied p.homes p.frames frame scopes names) :
    p.frames.depth frame = scopes.length := by
  have hwithin : ∀ fuel, scopes.length < fuel →
      (p.frames.outerWithin fuel frame).length = scopes.length := by
    induction h with
    | top =>
        intro fuel hfuel
        cases fuel with
        | zero => rfl
        | succ fuel =>
            unfold Forest.outerWithin
            rw [hp.root]
            rfl
    | @inner frame outer scope scopes names seen around enclosed younger sees housed ready ih =>
        intro fuel hfuel
        cases fuel with
        | zero => exact absurd hfuel (Nat.not_lt_zero _)
        | succ fuel =>
            unfold Forest.outerWithin
            rw [enclosed]
            show (p.frames.outerWithin fuel outer).length + 1 = scopes.length + 1
            rw [ih _ (Nat.lt_of_succ_lt_succ hfuel)]
  exact hwithin _ (Nat.lt_of_le_of_lt h.length_le (hp.lt_next h))

/-- The frame some steps out is tied to the scopes some steps out. -/
theorem Tied.ancestor (h : Tied homes frames frame scopes names) {i : Nat} {bound : Scope}
    (hi : scopes[i]? = some bound) :
    ∃ holder, frames.ancestor? frame i = some holder
      ∧ ∀ x, bound.find? x = some true → (frames.local? holder x).isSome := by
  induction h generalizing i with
  | top => cases hi
  | @inner frame outer scope scopes names seen around enclosed younger sees housed ready ih =>
      cases i with
      | zero =>
          cases hi
          exact ⟨frame, rfl, ready⟩
      | succ i =>
          obtain ⟨holder, ha, hh⟩ := ih hi
          refine ⟨holder, ?_, hh⟩
          show (frames.enclosing? frame).bind _ = some holder
          rw [enclosed]
          exact ha

-- ================================================================== onwards

/-- A move that touches no home leads to a later moment. -/
theorem Later.grow (h : Later still o p) (hg : Grown p q) (hscope : q.machine.scope = p.machine.scope)
    (hhomes : q.homes = p.homes) : Later still o q where
  toGrown := h.toGrown.trans hg
  scope := hscope.trans h.scope
  kept g hlt hs := by rw [hhomes, h.kept g hlt hs]

/-- A new home leads to a later moment; it may be in the current frame, unless that is to be
still, or in a frame that was not there before. -/
theorem Later.house (h : Later still o p) (hnew : p.homes frame name = none)
    (hframe : still = false ∧ frame = o.machine.scope ∨ o.frames.next ≤ frame) (value : Value) :
    Later still o (p.house frame name value) where
  toGrown := h.toGrown.trans (grown_house hnew value)
  scope := h.scope
  kept g hlt hs := by
    have hne : g ≠ frame := by
      rintro rfl
      rcases hframe with ⟨hstill, hg⟩ | hg
      · rcases hs with hs | hs
        · rw [hstill] at hs
          cases hs
        · exact hs hg
      · exact absurd hlt (Nat.not_lt.2 hg)
    rw [← h.kept g hlt hs]
    funext x
    exact if_neg fun hx => hne hx.1

/-- The innermost scope of a place gains a name, not ready yet. -/
theorem Tied.declare (h : Tied p.homes p.frames frame (scope :: scopes) names)
    (hnew : p.homes frame name = none) (value : Value) :
    Tied (p.house frame name value).homes (p.house frame name value).frames frame
      (scope.set name false :: scopes) (names.set name p.state.store.size) := by
  cases h with
  | @inner _ outer _ _ inner _ around enclosed younger sees housed ready =>
      refine .inner (around.mono (grown_house hnew value)) enclosed younger ?_ ?_ ?_
      · intro x
        show (names.set name p.state.store.size).find? x
          = if (scope.set name false).binds x then
              (if frame = frame ∧ x = name then some p.state.store.size else p.homes frame x)
            else inner.find? x
        unfold Bindings.binds
        rw [Bindings.find?_set, Bindings.find?_set]
        by_cases hx : name = x
        · have hself : frame = frame ∧ x = name := ⟨rfl, hx.symm⟩
          rw [if_pos hx, if_pos hx, if_pos hself]
          rfl
        · have hne : ¬(frame = frame ∧ x = name) := fun hc => hx hc.2.symm
          rw [if_neg hx, if_neg hx, if_neg hne, sees]
          rfl
      · intro x hx
        by_cases he : x = name
        · rw [he, homes_house]
          rfl
        · unfold Bindings.binds at hx
          rw [Bindings.find?_set_of_ne _ (Ne.symm he)] at hx
          obtain ⟨location, hl⟩ := Option.isSome_iff_exists.1 (housed x hx)
          rw [(grown_house hnew value).homes _ _ _ hl]
          rfl
      · intro x hx
        rw [Bindings.find?_set] at hx
        split at hx
        · cases hx
        · exact ready x hx

/-- A name of the innermost scope is ready once its frame binds it. -/
theorem Tied.define (h : Tied homes frames frame (scope :: scopes) names)
    (hb : scope.binds name = true) (hv : (frames.local? frame name).isSome) :
    Tied homes frames frame (scope.set name true :: scopes) names := by
  have hbinds : ∀ x, Bindings.binds (scope.set name true) x = scope.binds x := fun x => by
    unfold Bindings.binds at hb ⊢
    rw [Bindings.find?_set]
    split
    next hx =>
      rw [← hx, hb]
      rfl
    · rfl
  cases h with
  | inner around enclosed younger sees housed ready =>
      refine .inner around enclosed younger ?_ ?_ ?_
      · intro x
        rw [hbinds, sees]
      · intro x hx
        rw [hbinds] at hx
        exact housed x hx
      · intro x hx
        rw [Bindings.find?_set] at hx
        split at hx
        next he => exact he ▸ hv
        · exact ready x hx

/-- A name that a scope does not bind has no home in its frame, so it can get one. -/
theorem Pair.At.homes_eq_none (ha : p.At (scope :: scopes) names) {name : String}
    (hb : scope.binds name = false) : p.homes p.machine.scope name = none := by
  cases hl : p.homes p.machine.scope name with
  | none => rfl
  | some location =>
      have hbound := ha.own scope rfl name (by rw [hl]; rfl)
      rw [hb] at hbound
      cases hbound

/-- A place goes on behind a declaration whose value is still to come. -/
theorem Pair.At.house (ha : p.At (scope :: scopes) names) {name : Token}
    (hb : scope.binds name.lexeme = false) (value : Value) :
    (p.house p.machine.scope name.lexeme value).At (Scopes.declare (scope :: scopes) name).1
      (names.set name.lexeme p.state.store.size) := by
  constructor
  · exact ha.tied.declare (ha.homes_eq_none hb) value
  · intro other ho x hx
    cases ho
    unfold Bindings.binds
    rw [Bindings.find?_set]
    split
    · rfl
    next hne =>
      refine ha.own scope rfl x ?_
      replace hx : (if p.machine.scope = p.machine.scope ∧ x = name.lexeme then
        some p.state.store.size else p.homes p.machine.scope x).isSome := hx
      rwa [if_neg fun hc => hne hc.2.symm] at hx

/-- A place goes on behind a declaration when the name gets its value. -/
theorem Pair.At.put {name : Token} {location : Location} (hp : p.Ok visits)
    (ha : p.At (scopes.declare name).1 names) (hne : scopes ≠ [])
    (hhome : p.homes p.machine.scope name.lexeme = some location) (value : Value) :
    (p.put p.machine.scope name.lexeme location value).At (scopes.introduce name).1 names := by
  have hframe : p.machine.scope < p.frames.next := (hp.inside _ _ _ hhome).1
  cases scopes with
  | nil => exact absurd rfl hne
  | cons scope outer =>
      have hb : Bindings.binds (scope.set name.lexeme false) name.lexeme = true := by
        unfold Bindings.binds
        rw [Bindings.find?_set_self]
        rfl
      constructor
      · refine Tied.define (ha.tied.mono (grown_put hframe)) hb ?_
        show ((p.frames.define p.machine.scope name.lexeme value).local? p.machine.scope
          name.lexeme).isSome
        rw [Forest.local?_define hframe, if_pos ⟨rfl, rfl⟩]
        rfl
      · intro other ho x hx
        cases ho
        have hown := ha.own _ rfl x hx
        unfold Bindings.binds at hown ⊢
        rw [Bindings.find?_set]
        split
        · rfl
        · exact hown

-- ================================================================== inwards

/-- A new frame is tied to a scope without names. -/
theorem Tied.enter (hp : p.Ok visits) (h : Tied p.homes p.frames frame scopes names) :
    Tied (p.addFrame frame).homes (p.addFrame frame).frames p.frames.next (.empty :: scopes)
      names := by
  refine .inner (h.mono (grown_addFrame p frame)) ?_ (hp.lt_next h) ?_ ?_ ?_
  · show (p.frames.grow (some frame) .empty).enclosing? p.frames.next = some frame
    rw [Forest.enclosing?_grow, if_pos rfl]
  · intro x
    rfl
  · intro x hx
    cases hx
  · intro x hx
    cases hx

/-- A new frame has no names. -/
theorem Pair.Ok.homes_next (hp : p.Ok visits) (name : String) :
    p.homes p.frames.next name = none := by
  cases hl : p.homes p.frames.next name with
  | none => rfl
  | some location => exact absurd (hp.inside _ _ _ hl).1 (Nat.lt_irrefl _)

/-- The place inside a new frame. -/
theorem Pair.Ok.at_addFrame (hp : p.Ok visits) (h : Tied p.homes p.frames frame scopes names) :
    ((p.addFrame frame).enter p.frames.next).At (.empty :: scopes) names where
  tied := h.enter hp
  own _ _ name hx := by
    replace hx : (p.homes p.frames.next name).isSome := hx
    rw [hp.homes_next name] at hx
    cases hx

-- ============================================== declared and bound at once

/-- A name gets its home and its value at once. -/
def Pair.introduce (p : Pair) (frame : FrameId) (name : String) (value : Value) : Pair :=
  (p.house frame name value).put frame name p.state.store.size value

/-- The reference only allocates: the value is there from the start. -/
theorem Pair.state_introduce (p : Pair) (frame : FrameId) (name : String) (value : Value) :
    (p.introduce frame name value).state
      = { p.state with store := p.state.store.push value } := by
  have hstore : (p.state.store.push value).setIfInBounds p.state.store.size value
      = p.state.store.push value := by
    apply Array.ext_getElem?
    intro i
    rw [Array.getElem?_setIfInBounds, Array.getElem?_push]
    by_cases hi : i = p.state.store.size
    · rw [if_pos hi.symm, if_pos hi, if_pos]
      rw [Array.size_push]
      exact Nat.lt_succ_self _
    · rw [if_neg (Ne.symm hi), if_neg hi]
  show { p.state with
    store := (p.state.store.push value).setIfInBounds p.state.store.size value } = _
  rw [hstore]

theorem grown_introduce {name : String} (hframe : frame < p.frames.next)
    (hnew : p.homes frame name = none) (value : Value) : Grown p (p.introduce frame name value) :=
  (grown_house hnew value).trans (grown_put hframe)

theorem Pair.Ok.introduce (hp : p.Ok visits) {name : String} {value : Value}
    (hframe : frame < p.frames.next) (hlocal : frame ≠ globalFrame)
    (hnew : p.homes frame name = none) (hv : p.Sane visits value)
    (hparent : name = "super" → ∃ c, value = .cls c) :
    (p.introduce frame name value).Ok visits :=
  (hp.house hframe hnew value).put hlocal (homes_house frame name value)
    (hv.mono (grown_introduce hframe hnew value)) hparent

theorem Later.introduce (h : Later true o p) {name : String} (hnew : p.homes frame name = none)
    (hframe : frame < p.frames.next) (hafter : o.frames.next ≤ frame) (value : Value) :
    Later true o (p.introduce frame name value) :=
  (h.house hnew (Or.inr hafter) value).grow (grown_put hframe) rfl rfl

theorem Pair.At.introduce {name : Token} (hp : p.Ok visits)
    (ha : (p.enter frame).At (scope :: scopes) names) (hb : scope.binds name.lexeme = false)
    (value : Value) :
    ((p.introduce frame name.lexeme value).enter frame).At
      (Scopes.introduce (scope :: scopes) name).1
      (names.set name.lexeme p.state.store.size) := by
  have hnew : p.homes frame name.lexeme = none := ha.homes_eq_none hb
  have hframe : frame < p.frames.next := hp.lt_next ha.tied
  have hhouse := ha.house hb value
  exact hhouse.put ((hp.house hframe hnew value).enter frame) nofun (homes_house _ _ value)
    value

end Lox.Lockstep
