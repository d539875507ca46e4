/-
Scopes around the places of a program: how far out a name is bound, which names
are ready, and where `this` and `super` are. The resolver builds the scopes of a
place from those of the place around it; what holds of the outer scopes is
carried to the inner ones here, one lemma for each way to go inwards.
-/
import Lox.Proofs.Binding.Visit

namespace Lox

-- ====================================================== scopes and names

namespace Scopes

@[simp] theorem distance?_nil (name : String) : Scopes.distance? [] name = none := rfl

theorem distance?_cons (scope : Scope) (outer : Scopes) (name : String) :
    Scopes.distance? (scope :: outer) name
      = if scope.binds name then some 0 else (Scopes.distance? outer name).map (· + 1) := by
  unfold distance?
  rw [List.findIdx?_cons]

/-- A scope without the name only adds to its distance. -/
theorem distance?_empty_cons (scopes : Scopes) (name : String) :
    Scopes.distance? (.empty :: scopes) name = (scopes.distance? name).map (· + 1) := by
  rw [distance?_cons]
  simp [Bindings.binds]

/-- Declaring a name in the innermost scope moves no other name. -/
theorem distance?_set_of_ne (scope : Scope) (outer : Scopes) (ready : Bool)
    {name other : String} (h : name ≠ other) :
    Scopes.distance? (scope.set name ready :: outer) other
      = Scopes.distance? (scope :: outer) other := by
  have hb : Bindings.binds (scope.set name ready) other = scope.binds other := by
    unfold Bindings.binds
    rw [Bindings.find?_set_of_ne _ h]
  rw [distance?_cons, distance?_cons, hb]

theorem introduce_cons (scope : Scope) (outer : Scopes) (name : Token) :
    (Scopes.introduce (scope :: outer) name).1
      = (scope.set name.lexeme false).set name.lexeme true :: outer := rfl

theorem distance?_introduce_of_ne (scopes : Scopes) {name : Token} {other : String}
    (h : name.lexeme ≠ other) :
    (scopes.introduce name).1.distance? other = scopes.distance? other := by
  cases scopes with
  | nil => rfl
  | cons scope outer =>
      rw [introduce_cons, distance?_set_of_ne _ _ _ h, distance?_set_of_ne _ _ _ h]

/-- Every name in these scopes is ready. -/
def Ready (scopes : Scopes) : Prop :=
  ∀ scope ∈ scopes, ∀ name ready, scope.find? name = some ready → ready = true

theorem ready_nil : Scopes.Ready [] := by
  intro scope h
  cases h

theorem Ready.cons {scopes : Scopes} (h : scopes.Ready) {scope : Scope}
    (hs : ∀ name ready, scope.find? name = some ready → ready = true) :
    Scopes.Ready (scope :: scopes) := by
  intro other ho
  rcases List.mem_cons.1 ho with rfl | ho
  · exact hs
  · exact h other ho

theorem Ready.inner {scopes : Scopes} (h : scopes.Ready) : Scopes.Ready (.empty :: scopes) :=
  h.cons fun name ready hf => by simp at hf

theorem Ready.holding {scopes : Scopes} (h : scopes.Ready) (name : String) :
    Scopes.Ready (.holding name :: scopes) :=
  h.cons fun other ready hf => by
    rw [Scope.holding, Bindings.find?_set] at hf
    split at hf
    · exact (Option.some.inj hf).symm
    · simp at hf

/-- Introducing a name leaves all names ready. -/
theorem Ready.introduce {scopes : Scopes} (h : scopes.Ready) (name : Token) :
    (scopes.introduce name).1.Ready := by
  cases scopes with
  | nil => exact h
  | cons scope outer =>
      rw [introduce_cons]
      refine Ready.cons (fun o ho => h o (List.mem_cons_of_mem _ ho)) fun other ready hf => ?_
      rw [Bindings.find?_set] at hf
      split at hf
      · exact (Option.some.inj hf).symm
      next hne =>
        rw [Bindings.find?_set_of_ne _ hne] at hf
        exact h scope List.mem_cons_self other ready hf

theorem Ready.introduceAll {scopes : Scopes} (h : scopes.Ready) (params : List Token) :
    (scopes.introduceAll params).1.Ready := by
  induction params generalizing scopes with
  | nil => exact h
  | cons name rest ih => exact ih (h.introduce name)

/-- All names are ready but for one of the innermost scope, which is neither `this` nor `super`. -/
structure Settled (scopes : Scopes) : Prop where
  outer : Scopes.Ready (List.tail scopes)
  special : ∀ name, scopes.isPending name = true → name ≠ "this" ∧ name ≠ "super"

theorem Ready.settled {scopes : Scopes} (h : scopes.Ready) : scopes.Settled where
  outer scope hs := h scope (List.mem_of_mem_tail hs)
  special name hp := by
    cases scopes with
    | nil => simp [isPending] at hp
    | cons scope outer =>
        have hf : scope.find? name = some false := by simpa [isPending] using hp
        cases h scope List.mem_cons_self name false hf

/-- A name that may be declared is new to the innermost scope. -/
theorem binds_of_faults_declare {scope : Scope} {outer : Scopes} {name : Token}
    (h : (declare (scope :: outer) name).2.faults = []) : scope.binds name.lexeme = false := by
  unfold declare at h
  cases hb : scope.binds name.lexeme with
  | false => rfl
  | true =>
      simp only [hb, if_pos] at h
      cases h

/-- A name that is declared and not yet ready may be any that is not reserved. -/
theorem Ready.declare {scopes : Scopes} (h : scopes.Ready) {name : Token} (hname : name.Free) :
    (scopes.declare name).1.Settled := by
  cases scopes with
  | nil => exact h.settled
  | cons scope outer =>
      refine ⟨fun o ho => h o (List.mem_cons_of_mem _ ho), fun other hp => ?_⟩
      have hf : (scope.set name.lexeme false).find? other = some false := by
        simpa [Scopes.declare, isPending] using hp
      rw [Bindings.find?_set] at hf
      split at hf
      next he => exact he ▸ ⟨hname.ne_this, hname.ne_super⟩
      · cases h scope List.mem_cons_self other false hf

/-- A name that is not being initialized is ready where it is bound. -/
theorem Settled.ready {scopes : Scopes} (h : scopes.Settled) {name : String}
    (hp : scopes.isPending name = false) {distance : Nat} {scope : Scope}
    (hs : scopes[distance]? = some scope) (hb : scope.binds name = true) :
    scope.find? name = some true := by
  obtain ⟨ready, hf⟩ := Option.isSome_iff_exists.1 hb
  cases scopes with
  | nil => cases hs
  | cons first outer =>
      cases distance with
      | zero =>
          cases hs
          cases ready with
          | true => exact hf
          | false => simp [isPending, hf] at hp
      | succ d =>
          have hm : scope ∈ outer := List.mem_of_getElem? hs
          rw [hf, h.outer scope hm name ready hf]

-- =========================================================== surroundings

/-- Where the surroundings allow `this` it is bound, and where they allow `super` the two are bound
by neighbouring scopes, `this` by the inner one. -/
structure Fits (scopes : Scopes) (around : Surroundings) : Prop where
  this : around.inClass ≠ .none → (scopes.distance? "this").isSome
  super : around.inClass = .subclass →
    ∃ d, scopes.distance? "super" = some (d + 1) ∧ scopes.distance? "this" = some d

variable {scopes : Scopes} {around : Surroundings}

theorem fits_topLevel : Scopes.Fits [] .topLevel where
  this h := absurd rfl h
  super h := by cases h

theorem Fits.inner (h : scopes.Fits around) : Scopes.Fits (.empty :: scopes) around where
  this hc := by
    rw [distance?_empty_cons, Option.isSome_map]
    exact h.this hc
  super hc := by
    obtain ⟨d, hs, ht⟩ := h.super hc
    exact ⟨d + 1, by rw [distance?_empty_cons, hs]; rfl, by rw [distance?_empty_cons, ht]; rfl⟩

/-- Names of the program do not get in the way of `this` and `super`. -/
theorem Fits.introduce (h : scopes.Fits around) {name : Token} (hname : name.Free) :
    Scopes.Fits (scopes.introduce name).1 around where
  this hc := by
    rw [distance?_introduce_of_ne _ hname.ne_this]
    exact h.this hc
  super hc := by
    rw [distance?_introduce_of_ne _ hname.ne_this, distance?_introduce_of_ne _ hname.ne_super]
    exact h.super hc

theorem Fits.declare (h : scopes.Fits around) {name : Token} (hname : name.Free) :
    Scopes.Fits (scopes.declare name).1 around := by
  cases scopes with
  | nil => exact h
  | cons scope outer =>
      have ht := distance?_set_of_ne scope outer false hname.ne_this
      have hs := distance?_set_of_ne scope outer false hname.ne_super
      constructor
      · intro hc
        show (Scopes.distance? (scope.set name.lexeme false :: outer) "this").isSome
        rw [ht]
        exact h.this hc
      · intro hc
        show ∃ d, Scopes.distance? (scope.set name.lexeme false :: outer) "super" = some (d + 1)
          ∧ Scopes.distance? (scope.set name.lexeme false :: outer) "this" = some d
        rw [ht, hs]
        exact h.super hc

theorem Fits.introduceAll (h : scopes.Fits around) {params : List Token}
    (hparams : ∀ param ∈ params, param.Free) :
    Scopes.Fits (scopes.introduceAll params).1 around := by
  induction params generalizing scopes with
  | nil => exact h
  | cons name rest ih =>
      exact ih (h.introduce (hparams name List.mem_cons_self))
        fun param hp => hparams param (List.mem_cons_of_mem _ hp)

/-- Only the class around a place counts. -/
theorem Fits.inFunction (h : scopes.Fits around) (kind : FunctionKind) :
    scopes.Fits ⟨kind, around.inClass⟩ :=
  ⟨h.this, h.super⟩

/-- The scopes around the methods of a class bind what the methods may mention. -/
theorem fits_ofMethods (scopes : Scopes) (parent : Option NameRef) (kind : FunctionKind) :
    (scopes.ofMethods parent).Fits ⟨kind, .ofSuperclass parent⟩ := by
  cases parent with
  | none =>
      refine ⟨fun _ => ?_, fun hc => by cases hc⟩
      rw [ofMethods, distance?_cons]
      rfl
  | some parent =>
      refine ⟨fun _ => ?_, fun _ => ⟨0, ?_, ?_⟩⟩
      · rw [ofMethods, distance?_cons]
        rfl
      · rw [ofMethods, distance?_cons, distance?_cons]
        rfl
      · rw [ofMethods, distance?_cons]
        rfl

theorem Ready.ofMethods (h : scopes.Ready) (parent : Option NameRef) :
    (scopes.ofMethods parent).Ready := by
  cases parent with
  | none => exact h.holding "this"
  | some parent => exact (h.holding "super").holding "this"

end Scopes

end Lox
