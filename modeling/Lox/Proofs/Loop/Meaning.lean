/-
The tree of a `for` on the machine, with its frames and the distances that the
resolver gave it, against the `for` itself. The two are compared at a place that
both sides of a pair stand at (`Pair.Faces`); every moment at which a run enters
the tree is such a place, and from there they go the same way to the end.
-/
import Lox.Proofs.Lockstep.Accepted
import Lox.Proofs.Binding.Inside
import Lox.Proofs.Loop.Desugared

namespace Lox

open Session (Prepares History)
open Reference (Sight performFor finish)

namespace Lockstep

variable {visits : List Visit} {p : Pair} {sight : Sight} {around : Surroundings}
  {scopes : Scopes} {s : Stmt} {loop : ForLoop} {whole : Stmt} {fuel room : Nat}

/-- The two sides of a pair agree, and they are where the resolver was when it came to a statement,
of which it then visited every part. -/
structure Pair.Faces (p : Pair) (visits : List Visit) (sight : Sight) (around : Surroundings)
    (scopes : Scopes) (s : Stmt) : Prop where
  ok : p.Ok visits
  place : p.At scopes sight.names
  inner : sight.inner = !scopes.isEmpty
  visited : ∀ v ∈ s.visits around scopes, v ∈ visits

/-- The machine and the reference end a loop alike, and then see what they saw before it. -/
def Left (visits : List Visit) (sight : Sight) (scopes : Scopes) (c d : Completion) (q : Pair) :
    Prop :=
  Completed visits c d q ∧ q.At scopes sight.names

/-- A statement that declares nothing does on the machine what it does in the reference. -/
theorem Pair.Faces.ends (h : p.Faces visits sight around scopes s) (hplain : s.declares = none)
    (fuel room : Nat) :
    Ends visits false p (Left visits sight scopes) (Eval.execute fuel room s p.machine)
      (finish ((Reference.runner fuel).execute sight room s) p.state) := by
  have hpassing : Passing visits fun _ _ => true := fun _ _ _ _ _ => rfl
  have hsound : Sound visits (Eval.watchedRunner (fun _ _ => true) .exhausted fuel)
      (Eval.runner fuel) (Reference.runner fuel) := sound_watchedRunner hpassing fuel
  have hback : Sim visits false p _ _ (finish ((Reference.runner fuel).execute sight room s))
      (Left visits sight scopes) :=
    (hsound.plain h.ok h.place h.inner h.visited hplain).adding fun _ _ _ h => h
  exact hback.ends

/-- Wherever a run comes to a statement, there is a place that faces it. -/
theorem exists_faces {bodies : List (List Stmt)} {session session' : Session} {text : List Char}
    {label : String} {body : List Stmt} (before : History bodies session)
    (accepted : session.Prepares text label body session') {k : Machine}
    (h : Enters fuel room body session'.machine (.statement s) k) :
    ∃ (p : Pair) (sight : Sight) (around : Surroundings) (scopes : Scopes), p.machine = k
      ∧ p.Faces (Session.visits (body :: bodies)) sight around scopes s := by
  obtain ⟨start, hstart⟩ := exists_steady_of_prepares before accepted
  rw [← hstart.machine] at h
  obtain ⟨v, hv, hnode, p, rfl, hp, hmeets⟩ := exists_meets hstart.ok hstart.at
    (fun v hv => mem_visits_cons body bodies hv) h
  cases hmeets with
  | @here node around scopes names place =>
      obtain rfl : node = .statement s := hnode
      exact ⟨p, ⟨!scopes.isEmpty, names⟩, around, scopes, rfl, hp, place, rfl,
        Session.visits_thorough _ _ hv rfl⟩
  | naming => cases hnode

/-- What was cut short on one side was cut short on the other. -/
theorem Ends.ranShort {α β : Type} {still : Bool} {post : α → β → Pair → Prop}
    {x : EStateM.Result Stop Machine α} {y : EStateM.Result Stop Reference.State β}
    (h : Ends visits still p post x y) : RanShort x ↔ RanShort y := by
  cases h with
  | ok => exact ⟨nofun, nofun⟩
  | error =>
      constructor
      · rintro ⟨_, he⟩
        cases he
        exact ⟨_, rfl⟩
      · rintro ⟨_, he⟩
        cases he
        exact ⟨_, rfl⟩

end Lockstep

open Lockstep

variable {visits : List Visit} {p : Pair} {sight : Sight} {around : Surroundings}
  {scopes : Scopes} {loop : ForLoop} {whole : Stmt}

/-- A machine does with a tree what the reference does with a `for`, and sees afterwards what it saw
before. -/
structure ForLoop.RunsAs (loop : ForLoop) (whole : Stmt) (visits : List Visit) (sight : Sight)
    (scopes : Scopes) (p : Pair) : Prop where
  /-- The tree that comes to its end does what the `for` does in as many steps. -/
  tree (fuel room : Nat) : RanShort (Eval.execute fuel room whole p.machine)
    ∨ Lockstep.Ends visits false p (Left visits sight scopes) (Eval.execute fuel room whole p.machine)
      (performFor loop sight room fuel p.state)
  /-- The `for` that comes to its end is done by the tree in some steps more. -/
  direct (fuel room : Nat) : RanShort (performFor loop sight room fuel p.state)
    ∨ Lockstep.Ends visits false p (Left visits sight scopes)
      (Eval.execute (fuel + 4) room whole p.machine) (performFor loop sight room fuel p.state)

theorem ForLoop.Makes.runsAs (h : loop.Makes whole)
    (hfaces : p.Faces visits sight around scopes whole) :
    loop.RunsAs whole visits sight scopes p := by
  have hproper := hfaces.ok.proper hfaces.visited
  constructor
  · intro fuel room
    have hends := hfaces.ends h.built.declares fuel room
    rcases Reference.execute_sooner_performFor h hproper fuel room sight p.state with he | hshort
    · rw [he] at hends
      exact .inr hends
    · exact .inl (hends.ranShort.mpr hshort)
  · intro fuel room
    have hends := hfaces.ends h.built.declares (fuel + 4) room
    rcases Reference.performFor_sooner_execute h hproper fuel room sight p.state with he | hshort
    · rw [← he] at hends
      exact .inr hends
    · exact .inl hshort

/-- **A `for` means what it says.** Whatever the grammar reads as a `for` is the tree of the clauses
that stand there. Wherever a run of an accepted program comes to such a tree, the machine has a
reference beside it, and from any such place the two go the same way: the machine through the tree,
by frames and distances, and the reference through the clauses. -/
theorem for_means_clauses {bodies : List (List Stmt)} {s s' : Session} {text : List Char}
    {label : String} {body : List Stmt} (before : History bodies s)
    (accepted : s.Prepares text label body s') :
    (∀ size outer depth start behind whole,
        Parser.forStmt (Parser.assignment size) (Parser.statement (Parser.assignment size)
          (Parser.braced (Parser.declaration (Parser.assignment size) outer)) depth) start
          = .ok whole behind →
        behind.recovered.length = start.recovered.length →
        ∃ (loop : ForLoop) (ws : List Word),
          loop.Spells ws ∧ start.cursor.Passes ws behind.cursor ∧ loop.Makes whole)
      ∧ (∀ fuel room whole k, Enters fuel room body s'.machine (.statement whole) k →
          ∃ (p : Pair) (sight : Sight) (around : Surroundings) (scopes : Scopes), p.machine = k
            ∧ p.Faces (Session.visits (body :: bodies)) sight around scopes whole)
      ∧ ∀ (loop : ForLoop) (whole : Stmt) (p : Pair) (sight : Sight) (around : Surroundings)
          (scopes : Scopes), loop.Makes whole →
          p.Faces (Session.visits (body :: bodies)) sight around scopes whole →
          loop.RunsAs whole (Session.visits (body :: bodies)) sight scopes p := by
  refine ⟨?_, ?_, ?_⟩
  · intro size outer depth start behind whole hread hclean
    exact Parser.makes_of_forStmt hread hclean
  · intro fuel room whole k henters
    exact exists_faces before accepted henters
  · intro loop whole p sight around scopes hmakes hfaces
    exact hmakes.runsAs hfaces

/-- A `for` with all its clauses, the last of which sees the variable of the first. -/
def countingText : List Char := "for (var i = true; i; i = !i) \x7b var j = i; print j; \x7d".toList

/-- Whether a program is the tree of a `for` with all clauses, which prints a text. -/
def countsTo (fuel room : Nat) (printed : String) (body : List Stmt) (s : Session) : Bool :=
  match body with
  | [.block _ [.varDecl .., .whileLoop _ _ (.block _ [inner, .expression ..])]] =>
    inner.declares.isNone && body.all fun whole =>
      match Eval.execute fuel room whole s.machine with
      | .ok .normal m => m.output == printed
      | _ => false
  | _ => false

theorem for_means_clauses_counting :
    ∃ body s' loop whole p sight scopes m,
      (Session.start false 0).Prepares countingText "" body s'
        ∧ Enters 1 0 body s'.machine (.statement whole) p.machine
        ∧ loop.initializer.isSome ∧ loop.condition.isSome ∧ loop.increment.isSome
        ∧ loop.Makes whole ∧ Eval.execute 60 9 whole p.machine = .ok .normal m
        ∧ m.output = "true\n"
        ∧ Lockstep.Ends (Session.visits [body]) false p (Left (Session.visits [body]) sight scopes)
          (.ok .normal m) (performFor loop sight 9 60 p.state) := by
  have hcheck : (Session.start false 0).accepting countingText (countsTo 60 9 "true\n") = true := by
    decide +kernel
  obtain ⟨body, s', accepted, hcounts⟩ := Session.exists_of_accepting hcheck
  unfold countsTo at hcounts
  split at hcounts
  · rename_i blockId varId name value whileId condition stepId inner lastId increment
    obtain ⟨hinner, hran⟩ := Bool.and_eq_true_iff.mp hcounts
    rw [List.all_cons, List.all_nil, Bool.and_true] at hran
    split at hran
    · rename_i m hexecute
      let loop : ForLoop := ⟨some (.varDecl varId name value), some condition, some increment, inner⟩
      let whole : Stmt := .block blockId [.varDecl varId name value,
        .whileLoop whileId condition (.block stepId [inner, .expression lastId increment])]
      have hmakes : loop.Makes whole :=
        ⟨fun first hfirst => by cases hfirst; trivial, Option.isNone_iff_eq_none.mp hinner,
          .mk (.given _) (.stepped ..) (.started ..)⟩
      have henters := enters_first 0 0 whole [] s'.machine
      obtain ⟨-, hfaces, hruns⟩ := for_means_clauses (.start false 0) accepted
      obtain ⟨p, sight, around, scopes, hmachine, hfaced⟩ := hfaces _ _ _ _ henters
      rw [← hmachine] at hexecute
      rcases (hruns loop _ p sight around scopes hmakes hfaced).tree 60 9 with ⟨_, hshort⟩ | hends
      · rw [hexecute] at hshort
        cases hshort
      · rw [hexecute] at hends
        exact ⟨_, s', loop, whole, p, sight, scopes, m, accepted, hmachine ▸ henters, rfl, rfl, rfl,
          hmakes, hexecute, beq_iff_eq.mp hran, hends⟩
    · cases hran
  · cases hcounts

end Lox
