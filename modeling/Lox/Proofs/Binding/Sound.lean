/-
What an accepted program has at each of its visits (`Visit.Sound`): nothing is
at fault, the scopes fit their surroundings, and the distance table says of the
reference at this node how far out its name is bound.

The shape of the program gives the scopes (`Visit.Orderly`). The table needs one
thing more: no two nodes share an identity, neither in the program nor with a
program that was resolved before, or a later link would hide an earlier one.
-/
import Lox.Proofs.Binding.Scopes
import Lox.Binding.Distances
import Mathlib.Data.List.Nodup

namespace Lox

-- ===================================================== behind a statement

/-- The scopes behind a statement that stands in some scopes. -/
def Scopes.behind (scopes : Scopes) (s : Stmt) : Scopes :=
  match s.declares with
  | none => scopes
  | some name => (scopes.introduce name).1

theorem Scopes.behind_of_declares_none {s : Stmt} (h : s.declares = none) (scopes : Scopes) :
    scopes.behind s = scopes := by
  rw [Scopes.behind, h]

/-- At the top level nothing is declared. -/
theorem Scopes.behind_nil (s : Stmt) : Scopes.behind [] s = [] := by
  unfold Scopes.behind
  cases s.declares <;> rfl

/-- Only the innermost scope changes. -/
theorem Scopes.exists_behind_cons (scope : Scope) (outer : Scopes) (s : Stmt) :
    ∃ scope', Scopes.behind (scope :: outer) s = scope' :: outer := by
  unfold Scopes.behind
  cases s.declares with
  | none => exact ⟨scope, rfl⟩
  | some name => exact ⟨_, Scopes.introduce_cons scope outer name⟩

/-- A branch that declares nothing leaves no trace, so only the declarations of the scope itself
change it. -/
theorem Stmt.scopes_resolve (around : Surroundings) (scopes : Scopes) :
    ∀ s : Stmt, (∀ n ∈ s.nodes, n.Proper) → (s.resolve around scopes).1 = scopes.behind s
  | .expression .., _ | .print .., _ | .varDecl .., _ | .block .., _ | .funDecl .., _
  | .returnStmt .., _ | .classDecl _ _ none _, _ | .classDecl _ _ (some _) _, _ => rfl
  | .ifThen id condition thenBranch, h => by
      have hp : thenBranch.declares = none := h _ (Stmt.mem_nodes (.ifThen id condition thenBranch))
      have ht := Stmt.scopes_resolve around scopes thenBranch fun n hn => h n (by
        simp [Stmt.nodes, hn])
      exact ht.trans (Scopes.behind_of_declares_none hp scopes)
  | .ifElse id condition thenBranch elseBranch, h => by
      have hp : thenBranch.declares = none ∧ elseBranch.declares = none :=
        h _ (Stmt.mem_nodes (.ifElse id condition thenBranch elseBranch))
      have ht := Stmt.scopes_resolve around scopes thenBranch fun n hn => h n (by
        simp [Stmt.nodes, hn])
      rw [Scopes.behind_of_declares_none hp.1] at ht
      have he := Stmt.scopes_resolve around scopes elseBranch fun n hn => h n (by
        simp [Stmt.nodes, hn])
      rw [Scopes.behind_of_declares_none hp.2] at he
      show (elseBranch.resolve around (thenBranch.resolve around scopes).1).1 = scopes
      rw [ht, he]
  | .whileLoop id condition body, h => by
      have hp : body.declares = none := h _ (Stmt.mem_nodes (.whileLoop id condition body))
      have hb := Stmt.scopes_resolve around scopes body fun n hn => h n (by
        simp [Stmt.nodes, hn])
      exact hb.trans (Scopes.behind_of_declares_none hp scopes)

theorem Stmt.scopes_resolve_of_declares_none {around : Surroundings} {scopes : Scopes} {s : Stmt}
    (h : ∀ n ∈ s.nodes, n.Proper) (hdeclares : s.declares = none) :
    (s.resolve around scopes).1 = scopes := by
  rw [s.scopes_resolve around scopes h, Scopes.behind_of_declares_none hdeclares]

theorem Scopes.Ready.behind {scopes : Scopes} (h : scopes.Ready) (s : Stmt) :
    (scopes.behind s).Ready := by
  unfold Scopes.behind
  cases s.declares with
  | none => exact h
  | some name => exact h.introduce name

theorem Stmt.free_of_declares {s : Stmt} (hs : Node.Proper (.statement s)) {name : Token}
    (h : s.declares = some name) : name.Free := by
  cases s <;> simp only [Stmt.declares, Option.some.injEq, reduceCtorEq] at h
  case varDecl => exact h ▸ hs
  case funDecl => exact h ▸ hs.1
  case classDecl => exact h ▸ hs.1

theorem Scopes.Fits.behind {scopes : Scopes} {around : Surroundings} (h : scopes.Fits around)
    {s : Stmt} (hs : Node.Proper (.statement s)) : (scopes.behind s).Fits around := by
  unfold Scopes.behind
  cases hd : s.declares with
  | none => exact h
  | some name => exact h.introduce (Stmt.free_of_declares hs hd)

-- ======================================================== orderly visits

/-- The scopes of a visit fit what surrounds them, and all names but one that is being initialized
are ready. -/
structure Visit.Orderly (v : Visit) : Prop where
  fits : v.scopes.Fits v.around
  settled : v.scopes.Settled

mutual

theorem Expr.visits_orderly {around : Surroundings} {scopes : Scopes} (hf : scopes.Fits around)
    (hs : scopes.Settled) : ∀ e : Expr, ∀ v ∈ e.visits around scopes, v.Orderly
  | .literal .., v, hv | .var .., v, hv | .this .., v, hv | .super .., v, hv => by
      rw [Expr.visits, List.mem_singleton] at hv
      exact hv ▸ ⟨hf, hs⟩
  | .assign _ _ a, v, hv | .unary _ _ a, v, hv | .grouping _ a, v, hv | .get _ a _, v, hv => by
      rw [Expr.visits] at hv
      rcases List.mem_cons.1 hv with rfl | hv
      · exact ⟨hf, hs⟩
      · exact Expr.visits_orderly hf hs a v hv
  | .binary _ a _ b, v, hv | .logical _ a _ b, v, hv | .set _ b _ a, v, hv => by
      rw [Expr.visits] at hv
      rcases List.mem_cons.1 hv with rfl | hv
      · exact ⟨hf, hs⟩
      · rcases List.mem_append.1 hv with hv | hv
        · exact Expr.visits_orderly hf hs a v hv
        · exact Expr.visits_orderly hf hs b v hv
  | .call _ callee _ arguments, v, hv => by
      rw [Expr.visits] at hv
      rcases List.mem_cons.1 hv with rfl | hv
      · exact ⟨hf, hs⟩
      · rcases List.mem_append.1 hv with hv | hv
        · exact Expr.visits_orderly hf hs callee v hv
        · exact Expr.visitsAll_orderly hf hs arguments v hv

theorem Expr.visitsAll_orderly {around : Surroundings} {scopes : Scopes} (hf : scopes.Fits around)
    (hs : scopes.Settled) : ∀ es : List Expr, ∀ v ∈ Expr.visitsAll around scopes es, v.Orderly
  | [], v, hv => by cases hv
  | e :: rest, v, hv => by
      rcases List.mem_append.1 hv with hv | hv
      · exact Expr.visits_orderly hf hs e v hv
      · exact Expr.visitsAll_orderly hf hs rest v hv

end

theorem Expr.visitsOptional_orderly {around : Surroundings} {scopes : Scopes}
    (hf : scopes.Fits around) (hs : scopes.Settled) (e : Option Expr) :
    ∀ v ∈ Expr.visitsOptional around scopes e, v.Orderly := by
  cases e with
  | none =>
      intro v hv
      cases hv
  | some e => exact e.visits_orderly hf hs

mutual

theorem Stmt.visits_orderly {around : Surroundings} {scopes : Scopes} (hf : scopes.Fits around)
    (hr : scopes.Ready) :
    ∀ s : Stmt, (∀ n ∈ s.nodes, n.Proper) → ∀ v ∈ s.visits around scopes, v.Orderly
  | .expression _ e, _, v, hv | .print _ e, _, v, hv => by
      rw [Stmt.visits] at hv
      rcases List.mem_cons.1 hv with rfl | hv
      · exact ⟨hf, hr.settled⟩
      · exact e.visits_orderly hf hr.settled v hv
  | .varDecl id name initializer, h, v, hv => by
      have hname : name.Free := h _ (Stmt.mem_nodes (.varDecl id name initializer))
      rw [Stmt.visits] at hv
      rcases List.mem_cons.1 hv with rfl | hv
      · exact ⟨hf, hr.settled⟩
      · exact Expr.visitsOptional_orderly (hf.declare hname) (hr.declare hname) initializer v hv
  | .block _ body, h, v, hv => by
      rw [Stmt.visits] at hv
      rcases List.mem_cons.1 hv with rfl | hv
      · exact ⟨hf, hr.settled⟩
      · exact Stmt.visitsAll_orderly hf.inner hr.inner body
          (fun n hn => h n (List.mem_cons_of_mem _ hn)) v hv
  | .ifThen _ condition thenBranch, h, v, hv => by
      have hthen : ∀ n ∈ thenBranch.nodes, n.Proper := fun n hn => h n (by simp [Stmt.nodes, hn])
      rw [Stmt.visits] at hv
      rcases List.mem_cons.1 hv with rfl | hv
      · exact ⟨hf, hr.settled⟩
      · rcases List.mem_append.1 hv with hv | hv
        · exact condition.visits_orderly hf hr.settled v hv
        · exact Stmt.visits_orderly hf hr thenBranch hthen v hv
  | .ifElse id condition thenBranch elseBranch, h, v, hv => by
      have hp : thenBranch.declares = none ∧ elseBranch.declares = none :=
        h _ (Stmt.mem_nodes (.ifElse id condition thenBranch elseBranch))
      have hthen : ∀ n ∈ thenBranch.nodes, n.Proper := fun n hn => h n (by simp [Stmt.nodes, hn])
      have helse : ∀ n ∈ elseBranch.nodes, n.Proper := fun n hn => h n (by simp [Stmt.nodes, hn])
      rw [Stmt.visits, Stmt.scopes_resolve_of_declares_none hthen hp.1] at hv
      rcases List.mem_cons.1 hv with rfl | hv
      · exact ⟨hf, hr.settled⟩
      · rcases List.mem_append.1 hv with hv | hv
        · rcases List.mem_append.1 hv with hv | hv
          · exact condition.visits_orderly hf hr.settled v hv
          · exact Stmt.visits_orderly hf hr thenBranch hthen v hv
        · exact Stmt.visits_orderly hf hr elseBranch helse v hv
  | .whileLoop _ condition body, h, v, hv => by
      have hbody : ∀ n ∈ body.nodes, n.Proper := fun n hn => h n (by simp [Stmt.nodes, hn])
      rw [Stmt.visits] at hv
      rcases List.mem_cons.1 hv with rfl | hv
      · exact ⟨hf, hr.settled⟩
      · rcases List.mem_append.1 hv with hv | hv
        · exact condition.visits_orderly hf hr.settled v hv
        · exact Stmt.visits_orderly hf hr body hbody v hv
  | .funDecl f, h, v, hv => by
      have hp : f.name.Free ∧ ∀ param ∈ f.params, param.Free := h _ (Stmt.mem_nodes (.funDecl f))
      rw [Stmt.visits] at hv
      rcases List.mem_cons.1 hv with rfl | hv
      · exact ⟨hf, hr.settled⟩
      · exact FunDecl.visits_orderly ((hf.introduce hp.1).inFunction .function)
          (hr.introduce f.name) f hp.2 (fun n hn => h n (List.mem_cons_of_mem _ hn)) v hv
  | .returnStmt _ _ value, _, v, hv => by
      rw [Stmt.visits] at hv
      rcases List.mem_cons.1 hv with rfl | hv
      · exact ⟨hf, hr.settled⟩
      · exact Expr.visitsOptional_orderly hf hr.settled value v hv
  | .classDecl id name superclass methods, h, v, hv => by
      have hp : name.Free ∧ ∀ f ∈ methods, ∀ param ∈ f.params, param.Free :=
        h _ (Stmt.mem_nodes (.classDecl id name superclass methods))
      have hmethods : ∀ n ∈ FunDecl.nodesAll methods, n.Proper := fun n hn => h n (by
        simp [Stmt.nodes, hn])
      rw [Stmt.visits] at hv
      rcases List.mem_cons.1 hv with rfl | hv
      · exact ⟨hf, hr.settled⟩
      · rcases List.mem_append.1 hv with hv | hv
        · cases superclass with
          | none => cases hv
          | some parent =>
              rw [NameRef.visits, List.mem_singleton] at hv
              exact hv ▸ ⟨hf.introduce hp.1, (hr.introduce name).settled⟩
        · exact FunDecl.visitsAll_orderly (Scopes.fits_ofMethods _ superclass)
            ((hr.introduce name).ofMethods superclass) methods hp.2 hmethods v hv

theorem Stmt.visitsAll_orderly {around : Surroundings} {scopes : Scopes} (hf : scopes.Fits around)
    (hr : scopes.Ready) : ∀ body : List Stmt, (∀ n ∈ Stmt.nodesAll body, n.Proper) →
      ∀ v ∈ Stmt.visitsAll around scopes body, v.Orderly
  | [], _, v, hv => by cases hv
  | s :: rest, h, v, hv => by
      have hs : ∀ n ∈ s.nodes, n.Proper := fun n hn => h n (List.mem_append_left _ hn)
      rw [Stmt.visitsAll, Stmt.scopes_resolve around scopes s hs] at hv
      rcases List.mem_append.1 hv with hv | hv
      · exact Stmt.visits_orderly hf hr s hs v hv
      · exact Stmt.visitsAll_orderly (hf.behind (hs _ s.mem_nodes)) (hr.behind s) rest
          (fun n hn => h n (List.mem_append_right _ hn)) v hv

theorem FunDecl.visits_orderly {around : Surroundings} {scopes : Scopes} (hf : scopes.Fits around)
    (hr : scopes.Ready) : ∀ f : FunDecl, (∀ param ∈ f.params, param.Free) →
      (∀ n ∈ f.nodes, n.Proper) → ∀ v ∈ f.visits around scopes, v.Orderly
  | .mk _ _ params body, hparams, h, v, hv =>
      Stmt.visitsAll_orderly (hf.inner.introduceAll hparams) (hr.inner.introduceAll params) body h
        v hv

theorem FunDecl.visitsAll_orderly {inClass : ClassKind} {scopes : Scopes}
    (hf : ∀ kind : FunctionKind, scopes.Fits ⟨kind, inClass⟩) (hr : scopes.Ready) :
    ∀ methods : List FunDecl, (∀ f ∈ methods, ∀ param ∈ f.params, param.Free) →
      (∀ n ∈ FunDecl.nodesAll methods, n.Proper) →
      ∀ v ∈ FunDecl.visitsAll inClass scopes methods, v.Orderly
  | [], _, _, v, hv => by cases hv
  | f :: rest, hparams, h, v, hv => by
      rcases List.mem_append.1 hv with hv | hv
      · exact FunDecl.visits_orderly (hf f.methodKind) hr f (hparams f List.mem_cons_self)
          (fun n hn => h n (List.mem_append_left _ hn)) v hv
      · exact FunDecl.visitsAll_orderly hf hr rest
          (fun g hg => hparams g (List.mem_cons_of_mem _ hg))
          (fun n hn => h n (List.mem_append_right _ hn)) v hv

end

theorem programVisits_orderly {body : List Stmt} (h : ∀ n ∈ Stmt.nodesAll body, n.Proper) :
    ∀ v ∈ programVisits body, v.Orderly :=
  Stmt.visitsAll_orderly Scopes.fits_topLevel Scopes.ready_nil body h

-- =================================================== what a visit links

theorem Scopes.mem_link {scopes : Scopes} {id : NodeId} {name : String} {link : Link} :
    link ∈ (scopes.link id name).links
      ↔ link.id = id ∧ link.name = name ∧ scopes.distance? name = some link.distance := by
  obtain ⟨linkId, linkName, distance⟩ := link
  unfold Scopes.link
  cases scopes.distance? name with
  | none => simp [Survey.empty]
  | some d => simp [eq_comm]

theorem Scopes.links_declare (scopes : Scopes) (name : Token) :
    (scopes.declare name).2.links = [] := by
  cases scopes with
  | nil => rfl
  | cons scope outer =>
      show (if scope.binds name.lexeme then Survey.fault .redeclared name else .empty).links = []
      split <;> rfl

theorem Scopes.links_introduceAll (scopes : Scopes) (params : List Token) :
    (scopes.introduceAll params).2.links = [] := by
  induction params generalizing scopes with
  | nil => rfl
  | cons name rest ih =>
      show (scopes.declare name).2.links ++ ((scopes.introduce name).1.introduceAll rest).2.links
        = []
      rw [Scopes.links_declare, ih, List.append_nil]

theorem FunDecl.links_paramFaultsAll (scopes : Scopes) (methods : List FunDecl) :
    (FunDecl.paramFaultsAll scopes methods).links = [] := by
  induction methods with
  | nil => rfl
  | cons f rest ih =>
      show (Scopes.introduceAll (.empty :: scopes) f.params).2.links
        ++ (FunDecl.paramFaultsAll scopes rest).links = []
      rw [Scopes.links_introduceAll, ih, List.append_nil]

theorem Surroundings.links_returnFaults (around : Surroundings) (keyword : Token)
    (hasValue : Bool) : (around.returnFaults keyword hasValue).links = [] := by
  unfold Surroundings.returnFaults
  rw [Survey.links_append]
  split <;> split <;> rfl

theorem Scopes.links_ownSuperclass (name : Token) (parent : Option NameRef) :
    (Scopes.ownSuperclass name parent).links = [] := by
  cases parent with
  | none => rfl
  | some parent =>
      rw [Scopes.ownSuperclass]
      split <;> rfl

theorem Scopes.links_readVariable (scopes : Scopes) (id : NodeId) (name : Token) :
    (scopes.readVariable id name).links = (scopes.link id name.lexeme).links := by
  unfold Scopes.readVariable
  rw [Survey.links_append]
  split <;> rfl

/-- The name that a node looks up. -/
def Node.reference? : Node → Option String
  | .expression (.var _ name) | .expression (.assign _ name _) => some name.lexeme
  | .expression (.this ..) => some "this"
  | .expression (.super ..) => some "super"
  | _ => none

/-- A visit links the name that its node looks up, and no other. -/
theorem Visit.mem_finding_links {v : Visit} {link : Link} (h : link ∈ v.finding.links) :
    link.id = v.node.id ∧ v.node.reference? = some link.name
      ∧ v.scopes.distance? link.name = some link.distance := by
  obtain ⟨node, around, scopes, naming⟩ := v
  unfold Visit.finding at h
  split at h
  case h_1 id name he =>
      rw [Scopes.links_readVariable, Scopes.mem_link] at h
      cases he
      exact ⟨h.1, by rw [h.2.1]; rfl, by rw [h.2.1]; exact h.2.2⟩
  case h_2 id name value he =>
      rw [Scopes.mem_link] at h
      cases he
      exact ⟨h.1, by rw [h.2.1]; rfl, by rw [h.2.1]; exact h.2.2⟩
  case h_3 id keyword he =>
      cases he
      rw [Expr.resolve] at h
      split at h
      · cases h
      · rw [Scopes.mem_link] at h
        exact ⟨h.1, by rw [h.2.1]; rfl, by rw [h.2.1]; exact h.2.2⟩
  case h_4 id keyword name he =>
      cases he
      rw [Expr.resolve] at h
      split at h
      · cases h
      · cases h
      · rw [Scopes.mem_link] at h
        exact ⟨h.1, by rw [h.2.1]; rfl, by rw [h.2.1]; exact h.2.2⟩
  case h_5 => cases h
  case h_6 =>
      rw [Scopes.links_declare] at h
      cases h
  case h_7 =>
      rw [Survey.links_append, FunDecl.paramFaults, Scopes.links_introduceAll] at h
      rw [show (Scopes.introduce scopes _).2 = (Scopes.declare scopes _).2 from rfl,
        Scopes.links_declare] at h
      cases h
  case h_8 =>
      rw [Surroundings.links_returnFaults] at h
      cases h
  case h_9 =>
      rw [Survey.links_append, Survey.links_append, FunDecl.links_paramFaultsAll,
        Scopes.links_ownSuperclass] at h
      rw [show (Scopes.introduce scopes _).2 = (Scopes.declare scopes _).2 from rfl,
        Scopes.links_declare] at h
      cases h
  case h_10 => cases h

/-- Where nothing is at fault, the name that a node looks up is linked if a scope binds it. -/
theorem Visit.link_mem_finding {v : Visit} (hclear : v.finding.faults = []) {name : String}
    (hname : v.node.reference? = some name) {distance : Nat}
    (hd : v.scopes.distance? name = some distance) :
    ⟨v.node.id, name, distance⟩ ∈ v.finding.links := by
  obtain ⟨node, around, scopes, naming⟩ := v
  cases node with
  | statement s => cases hname
  | expression e =>
      cases e with
      | var id token =>
          cases hname
          show _ ∈ (scopes.readVariable id token).links
          rw [Scopes.links_readVariable]
          exact Scopes.mem_link.2 ⟨rfl, rfl, hd⟩
      | assign id token value =>
          cases hname
          exact Scopes.mem_link.2 ⟨rfl, rfl, hd⟩
      | this id keyword =>
          cases hname
          simp only [Visit.finding, Expr.resolve] at hclear ⊢
          split at hclear
          · cases hclear
          · exact Scopes.mem_link.2 ⟨rfl, rfl, hd⟩
      | super id keyword method =>
          cases hname
          simp only [Visit.finding, Expr.resolve] at hclear ⊢
          split at hclear
          · cases hclear
          · cases hclear
          · exact Scopes.mem_link.2 ⟨rfl, rfl, hd⟩
      | _ => cases hname

-- ============================================================ sound visits

/-- A visit at which the evaluator can rely on a distance table. -/
structure Visit.Sound (table : Distances) (v : Visit) : Prop extends v.Orderly where
  clear : v.finding.faults = []
  proper : v.node.Proper
  linked : ∀ name, v.node.reference? = some name → table[v.node.id]? = v.scopes.distance? name

namespace Visit.Sound

variable {table : Distances} {v : Visit} {id : NodeId}

/-- A variable is not read while it is being initialized. -/
theorem not_pending (h : v.Sound table) {name : Token}
    (hn : v.node = .expression (.var id name)) : v.scopes.isPending name.lexeme = false := by
  have hclear := h.clear
  unfold Visit.finding at hclear
  rw [hn] at hclear
  replace hclear : (v.scopes.readVariable id name).faults = [] := hclear
  unfold Scopes.readVariable at hclear
  rw [Survey.faults_append] at hclear
  cases hp : v.scopes.isPending name.lexeme with
  | false => rfl
  | true =>
      rw [hp, if_pos rfl] at hclear
      cases hclear

/-- Where `this` is mentioned a scope binds it. -/
theorem this_bound (h : v.Sound table) {keyword : Token}
    (hn : v.node = .expression (.this id keyword)) : (v.scopes.distance? "this").isSome := by
  refine h.fits.this fun hclass => ?_
  have hclear := h.clear
  unfold Visit.finding at hclear
  rw [hn] at hclear
  replace hclear : ((Expr.this id keyword).resolve v.around v.scopes).faults = [] := hclear
  rw [Expr.resolve, hclass] at hclear
  cases hclear

/-- Where `super` is mentioned two neighbouring scopes bind it and `this`. -/
theorem super_bound (h : v.Sound table) {keyword method : Token}
    (hn : v.node = .expression (.super id keyword method)) :
    ∃ d, v.scopes.distance? "super" = some (d + 1) ∧ v.scopes.distance? "this" = some d := by
  refine h.fits.super ?_
  have hclear := h.clear
  unfold Visit.finding at hclear
  rw [hn] at hclear
  replace hclear : ((Expr.super id keyword method).resolve v.around v.scopes).faults = [] := hclear
  rw [Expr.resolve] at hclear
  cases hclass : v.around.inClass with
  | none =>
      rw [hclass] at hclear
      cases hclear
  | plain =>
      rw [hclass] at hclear
      cases hclear
  | subclass => rfl

end Visit.Sound

namespace Distances

/-- What a table says after links were added: what the links say, or else what it said before. -/
theorem getElem?_addLinks (table : Distances) (links : List Link) (id : NodeId) :
    (table.addLinks links)[id]? = ((Distances.addLinks ∅ links)[id]?).or table[id]? := by
  induction links generalizing table with
  | nil => rfl
  | cons link rest ih =>
      have hone : ∀ t : Distances, t.addLinks (link :: rest)
          = addLinks (t.insert link.id link.distance) rest := fun _ => rfl
      rw [hone, hone, ih, ih (Std.TreeMap.insert ∅ link.id link.distance), Option.or_assoc]
      congr 1
      rw [Std.TreeMap.getElem?_insert, Std.TreeMap.getElem?_insert]
      split <;> simp

theorem addLinks_append (table : Distances) (links more : List Link) :
    table.addLinks (links ++ more) = (table.addLinks links).addLinks more := by
  unfold addLinks
  rw [List.foldl_append]

variable {table : Distances} {links : List Link} {id : NodeId}

/-- Links of other references leave an entry alone. -/
theorem getElem?_addLinks_of_ne (h : ∀ link ∈ links, link.id ≠ id) :
    (table.addLinks links)[id]? = table[id]? := by
  induction links generalizing table with
  | nil => rfl
  | cons link rest ih =>
      have hne : link.id ≠ id := h link List.mem_cons_self
      show (addLinks (table.insert link.id link.distance) rest)[id]? = table[id]?
      rw [ih fun other ho => h other (List.mem_cons_of_mem _ ho), Std.TreeMap.getElem?_insert,
        if_neg]
      rwa [Std.LawfulEqCmp.compare_eq_iff_eq]

/-- When all links of a reference agree, its entry is what they say. -/
theorem getElem?_addLinks_of_mem {distance : Nat} (h : ∀ link ∈ links, link.id = id →
    link.distance = distance) (hex : ∃ link ∈ links, link.id = id) :
    (table.addLinks links)[id]? = some distance := by
  induction links generalizing table with
  | nil => obtain ⟨link, hm, -⟩ := hex; cases hm
  | cons link rest ih =>
      show (addLinks (table.insert link.id link.distance) rest)[id]? = some distance
      by_cases hrest : ∃ other ∈ rest, other.id = id
      · exact ih (fun other ho => h other (List.mem_cons_of_mem _ ho)) hrest
      · have hid : link.id = id := by
          obtain ⟨other, ho, he⟩ := hex
          rcases List.mem_cons.1 ho with rfl | ho
          · exact he
          · exact absurd ⟨other, ho, he⟩ hrest
        rw [getElem?_addLinks_of_ne fun other ho he => hrest ⟨other, ho, he⟩, hid,
          Std.TreeMap.getElem?_insert_self, h link List.mem_cons_self hid]

end Distances

/-- A visit stays sound when references of other nodes are linked. -/
theorem Visit.Sound.addLinks {table : Distances} {v : Visit} (h : v.Sound table)
    {links : List Link} (hother : ∀ link ∈ links, link.id ≠ v.node.id) :
    v.Sound (table.addLinks links) where
  toOrderly := h.toOrderly
  clear := h.clear
  proper := h.proper
  linked name hname := by rw [Distances.getElem?_addLinks_of_ne hother, h.linked name hname]

/-- The links of a program belong to its nodes. -/
theorem id_mem_of_mem_links {body : List Stmt} {link : Link}
    (h : link ∈ (resolveProgram body).links) : ∃ n ∈ Stmt.nodesAll body, n.id = link.id := by
  rcases ((programVisits_accounts body).links link).1 h with h | ⟨v, hv, hl⟩
  · cases h
  · refine ⟨v.node, ?_, (Visit.mem_finding_links hl).1.symm⟩
    rw [← Stmt.map_node_visitsAll .topLevel [] body]
    exact List.mem_map_of_mem hv

/-- Every visit of an accepted program is sound for the table that knows its links, provided that
its identities are all different and new to the table. -/
theorem programVisits_sound {body : List Stmt} {table : Distances}
    (hproper : ∀ n ∈ Stmt.nodesAll body, n.Proper)
    (hdistinct : ((Stmt.nodesAll body).map Node.id).Nodup)
    (hfresh : ∀ n ∈ Stmt.nodesAll body, table[n.id]? = none)
    (hclear : (resolveProgram body).faults = []) :
    ∀ v ∈ programVisits body, v.Sound (table.addLinks (resolveProgram body).links) := by
  intro v hv
  have haccounts := programVisits_accounts body
  have hnode : ∀ u ∈ programVisits body, u.node ∈ Stmt.nodesAll body := fun u hu => by
    rw [← Stmt.map_node_visitsAll .topLevel [] body]
    exact List.mem_map_of_mem hu
  -- Visits of one identity are one visit.
  have hone : ∀ u ∈ programVisits body, u.node.id = v.node.id → u = v := fun u hu he => by
    have hd : ((programVisits body).map fun w => w.node.id).Nodup := by
      rwa [← Stmt.map_node_visitsAll .topLevel [] body, List.map_map] at hdistinct
    exact List.inj_on_of_nodup_map hd hu hv he
  have hvclear : v.finding.faults = [] := by
    rw [List.eq_nil_iff_forall_not_mem]
    intro fault hfault
    have hmem := (haccounts.faults fault).2 (Or.inr ⟨v, hv, hfault⟩)
    rw [hclear] at hmem
    cases hmem
  refine ⟨programVisits_orderly hproper v hv, hvclear, hproper _ (hnode v hv), ?_⟩
  intro name hname
  cases hd : v.scopes.distance? name with
  | some distance =>
      refine Distances.getElem?_addLinks_of_mem ?_ ?_
      · intro link hl hid
        rcases (haccounts.links link).1 hl with h | ⟨u, hu, hlu⟩
        · cases h
        · obtain ⟨he, hr, hdist⟩ := Visit.mem_finding_links hlu
          obtain rfl := hone u hu (he.symm.trans hid)
          rw [hr, Option.some.injEq] at hname
          rw [hname, hd, Option.some.injEq] at hdist
          exact hdist.symm
      · exact ⟨_, (haccounts.links _).2 (Or.inr ⟨v, hv, Visit.link_mem_finding hvclear hname hd⟩),
          rfl⟩
  | none =>
      rw [Distances.getElem?_addLinks_of_ne, hfresh _ (hnode v hv)]
      intro link hl hid
      rcases (haccounts.links link).1 hl with h | ⟨u, hu, hlu⟩
      · cases h
      · obtain ⟨he, hr, hdist⟩ := Visit.mem_finding_links hlu
        obtain rfl := hone u hu (he.symm.trans hid)
        rw [hr, Option.some.injEq] at hname
        rw [hname, hd] at hdist
        cases hdist

end Lox
