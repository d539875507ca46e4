/-
Evaluation of the tree, step by step and as a whole: whatever is run, it makes the
heap grow by allowed changes alone, on every host (`tends_hostedRunner`). So a
machine that a run comes to when it enters a node has come from the heap at the
start (`Passes.cameFrom`).
-/
import Lox.Proofs.Growth.Steps
import Lox.Proofs.Super.Nodes

namespace Lox

/-- Two runners whose runs are one and make the heap grow. -/
structure Tends (origin : Heap) (observed plain : Runner) : Prop where
  evaluate {m : Machine} (room : Nat) (e : Expr) (came : m.CameFrom origin) :
    Tended m (observed.evaluate room e) (plain.evaluate room e) fun v k => k.Has v
  execute {m : Machine} (room : Nat) (s : Stmt) (came : m.CameFrom origin) :
    Tended m (observed.execute room s) (plain.execute room s) fun c k => k.Has c.value
  loop {m : Machine} (room : Nat) (condition : Expr) (body : Stmt) (came : m.CameFrom origin) :
    Tended m (observed.loop room condition body) (plain.loop room condition body)
      fun c k => k.Has c.value

variable {origin : Heap} {observed plain : Runner} {m : Machine} {room : Nat}

namespace Tends

open Tended

-- =================================================================== lists

theorem evaluateAll (hr : Tends origin observed plain) (hm : m.CameFrom origin)
    (es : List Expr) :
    Tended m (Eval.evaluateAll observed room es) (Eval.evaluateAll plain room es)
      fun vs k => ∀ v ∈ vs, k.Has v := by
  induction es generalizing m with
  | nil => exact done nofun
  | cons e rest ih =>
      refine (hr.evaluate room e hm).bind hm fun v k hk _ hv => ?_
      refine (ih hk).bind hk fun vs j _ hgrows hvs => done ?_
      intro x hx
      rcases List.mem_cons.1 hx with rfl | hx
      · exact hgrows.kept.has hv
      · exact hvs x hx

theorem executeAll (hr : Tends origin observed plain) (hm : m.CameFrom origin)
    (body : List Stmt) :
    Tended m (Eval.executeAll observed room body) (Eval.executeAll plain room body)
      fun c k => k.Has c.value := by
  induction body generalizing m with
  | nil => exact done trivial
  | cons s rest ih =>
      refine (hr.execute room s hm).bind hm fun c k hk _ hc => ?_
      cases c with
      | normal => exact ih hk
      | returned v => exact done hc

/-- The statements of a program. -/
theorem interpretWith (hr : Tends origin observed plain) (hm : m.CameFrom origin)
    (body : List Stmt) :
    Tended m (Eval.interpretWith observed room body) (Eval.interpretWith plain room body)
      fun _ _ => True := by
  induction body generalizing m with
  | nil => exact done trivial
  | cons s rest ih => exact (hr.execute room s hm).bind hm fun _ _ hk _ _ => ih hk

-- =================================================================== calls

/-- Parameters are bound to arguments. -/
theorem holds_bindParameters {h : Heap} (params : List Token) {arguments : List Value}
    (hargs : ∀ v ∈ arguments, h.Has v) :
    h.Holds (Eval.bindParameters params arguments .empty) := by
  intro name value hfound
  rcases Follows.find?_bindParameters hfound with hold | ⟨hmem, -⟩
  · cases hold
  · exact hargs value hmem

theorem callFunction (hr : Tends origin observed plain) (hm : m.CameFrom origin)
    (f : FunctionId) {arguments : List Value} (hargs : ∀ v ∈ arguments, m.heap.Has v) :
    Tended m (Eval.callFunction observed room f arguments)
      (Eval.callFunction plain room f arguments) fun v k => k.Has v := by
  cases room with
  | zero => exact halt .overflow
  | succ room =>
      refine (closure hm f).bind hm fun c k hk hgrows hscope => ?_
      have hargs' : ∀ v ∈ arguments, k.heap.Has v := fun v hv => hgrows.kept.has (hargs v hv)
      refine (inNewFrame hk hscope (holds_bindParameters _ hargs') fun j hj =>
        hr.executeAll hj c.declaration.body).bind hk fun completion j hj hgrows' hvalue => ?_
      cases c.isInitializer with
      | false => exact done hvalue
      | true => exact getAt hj (Nat.lt_of_lt_of_le hscope hgrows'.kept.next) 0 "this"

theorem construct (hr : Tends origin observed plain) (hm : m.CameFrom origin) {c : ClassId}
    (hc : c < m.heap.classes.size) {arguments : List Value}
    (hargs : ∀ v ∈ arguments, m.heap.Has v) :
    Tended m (Eval.construct observed room c arguments) (Eval.construct plain room c arguments)
      fun v k => k.Has v := by
  refine (newObject hc).bind hm fun o k hk hgrows ho => look hk rfl ?_
  cases hfind : k.heap.findMethod? c initializerName with
  | none => exact done ho
  | some method =>
      have hobject : k.heap.Has (.object o) := ho
      refine (bindMethod hk method hobject).bind hk fun f j hj hgrows' _ => ?_
      have hargs' : ∀ v ∈ arguments, j.heap.Has v := fun v hv =>
        hgrows'.kept.has (hgrows.kept.has (hargs v hv))
      refine (hr.callFunction hj f hargs').bind hj fun _ i _ hgrows'' _ => done ?_
      exact hgrows''.kept.lt_objects (hgrows'.kept.lt_objects ho)

theorem invoke (hr : Tends origin observed plain) (hm : m.CameFrom origin) {callee : Value}
    (hcallee : m.heap.Has callee) {arguments : List Value}
    (hargs : ∀ v ∈ arguments, m.heap.Has v) :
    Tended m (Eval.invoke observed room callee arguments)
      (Eval.invoke plain room callee arguments) fun v k => k.Has v := by
  cases callee with
  | native f => exact callNative m f arguments
  | function f => exact hr.callFunction hm f hargs
  | cls c => exact hr.construct hm hcallee hargs
  | _ => exact halt _

-- ================================================================== classes

/-- The methods of a class become functions, all of them in the same frame. -/
theorem newMethods (hm : m.CameFrom origin) {frame : FrameId}
    (hframe : frame < m.heap.scopes.next) (methods : List FunDecl) {own : Bindings FunctionId}
    (hown : ∀ name f, own.find? name = some f → f < m.heap.functions.size) :
    Tended m (Eval.newMethods frame methods own) (Eval.newMethods frame methods own)
      fun own' k => ∀ name f, own'.find? name = some f → f < k.functions.size := by
  induction methods generalizing m own with
  | nil => exact done hown
  | cons d rest ih =>
      refine (newFunction hframe).bind hm fun id k hk hgrows hid => ?_
      refine ih hk (Nat.lt_of_lt_of_le hframe hgrows.kept.next) ?_
      intro name f hf
      rw [Bindings.find?_set] at hf
      split at hf
      · cases hf
        exact hid
      · exact hgrows.kept.lt_functions (hown name f hf)

theorem superclassValue (hr : Tends origin observed plain) (hm : m.CameFrom origin)
    (parent : NameRef) :
    Tended m (Eval.superclassValue observed room parent)
      (Eval.superclassValue plain room parent) fun c k => c < k.classes.size := by
  refine (hr.evaluate room parent.asExpr hm).bind hm fun v k _ _ hv => ?_
  cases v with
  | cls c => exact done hv
  | _ => exact halt _

/-- What is left of a class statement when the frame of its methods is at hand. -/
theorem fillClass (hm : m.CameFrom origin) {frame inner : FrameId}
    (hframe : frame < m.heap.scopes.next) (hinner : inner < m.heap.scopes.next) (name : Token)
    (superclass : Option ClassId)
    (habove : ∀ parent, superclass = some parent → parent < m.heap.classes.size)
    (methods : List FunDecl) :
    let rest : Eval Unit := do
      let own ← Eval.newMethods inner methods .empty
      let c ← Eval.newClass ⟨name.lexeme, superclass, own⟩
      Eval.assignNamed frame name (.cls c)
    Tended m rest rest fun _ _ => True := by
  refine (newMethods hm hinner methods fun _ _ h => by cases h).bind hm fun own k hk hgrows hown => ?_
  have hallowed : k.heap.Allows (.cls ⟨name.lexeme, superclass, own⟩) :=
    ⟨fun parent h => hgrows.kept.lt_classes (habove parent h), hown⟩
  refine (newClass hallowed).bind hk fun c j hj hgrows' hc => ?_
  have hframe' : frame < j.heap.scopes.next :=
    Nat.lt_of_lt_of_le hframe (hgrows.trans hgrows').kept.next
  exact assignNamed hj hframe' name hc

theorem declareClass (hr : Tends origin observed plain) (hm : m.CameFrom origin) (name : Token)
    (superclass : Option NameRef) (methods : List FunDecl) :
    Tended m (Eval.declareClass observed room name superclass methods)
      (Eval.declareClass plain room name superclass methods) fun _ _ => True := by
  cases superclass with
  | none =>
      refine (define hm name.lexeme .nil trivial).bind hm fun _ k hk _ _ => look hk rfl ?_
      exact fillClass hk hk.inside hk.inside name none nofun methods
  | some parent =>
      refine (hr.superclassValue hm parent).bind hm fun above k hk _ habove => ?_
      refine (define hk name.lexeme .nil trivial).bind hk
        fun _ j hj hgrows _ => look hj rfl ?_
      have habove' : above < j.heap.classes.size := hgrows.kept.lt_classes habove
      have hb : j.heap.Holds (Bindings.empty.set "super" (.cls above)) :=
        (Heap.holds_empty _).set (show j.heap.Has (.cls above) from habove') "super"
      refine (newFrame hj.inside hb).bind hj fun inner i hi hgrows' hinner => ?_
      refine fillClass hi (Nat.lt_of_lt_of_le hj.inside hgrows'.kept.next) hinner name _ ?_ methods
      rintro _ ⟨⟩
      exact hgrows'.kept.lt_classes habove'

-- ==================================================================== nodes

theorem evaluateNode (hr : Tends origin observed plain) (hm : m.CameFrom origin) (e : Expr) :
    Tended m (Eval.evaluateNode observed room e) (Eval.evaluateNode plain room e)
      fun v k => k.Has v := by
  cases e with
  | literal id value token => exact done (by cases value <;> trivial)
  | var id name => exact lookUp hm id name
  | assign id name value =>
      refine (hr.evaluate room value hm).bind hm fun v k hk _ hv => ?_
      exact (assign hk id name hv).bind hk fun _ j _ hgrows _ => done (hgrows.kept.has hv)
  | binary id left operator right =>
      refine (hr.evaluate room left hm).bind hm fun a k hk _ _ => ?_
      exact (hr.evaluate room right hk).bind hk fun b j hj _ _ => binary hj operator a b
  | logical id left operator right =>
      refine (hr.evaluate room left hm).bind hm fun a k hk _ ha => ?_
      cases Eval.settles operator a with
      | true => exact done ha
      | false => exact hr.evaluate room right hk
  | unary id operator operand =>
      exact (hr.evaluate room operand hm).bind hm fun a k hk _ _ => unary hk operator a
  | grouping id inner => exact hr.evaluate room inner hm
  | call id callee paren arguments =>
      refine (hr.evaluate room callee hm).bind hm fun f k hk _ hf => ?_
      refine (checkCallable k paren f).bind hk fun _ j hj hgrows _ => ?_
      refine (hr.evaluateAll hj arguments).bind hj fun given i hi hgrows' hgiven => ?_
      refine (checkArity hi paren f given.length).bind hi fun _ n hn hgrows'' _ => ?_
      refine (hr.invoke hn ?_ ?_).anchored paren
      · exact hgrows''.kept.has (hgrows'.kept.has (hgrows.kept.has hf))
      · exact fun v hv => hgrows''.kept.has (hgiven v hv)
  | get id object name =>
      exact (hr.evaluate room object hm).bind hm fun o k hk _ ho => getProperty hk ho name
  | set id object name value =>
      refine (hr.evaluate room object hm).bind hm fun o k hk _ ho => ?_
      cases o with
      | object o =>
          refine (hr.evaluate room value hk).bind hk fun v j hj hgrows hv => ?_
          exact (setProperty (hgrows.kept.lt_objects ho) name hv).bind hj
            fun _ i _ hgrows' _ => done (hgrows'.kept.has hv)
      | _ => exact halt _
  | this id keyword => exact lookUp hm id keyword
  | super id keyword method => exact superMethod hm id method

theorem performNode (hr : Tends origin observed plain) (hm : m.CameFrom origin) (s : Stmt) :
    Tended m (Eval.performNode observed room s) (Eval.performNode plain room s)
      fun c k => k.Has c.value := by
  cases s with
  | expression id e => exact (hr.evaluate room e hm).bind hm fun _ _ _ _ _ => done trivial
  | print id e =>
      refine (hr.evaluate room e hm).bind hm fun v k hk _ _ => ?_
      exact (print k v).bind hk fun _ _ _ _ _ => done trivial
  | varDecl id name initializer =>
      cases initializer with
      | none =>
          exact (define hm name.lexeme .nil trivial).bind hm
            fun _ _ _ _ _ => done trivial
      | some e =>
          refine (hr.evaluate room e hm).bind hm fun v k hk _ hv => ?_
          exact (define hk name.lexeme v hv).bind hk fun _ _ _ _ _ => done trivial
  | block id body =>
      refine look (a := m.scope) hm rfl ?_
      exact inNewFrame hm hm.inside (Heap.holds_empty _) fun k hk => hr.executeAll hk body
  | ifThen id condition thenBranch =>
      refine (hr.evaluate room condition hm).bind hm fun v k hk _ _ => ?_
      cases v.isTruthy with
      | true => exact hr.execute room thenBranch hk
      | false => exact done trivial
  | ifElse id condition thenBranch elseBranch =>
      refine (hr.evaluate room condition hm).bind hm fun v k hk _ _ => ?_
      cases v.isTruthy with
      | true => exact hr.execute room thenBranch hk
      | false => exact hr.execute room elseBranch hk
  | whileLoop id condition body => exact hr.loop room condition body hm
  | funDecl f =>
      refine look (a := m.scope) hm rfl ?_
      refine (newFunction (c := ⟨f, m.scope, false⟩) hm.inside).bind hm fun id k hk _ hid => ?_
      exact (define hk f.name.lexeme (.function id) hid).bind hk
        fun _ _ _ _ _ => done trivial
  | returnStmt id keyword value =>
      cases value with
      | none => exact done trivial
      | some e => exact (hr.evaluate room e hm).bind hm fun v _ _ _ hv => done hv
  | classDecl id name superclass methods =>
      exact (hr.declareClass hm name superclass methods).bind hm fun _ _ _ _ _ => done trivial

theorem loopNode (hr : Tends origin observed plain) (hm : m.CameFrom origin) (condition : Expr)
    (body : Stmt) :
    Tended m (Eval.loopNode observed room condition body)
      (Eval.loopNode plain room condition body) fun c k => k.Has c.value := by
  refine (hr.evaluate room condition hm).bind hm fun v k hk _ _ => ?_
  cases v.isTruthy with
  | false => exact done trivial
  | true =>
      refine (hr.execute room body hk).bind hk fun c j hj _ hc => ?_
      cases c with
      | normal => exact hr.loop room condition body hj
      | returned v => exact done hc

/-- One more step into the tree. -/
theorem deepen (hr : Tends origin observed plain) : Tends origin observed.deepen plain.deepen where
  evaluate _ e hm := hr.evaluateNode hm e
  execute _ s hm :=
    (noteStatement _ s).bind hm fun _ _ hk _ _ => hr.performNode hk s
  loop _ condition body hm := hr.loopNode hm condition body

-- ==================================================================== hosts

variable {host other : Host}

/-- Both hosts are asked about a node, and on a machine that the start can grow to they say the
same. -/
theorem allow {α : Type} {post : α → Heap → Prop} {x y : Nat → Eval α}
    (hagree : ∀ n (k : Machine) room, k.CameFrom origin → other n k room = host n k room)
    (hm : m.CameFrom origin) (n : Node) (h : ∀ room, Tended m (x room) (y room) post) :
    Tended m (other.allow n room x) (host.allow n room y) post := by
  have hasked := hagree n m room hm
  cases hanswer : host n m room with
  | ok granted =>
      rw [hanswer] at hasked
      refine ⟨?_, ?_⟩
      · rw [Host.allow_of_ok x hasked, Host.allow_of_ok y hanswer]
        exact (h granted).same
      · rw [Host.allow_of_ok y hanswer]
        exact (h granted).ended
  | error s =>
      rw [hanswer] at hasked
      refine ⟨?_, ?_⟩
      · rw [Host.allow_of_error x hasked, Host.allow_of_error y hanswer]
      · rw [Host.allow_of_error y hanswer]
        exact .refl m

/-- Whatever the bound on the steps is. -/
theorem hostedRunner
    (hagree : ∀ n (k : Machine) room, k.CameFrom origin → other n k room = host n k room)
    (fuel : Nat) :
    Tends origin (Eval.hostedRunner other fuel) (Eval.hostedRunner host fuel) := by
  induction fuel with
  | zero =>
      exact ⟨fun _ _ _ => halt .exhausted, fun _ _ _ => halt .exhausted,
        fun _ _ _ _ => halt .exhausted⟩
  | succ fuel ih =>
      have hdeep := ih.deepen
      exact ⟨fun _ e hm => allow hagree hm (.expression e) fun room => hdeep.evaluate room e hm,
        fun _ s hm => allow hagree hm (.statement s) fun room => hdeep.execute room s hm,
        hdeep.loop⟩

/-- One host agrees with itself. -/
theorem hosted (origin : Heap) (host : Host) (fuel : Nat) :
    Tends origin (Eval.hostedRunner host fuel) (Eval.hostedRunner host fuel) :=
  hostedRunner (fun _ _ _ _ => rfl) fuel

theorem runner (origin : Heap) (fuel : Nat) :
    Tends origin (Eval.runner fuel) (Eval.runner fuel) := by
  rw [← Eval.hostedRunner_patient]
  exact hosted origin .patient fuel

end Tends

variable {host : Host} {fuel : Nat} {body : List Stmt}

theorem Tended.grows {α : Type} {post : α → Heap → Prop} {x y : Eval α}
    (h : Tended m x y post) : m.Grows (y.left m) := by
  have hended := h.ended
  unfold Eval.left
  cases hy : y m with
  | ok a m' =>
      rw [hy] at hended
      exact hended.1
  | error s m' =>
      rw [hy] at hended
      exact hended

theorem Tended.of_ok {α : Type} {post : α → Heap → Prop} {x y : Eval α} {a : α} {m' : Machine}
    (h : Tended m x y post) (hy : y m = .ok a m') : m.Grows m' ∧ post a m'.heap := by
  have hended := h.ended
  rw [hy] at hended
  exact hended

/-- However a program ends, and wherever it runs, it has made the heap grow by allowed changes. -/
theorem grows_interpretOn (hm : m.CameFrom origin) (host : Host) (fuel room : Nat)
    (body : List Stmt) : m.Grows ((Eval.interpretOn host fuel room body).left m) :=
  ((Tends.hosted origin host fuel).interpretWith hm body).grows

/-- A machine that a run comes to is one that the machine at the start can grow to. -/
theorem Passes.cameFrom {node : Node} {moment : Machine}
    (h : Passes host fuel room body m node moment) (hm : m.CameFrom origin) :
    moment.CameFrom origin := by
  obtain ⟨other, hdiffer, hne⟩ := h
  by_contra hnot
  have hagree : ∀ n (k : Machine) room, k.CameFrom origin → other n k room = host n k room := by
    intro n k room hk
    by_contra hother
    obtain ⟨-, rfl⟩ := hdiffer n k room hother
    exact hnot hk
  exact hne ((Tends.hostedRunner hagree fuel).interpretWith hm body).same

end Lox
