/-
The chains of a heap end. There are two kinds: frames lie in frames, up to the
one of the global variables, and classes stand below classes, up to one that has
no superclass. Names, fields and closures may refer to each other in circles, but
these two links cannot: a frame is made inside one that is there already, and a
class below one that is complete (`Heap.Grounded`).

So whatever walks along a chain comes to its end: names are looked up and
assigned, frames counted, methods and numbers of arguments found by going over
the whole chain, and the budget that a walk has never decides anything
(`Heap.Surrounded`, `Heap.Descended`).
-/
import Lox.Proofs.Growth.Session

namespace Lox

namespace Heap

/-- The classes from a class upwards, itself first, up to one that has no superclass. -/
inductive Descent (h : Heap) : ClassId → List ClassId → Prop
  | top {c : ClassId} {data : ClassData} (class_ : h.classes[c]? = some data)
      (alone : data.superclass = none) : Descent h c [c]
  | under {c parent : ClassId} {data : ClassData} {line : List ClassId}
      (class_ : h.classes[c]? = some data) (above : data.superclass = some parent)
      (upwards : Descent h parent line) : Descent h c (c :: line)

/-- A frame and the frames around it, to the frame of global variables. All that is looked up from
the frame is found by going over these. -/
structure Surrounded (h : Heap) (frame : FrameId) (path : List FrameId) : Prop where
  inside : h.scopes.Path frame path
  outermost : path.getLast? = some globalFrame
  depth : path.length = h.scopes.depth frame + 1
  get : ∀ name, h.scopes.get? frame name = path.findSome? fun other => h.scopes.local? other name
  assign : ∀ name value, h.scopes.assign? frame name value
    = (path.find? fun other => (h.scopes.bindings other).binds name).map fun holder =>
        h.scopes.define holder name value
  unhurried : ∀ name fuel, path.length ≤ fuel →
    h.scopes.holderWithin name fuel frame = h.scopes.holder? frame name

/-- A class and the classes above it, to one without a superclass. Methods, and what a call of the
class has to bring, are found by going over these. -/
structure Descended (h : Heap) (c : ClassId) (line : List ClassId) : Prop where
  descent : h.Descent c line
  unhurried : ∀ fuel, line.length ≤ fuel → h.lineageWithin fuel c = line
  method : ∀ name, h.findMethod? c name = line.findSome? fun d => h.ownMethod? d name
  arity_of_none : h.findMethod? c initializerName = none → h.arity? (.cls c) = some 0
  arity_of_some : ∀ f, h.findMethod? c initializerName = some f →
    ∃ code, h.functions[f]? = some code ∧ h.arity? (.cls c) = some code.declaration.arity

/-- A class was made on a heap on which all that is above it was complete: the classes and their
methods were there, and they have stayed as they were. -/
structure MadeOn (built h : Heap) (c parent : ClassId) (data : ClassData) : Prop where
  made : c = built.classes.size ∧ ∃ changes, (built.addClass data).Becomes changes h
  complete : ∃ line, built.Descent parent line ∧ h.Descent c (c :: line)
    ∧ ∀ d ∈ line, ∃ above, built.classes[d]? = some above ∧ h.classes[d]? = some above
        ∧ ∀ name f, above.methods.find? name = some f →
            ∃ code, built.functions[f]? = some code ∧ h.functions[f]? = some code

variable {h h' : Heap} {c d parent : ClassId} {data : ClassData} {line : List ClassId}
  {frame : FrameId} {path : List FrameId} {changes : List Change}

-- ========================================================== chains of classes

/-- What is below what stays so. -/
theorem Descent.kept (hd : h.Descent c line) (hext : h.Extends h') : h'.Descent c line := by
  induction hd with
  | top class_ alone => exact .top (hext.classes _ _ class_) alone
  | under class_ above _ ih => exact .under (hext.classes _ _ class_) above ih

theorem Descent.exists_of_mem (hd : h.Descent c line) : ∀ d ∈ line, ∃ data, h.classes[d]? = some data := by
  induction hd with
  | top class_ => simpa using ⟨_, class_⟩
  | under class_ _ _ ih => exact List.forall_mem_cons.2 ⟨⟨_, class_⟩, ih⟩

/-- Every class has its classes above it, no more than there are older ones. -/
theorem Grounded.exists_descent (hg : h.Grounded) (hc : c < h.classes.size) :
    ∃ line, h.Descent c line ∧ line.length ≤ c + 1 := by
  induction c using Nat.strongRecOn with
  | ind c ih =>
      have hclass : h.classes[c]? = some h.classes[c] := Array.getElem?_eq_getElem hc
      cases habove : h.classes[c].superclass with
      | none => exact ⟨[c], .top hclass habove, by simp⟩
      | some parent =>
          have hlt : parent < c := hg.layered c _ parent hclass habove
          obtain ⟨line, hline, hlength⟩ := ih parent hlt (Nat.lt_trans hlt hc)
          refine ⟨c :: line, .under hclass habove hline, ?_⟩
          exact Nat.succ_le_succ (Nat.le_trans hlength hlt)

theorem Descent.lineageWithin_eq (hd : h.Descent c line) {fuel : Nat} (hfuel : line.length ≤ fuel) :
    h.lineageWithin fuel c = line := by
  induction hd generalizing fuel with
  | top class_ alone =>
      cases fuel with
      | zero => simp at hfuel
      | succ fuel => simp [lineageWithin, class_, alone]
  | under class_ above _ ih =>
      cases fuel with
      | zero => simp at hfuel
      | succ fuel => simp [lineageWithin, class_, above, ih (Nat.le_of_succ_le_succ hfuel)]

/-- A method that is found is a function. -/
theorem Grounded.exists_code (hg : h.Grounded) {name : String} {f : FunctionId}
    (hf : h.findMethod? c name = some f) : ∃ code, h.functions[f]? = some code := by
  obtain ⟨d, data, hclass, hmethod⟩ := exists_method_of_findMethod? hf
  exact ⟨_, Array.getElem?_eq_getElem (hg.methods d data name f hclass hmethod)⟩

theorem Grounded.descended (hg : h.Grounded) (hc : c < h.classes.size) :
    ∃ line, h.Descended c line := by
  obtain ⟨line, hline, hlength⟩ := hg.exists_descent hc
  have hlineage : h.lineage c = line := hline.lineageWithin_eq (Nat.le_trans hlength hc)
  refine ⟨line, ?_⟩
  constructor
  case descent => exact hline
  case unhurried => exact fun fuel hfuel => hline.lineageWithin_eq hfuel
  case method =>
    intro name
    rw [findMethod?, hlineage]
  case arity_of_none =>
    intro hnone
    simp [arity?, hnone]
  case arity_of_some =>
    intro f hf
    obtain ⟨code, hcode⟩ := hg.exists_code hf
    exact ⟨code, hcode, by simp [arity?, hf, hcode]⟩

-- =========================================================== chains of frames

/-- The frame of global variables is the only one that lies in no other. -/
theorem Grounded.getLast?_of_path (hg : h.Grounded) (hpath : h.scopes.Path frame path)
    (hframe : frame < h.scopes.next) : path.getLast? = some globalFrame := by
  induction hpath with
  | @root frame alone =>
      by_cases hroot : frame = globalFrame
      · rw [hroot]
        rfl
      · obtain ⟨outer, houter, -⟩ := hg.enclosed frame hframe hroot
        rw [alone] at houter
        cases houter
  | inner enclosed around ih =>
      have hlt := hg.scopes_layered _ _ enclosed
      rw [List.getLast?_cons, ih (Nat.lt_trans hlt hframe)]
      rfl

theorem Grounded.surrounded (hg : h.Grounded) (hframe : frame < h.scopes.next) :
    ∃ path, h.Surrounded frame path := by
  have hl := hg.scopes_layered
  obtain ⟨path, hpath, hlength⟩ := hl.exists_path frame
  have hholder (name : String) :
      h.scopes.holder? frame name = path.find? fun other => (h.scopes.bindings other).binds name :=
    hpath.holderWithin_eq (Nat.le_trans hlength hframe)
  refine ⟨path, ?_⟩
  constructor
  case inside => exact hpath
  case outermost => exact hg.getLast?_of_path hpath hframe
  case depth => exact hl.depth_eq hframe hpath
  case get =>
    intro name
    rw [Forest.get?, hholder, Forest.find?_bind_local?]
  case assign =>
    intro name value
    rw [Forest.assign?, hholder]
  case unhurried =>
    intro name fuel hfuel
    rw [hpath.holderWithin_eq hfuel, hholder]

-- ==================================================== what a class was made on

theorem classes_apply (h : Heap) (change : Change) :
    (h.apply change).classes = h.classes
      ∨ ∃ data, change = .cls data ∧ (h.apply change).classes = h.classes.push data := by
  cases change with
  | cls data => exact .inr ⟨data, rfl, rfl⟩
  | frame | function | object | bound | field => exact .inl rfl

/-- Every new class came with a change that added it. -/
theorem Becomes.exists_made (hb : h.Becomes changes h') (hnew : h.classes.size ≤ c)
    (hc : h'.classes[c]? = some data) :
    ∃ built before after, h.Becomes before built ∧ built.Allows (.cls data)
      ∧ c = built.classes.size ∧ (built.addClass data).Becomes after h' := by
  induction hb with
  | @still h =>
      have hlt : c < h.classes.size := (Array.getElem?_eq_some_iff.1 hc).1
      exact absurd hlt (Nat.not_lt.2 hnew)
  | @step h h' change changes allowed rest ih =>
      by_cases hthere : c < (h.apply change).classes.size
      · rcases classes_apply h change with hsame | ⟨added, rfl, hpush⟩
        · rw [hsame] at hthere
          exact absurd hthere (Nat.not_lt.2 hnew)
        · have hlast : c = h.classes.size := by
            rw [hpush, Array.size_push] at hthere
            exact Nat.le_antisymm (Nat.le_of_lt_succ hthere) hnew
          have hadded : (h.apply (.cls added)).classes[c]? = some added := by
            rw [hpush, hlast, Array.getElem?_push_size]
          obtain rfl : added = data :=
            Option.some.inj ((rest.kept.classes c added hadded).symm.trans hc)
          exact ⟨h, [], changes, .still, allowed, hlast, rest⟩
      · obtain ⟨built, before, after, hbefore, hdata, hlast, hafter⟩ :=
          ih (Nat.not_lt.1 hthere) hc
        exact ⟨built, change :: before, after, .step allowed hbefore, hdata, hlast, hafter⟩

/-- A superclass was complete before the class below it was made. -/
theorem Grounded.exists_madeOn (hg : h.Grounded) (hb : h.Becomes changes h')
    (hnew : h.classes.size ≤ c) (hc : h'.classes[c]? = some data)
    (habove : data.superclass = some parent) :
    ∃ built before, h.Becomes before built ∧ built.MadeOn h' c parent data := by
  obtain ⟨built, before, after, hbefore, ⟨hparent, -⟩, hlast, hafter⟩ := hb.exists_made hnew hc
  have hbuilt : built.Grounded := hg.becomes hbefore
  have hext : built.Extends h' := (extends_apply built (.cls data)).trans hafter.kept
  obtain ⟨line, hline, -⟩ := hbuilt.exists_descent (hparent parent habove)
  refine ⟨built, before, hbefore, ⟨hlast, after, hafter⟩, line, hline, ?_, ?_⟩
  · exact .under hc habove (hline.kept hext)
  · intro d hmem
    obtain ⟨above, hclass⟩ := hline.exists_of_mem d hmem
    refine ⟨above, hclass, hext.classes d above hclass, fun name f hmethod => ?_⟩
    have hlt := hbuilt.methods d above name f hclass hmethod
    have hcode := Array.getElem?_eq_getElem hlt
    exact ⟨_, hcode, hext.functions f _ hcode⟩

end Heap

-- ================================================================== sessions

variable {k : Machine}

/-- In whatever state a session of accepted programs is, or one of its programs while it runs, the
frames around every frame lead to the frame of global variables, and the classes above every class
to one without a superclass; nothing on the heap refers to what is not there, and every superclass
was complete before the class below it was made. -/
theorem chains_end (h : Session.Reachable k) :
    k.heap.Grounded ∧ k.scope < k.heap.scopes.next
      ∧ (∀ frame, frame < k.heap.scopes.next → ∃ path, k.heap.Surrounded frame path)
      ∧ (∀ c, c < k.heap.classes.size → ∃ line, k.heap.Descended c line)
      ∧ ∀ c data parent, k.heap.classes[c]? = some data → data.superclass = some parent →
          ∃ built before, Heap.initial.Becomes before built
            ∧ built.MadeOn k.heap c parent data := by
  obtain ⟨hg, ⟨changes, hb⟩, hinside⟩ := h.cameFrom
  refine ⟨hg, hinside, fun _ hframe => hg.surrounded hframe, fun _ hc => hg.descended hc, ?_⟩
  intro c data parent hc habove
  exact Session.grounded_initial.exists_madeOn hb (Nat.zero_le c) hc habove

/-- A program that makes a class again below the class that stands below it, and fails then. -/
def redefiningText : List Char :=
  "class A \x7b init(x) \x7b \x7d \x7d class B < A \x7b \x7d class A < B \x7b \x7d A(1).x;".toList

/-- Whether a run fails and leaves the third class as one of the name of the first, below the
second. -/
def redefines (fuel room : Nat) (body : List Stmt) (s : Session) : Bool :=
  match Eval.interpret fuel room body s.machine with
  | .error (.fault _) m =>
    m.heap.classes[2]?.any fun data =>
      data.superclass == some 1 && data.name == m.heap.className 0 && m.heap.scopes.next == 5
  | _ => false

theorem chains_end_redefined :
    ∃ body s' fault m data, (Session.start false 0).Prepares redefiningText "" body s'
      ∧ Eval.interpret 60 9 body s'.machine = .error (.fault fault) m
      ∧ m.heap.classes[2]? = some data ∧ data.name = m.heap.className 0
      ∧ (∃ path, m.heap.Surrounded 4 path) ∧ (∃ line, m.heap.Descended 2 line)
      ∧ ∃ built before, Heap.initial.Becomes before built ∧ built.MadeOn m.heap 2 1 data := by
  have hcheck : (Session.start false 0).accepting redefiningText (redefines 60 9) = true := by
    decide +kernel
  obtain ⟨body, s', accepted, hredefines⟩ := Session.exists_of_accepting hcheck
  unfold redefines at hredefines
  split at hredefines
  · rename_i fault m hran
    obtain ⟨data, hclass, hdata⟩ := Option.any_eq_true .. |>.1 hredefines
    simp only [Bool.and_eq_true, beq_iff_eq] at hdata
    obtain ⟨⟨habove, hname⟩, hnext⟩ := hdata
    have hreachable := Session.Reachable.left
      ((Session.Lived.start false 0).interpreted accepted 60 9)
    rw [Intact.left_of_error hran] at hreachable
    obtain ⟨-, -, hframes, hclasses, hmade⟩ := chains_end hreachable
    refine ⟨body, s', fault, m, data, accepted, hran, hclass, hname, ?_, ?_, ?_⟩
    · exact hframes 4 (by rw [hnext]; decide)
    · exact hclasses 2 (Array.getElem?_eq_some_iff.1 hclass).1
    · exact hmade 2 data 1 hclass habove
  · cases hredefines

end Lox
