/-
The listing of references against the distance table. Every reference of a tree is
listed once, under its kind; the table has entries for references and for nothing
else; and a line says of its reference what the table says. So as many lines speak
of a local reference as the head of the listing counts (`countP_saysLocal`), and
which lines do can be told from the text alone: those of `this` and `super`, and
those of the names that some construct around them declares (`listing_agrees`).
-/
import Lox.Proofs.Analysis.Reach
import Lox.Proofs.Run.Split
import Lox.Proofs.View.Unambiguous
import Lox.Script

namespace Lox

-- ================================================================= the entries

/-- The name that is looked up for a reference. -/
def Reference.target (r : Reference) : String :=
  match r.kind with
  | .name | .assignment => r.token.lexeme
  | .this => "this"
  | .super => "super"

theorem Node.reference?_eq (n : Node) : n.reference? = n.asReference.map Reference.target := by
  cases n with
  | statement s => rfl
  | expression e => cases e <;> rfl

theorem Node.sublist_ids : ∀ nodes : List Node,
    ((nodes.filterMap Node.asReference).map Reference.id).Sublist (nodes.map Node.id)
  | [] => .slnil
  | n :: rest => by
      cases h : n.asReference with
      | none =>
          rw [List.filterMap_cons_none h]
          exact (Node.sublist_ids rest).cons _
      | some r =>
          rw [List.filterMap_cons_some h, List.map_cons, List.map_cons, Node.id_of_asReference h]
          exact (Node.sublist_ids rest).cons_cons _

variable {text : List Char} {nextId : NodeId} {body : List Stmt} {table : Distances}

/-- An entry belongs to a node that refers to something. -/
theorem exists_reference_of_distances {id : NodeId} {distance : Nat}
    (h : (resolveProgram body).distances[id]? = some distance) :
    ∃ n ∈ Stmt.nodesAll body, n.id = id ∧ n.asReference.isSome = true := by
  rcases Lockstep.getElem?_addLinks_cases h with hempty | ⟨link, hlink, rfl⟩
  · cases hempty
  · rcases ((programVisits_accounts body).links link).mp hlink with hnil | ⟨v, hv, hlink⟩
    · cases hnil
    · obtain ⟨hnode, href, -⟩ := Visit.mem_finding_links hlink
      rw [Node.reference?_eq] at href
      obtain ⟨r, hr, -⟩ := Option.map_eq_some_iff.mp href
      refine ⟨v.node, ?_, hnode.symm, Option.isSome_of_eq_some hr⟩
      rw [← Stmt.map_node_visitsAll .topLevel [] body]
      exact List.mem_map_of_mem hv

section

variable (read : (readProgram text nextId).program = .ok body)
  (accepted : (resolveProgram body).accepted = .ok table)

include read accepted

/-- In an accepted program every visit is sound for its table. -/
theorem sound_of_accepted : ∀ v ∈ programVisits body, v.Sound table := by
  have hread := readAs_of_program read
  have hclear := (Survey.exists_accepted_iff _).mp ⟨table, accepted⟩
  rw [Survey.eq_of_accepted accepted]
  exact programVisits_sound hread.proper hread.numbers.distinct (fun _ _ => rfl) hclear

/-- The entry of a reference is how far out the resolver found its name. -/
theorem exists_visit_of_reference {r : Reference} (hr : r ∈ Stmt.referencesAll body) :
    ∃ v ∈ programVisits body, v.node.asReference = some r ∧ v.Sound table
      ∧ table[r.id]? = v.scopes.distance? r.target := by
  obtain ⟨n, hn, hreference⟩ :=
    List.mem_filterMap.mp ((Stmt.references_perm_all body).mem_iff.mp hr)
  rw [← Stmt.map_node_visitsAll .topLevel [] body] at hn
  obtain ⟨v, hv, rfl⟩ := List.mem_map.mp hn
  have hsound := sound_of_accepted read accepted v hv
  refine ⟨v, hv, hreference, hsound, ?_⟩
  rw [Node.id_of_asReference hreference]
  apply hsound.linked
  rw [Node.reference?_eq, hreference]
  rfl

/-- Wherever `this` or `super` is mentioned it is local. -/
theorem isSome_of_special {r : Reference} (hr : r ∈ Stmt.referencesAll body)
    (hkind : r.kind = .this ∨ r.kind = .super) : (table[r.id]?).isSome = true := by
  obtain ⟨v, -, hreference, hsound, hentry⟩ := exists_visit_of_reference read accepted hr
  rw [hentry]
  rcases v.node.asReference_cases hreference with
    ⟨_, _, -, rfl⟩ | ⟨_, _, _, -, rfl⟩ | ⟨id, keyword, hnode, rfl⟩ | ⟨id, keyword, method, hnode, rfl⟩
  · rcases hkind with hkind | hkind <;> cases hkind
  · rcases hkind with hkind | hkind <;> cases hkind
  · exact hsound.this_bound hnode
  · obtain ⟨d, hd, -⟩ := hsound.super_bound hnode
    exact Option.isSome_of_eq_some hd

/-- **A name is local as far out as it is declared**, and global if nothing around it declares it. -/
theorem entry_iff_declaredAt {m : Mention} (hm : m ∈ programMentions body)
    (hkind : m.reference.kind = .name ∨ m.reference.kind = .assignment) {distance : Nat} :
    table[m.reference.id]? = some distance
      ↔ m.inside.DeclaredAt m.reference.token.lexeme distance := by
  obtain ⟨v, hv, hreference, hmatches⟩ :=
    programMentions_met (readAs_of_program read).proper m hm
  have hsound := sound_of_accepted read accepted v hv
  have htarget : v.node.reference? = some m.reference.token.lexeme := by
    rw [Node.reference?_eq, hreference]
    rcases hkind with hkind | hkind <;> simp [Reference.target, hkind]
  have hfree : m.reference.token.Free := by
    have hproper := hsound.proper
    rcases v.node.asReference_cases hreference with
      ⟨id, name, hnode, hr⟩ | ⟨id, name, value, hnode, hr⟩ | ⟨_, _, -, hr⟩ | ⟨_, _, _, -, hr⟩
    · rw [hnode] at hproper
      rw [hr]
      exact hproper
    · rw [hnode] at hproper
      rw [hr]
      exact hproper
    · rw [hr] at hkind
      rcases hkind with hkind | hkind <;> cases hkind
    · rw [hr] at hkind
      rcases hkind with hkind | hkind <;> cases hkind
  rw [Node.id_of_asReference hreference, hsound.linked _ htarget]
  exact hmatches.distance?_eq_iff hfree.ne_this hfree.ne_super

end

-- =================================================================== the order

namespace Script

theorem filter_kinds_perm : ∀ kinds : List ReferenceKind, kinds.Nodup → ∀ rs : List Reference,
    (∀ r ∈ rs, r.kind ∈ kinds) →
      (kinds.flatMap fun kind => rs.filter fun r => r.kind = kind).Perm rs
  | [], _, rs, h => by
      rw [List.eq_nil_iff_forall_not_mem.mpr fun r hr => List.not_mem_nil (h r hr)]
      exact .nil
  | kind :: kinds, hnodup, rs, h => by
      obtain ⟨hkind, hnodup⟩ := List.nodup_cons.mp hnodup
      have hothers : ∀ r ∈ rs.filter fun r => !decide (r.kind = kind), r.kind ∈ kinds := by
        intro r hr
        obtain ⟨hr, hne⟩ := List.mem_filter.mp hr
        exact (List.mem_cons.mp (h r hr)).resolve_left (by simpa using hne)
      have hrest := filter_kinds_perm kinds hnodup _ hothers
      -- The references of the other kinds are not of this one.
      have hsame : (kinds.flatMap fun other => rs.filter fun r => r.kind = other)
          = kinds.flatMap fun other =>
            (rs.filter fun r => !decide (r.kind = kind)).filter fun r => r.kind = other := by
        refine List.flatMap_congr fun other hother => ?_
        rw [List.filter_filter]
        refine List.filter_congr fun r _ => ?_
        by_cases hr : r.kind = other
        · have hne : r.kind ≠ kind := fun he => hkind (he ▸ hr ▸ hother)
          simp [hr, hr ▸ hne]
        · simp [hr]
      rw [List.flatMap_cons, hsame]
      exact (hrest.append_left _).trans (List.filter_append_perm _ rs)

/-- The references of a program in the order of the listing. -/
def listed (body : List Stmt) : List Reference :=
  listedKinds.flatMap fun kind => (Stmt.referencesAll body).filter fun r => r.kind = kind

theorem listed_perm (body : List Stmt) : (listed body).Perm (Stmt.referencesAll body) :=
  filter_kinds_perm listedKinds (by decide) _ fun r _ => by cases r.kind <;> decide

theorem nodup_ids_references (read : (readProgram text nextId).program = .ok body) :
    ((Stmt.referencesAll body).map Reference.id).Nodup := by
  rw [((Stmt.references_perm_all body).map _).nodup_iff]
  exact (readAs_of_program read).numbers.distinct.sublist (Node.sublist_ids _)

theorem referenceLines_eq (table : Distances) (body : List Stmt) :
    referenceLines table body
      = heading s!"Resolved {table.size} local references:"
        ++ (listed body).map (referenceLine table) := by
  unfold referenceLines listed
  rw [List.map_flatMap]

-- =================================================================== the lines

/-- A line that says of a reference that it is local. -/
def saysLocal (line : String) : Bool :=
  Diagnostic.occursIn "local, distance".toList line.toList

theorem saysLocal_iff {line : String} :
    saysLocal line = true ↔ "local, distance".toList <:+: line.toList := by
  unfold saysLocal
  generalize line.toList = l
  induction l with
  | nil => simp [Diagnostic.occursIn]
  | cons c rest ih =>
      rw [Diagnostic.occursIn, Bool.or_eq_true, List.isPrefixOf_iff_prefix, ih, List.infix_cons_iff]

/-- A text without commas and line ends. -/
def Even (s : String) : Prop := s.toList.all (fun c => c != ',' && c != '\n') = true

namespace Even

variable {s t : String}

theorem append (hs : Even s) (ht : Even t) : Even (s ++ t) := by
  unfold Even at hs ht ⊢
  rw [String.toList_append, List.all_append, hs, ht]
  rfl

theorem not_mem (h : Even s) : ',' ∉ s.toList ∧ '\n' ∉ s.toList := by
  have hall := List.all_eq_true.mp h
  exact ⟨fun hc => absurd (hall _ hc) (by decide), fun hc => absurd (hall _ hc) (by decide)⟩

/-- All characters are of a kind that the two are not of. -/
theorem of_forall {p : Char → Bool} (hcomma : p ',' = false) (hline : p '\n' = false)
    (h : ∀ c ∈ s.toList, p c = true) : Even s := by
  refine List.all_eq_true.mpr fun c hc => ?_
  have hp := h c hc
  have hne : c ≠ ',' ∧ c ≠ '\n' := by
    constructor
    · rintro rfl
      rw [hcomma] at hp
      cases hp
    · rintro rfl
      rw [hline] at hp
      cases hp
  simpa using hne

theorem digits (n : Nat) : Even (toString n) := by
  have hdigit : ∀ c ∈ (toString n).toList, c.isDigit = true := by
    intro c hc
    have hrow : (toString n).toList = Nat.toDigits 10 n := String.toList_ofList
    rw [hrow] at hc
    exact Nat.isDigit_of_mem_toDigits (by decide) (by decide) hc
  exact of_forall (p := Char.isDigit) rfl rfl hdigit

theorem number : ∀ i : Int, Even (toString i)
  | .ofNat n => digits n
  | .negSucc n => append (s := "-") rfl (digits (n + 1))

theorem not_saysLocal (h : Even s) : saysLocal s = false := by
  rw [Bool.eq_false_iff, Ne, saysLocal_iff]
  intro hpart
  exact h.not_mem.1 (hpart.subset (by decide))

end Even

/-- A line up to what it says of its reference. -/
def lead (r : Reference) : String :=
  s!"  {r.token.place.line}:{r.token.place.column}: {r.token.lexeme} -> "

theorem even_lead {r : Reference} (h : Even r.token.lexeme) : Even (lead r) := by
  have hline : Even (toString "  " ++ toString r.token.place.line) := .append rfl (.number _)
  have hcolumn := (hline.append (t := ":") rfl).append (.number r.token.place.column)
  exact ((hcolumn.append (t := ": ") rfl).append h).append rfl

theorem referenceLine_of_some {r : Reference} {distance : Nat} (h : table[r.id]? = some distance) :
    referenceLine table r = lead r ++ ("local, distance " ++ toString distance) := by
  unfold referenceLine
  rw [h]
  rfl

theorem referenceLine_of_none {r : Reference} (h : table[r.id]? = none) :
    referenceLine table r = lead r ++ "global" := by
  unfold referenceLine
  rw [h]
  rfl

/-- A line says of its reference what the table says. -/
theorem saysLocal_referenceLine {r : Reference} (h : Even r.token.lexeme) :
    saysLocal (referenceLine table r) = (table[r.id]?).isSome := by
  cases hentry : table[r.id]? with
  | none =>
      rw [referenceLine_of_none hentry]
      exact ((even_lead h).append (t := "global") rfl).not_saysLocal
  | some distance =>
      rw [referenceLine_of_some hentry, Option.isSome_some, saysLocal_iff]
      refine ⟨(lead r).toList, ' ' :: (toString distance).toList, ?_⟩
      simp

theorem even_heading {line : String} (h : Even line) : ∀ l ∈ heading line, Even l := by
  refine List.forall_mem_cons.mpr ⟨h, List.forall_mem_singleton.mpr ?_⟩
  unfold Even
  rw [String.toList_ofList]
  decide

theorem even_count (n : Nat) : Even s!"Resolved {n} local references:" :=
  (Even.append (s := "Resolved ") rfl (.digits n)).append (t := " local references:") rfl

-- ================================================================= the listing

theorem Even.of_isName {t : Token} (h : t.IsName) : Even t.lexeme :=
  .of_forall (p := fun c => Text.isNameStart c || Text.isNameChar c) rfl rfl
    (h.forall_mem (fun c hc => by rw [hc, Bool.true_or]) fun c hc => by rw [hc, Bool.or_true])

/-- What a program refers to is spelt as a name or as a word of the language. -/
theorem even_of_reference (read : (readProgram text nextId).program = .ok body) {r : Reference}
    (hr : r ∈ Stmt.referencesAll body) : Even r.token.lexeme := by
  obtain ⟨n, hn, hreference⟩ :=
    List.mem_filterMap.mp ((Stmt.references_perm_all body).mem_iff.mp hr)
  have hcases := n.asReference_cases hreference
  have hnumber : n.number? = none := by
    rcases hcases with ⟨_, _, rfl, -⟩ | ⟨_, _, _, rfl, -⟩ | ⟨_, _, rfl, -⟩ | ⟨_, _, _, rfl, -⟩
    all_goals rfl
  have hlegible : n.Legible fun _ => True :=
    (parsed_of_program read n hn).legible (by rw [hnumber]; nofun)
  rcases hcases with
    ⟨_, _, rfl, rfl⟩ | ⟨_, _, _, rfl, rfl⟩ | ⟨_, _, rfl, rfl⟩ | ⟨_, _, _, rfl, rfl⟩
  · exact .of_isName hlegible
  · exact .of_isName hlegible
  · exact hlegible.2 ▸ rfl
  · exact hlegible.1.2 ▸ rfl

/-- What has an entry is a reference of the tree, and nothing has an entry twice. -/
theorem ids_perm_keys (read : (readProgram text nextId).program = .ok body)
    (accepted : (resolveProgram body).accepted = .ok table) :
    (((Stmt.referencesAll body).map Reference.id).filter fun id => (table[id]?).isSome).Perm
      table.keys := by
  have hkeys : table.keys.Nodup := by
    refine Std.TreeMap.distinct_keys.imp fun hne he => hne ?_
    rw [he]
    exact Std.ReflCmp.compare_self
  refine (List.perm_ext_iff_of_nodup ((nodup_ids_references read).filter _) hkeys).mpr fun id => ?_
  rw [List.mem_filter, Std.TreeMap.mem_keys, Std.TreeMap.mem_iff_isSome_getElem?]
  constructor
  · exact fun h => h.2
  · intro h
    refine ⟨?_, h⟩
    obtain ⟨distance, hentry⟩ := Option.isSome_iff_exists.mp h
    rw [Survey.eq_of_accepted accepted] at hentry
    obtain ⟨n, hn, hid, hreference⟩ := exists_reference_of_distances hentry
    obtain ⟨r, hr⟩ := Option.isSome_iff_exists.mp hreference
    have hmem : r ∈ Stmt.referencesAll body :=
      (Stmt.references_perm_all body).mem_iff.mpr (List.mem_filterMap.mpr ⟨n, hn, hr⟩)
    rw [← hid, ← Node.id_of_asReference hr]
    exact List.mem_map_of_mem hmem

/-- **As many lines speak of a local reference as the table has entries.** -/
theorem countP_saysLocal (read : (readProgram text nextId).program = .ok body)
    (accepted : (resolveProgram body).accepted = .ok table) :
    (referenceLines table body).countP saysLocal = table.size := by
  have hheading : (heading s!"Resolved {table.size} local references:").countP saysLocal = 0 :=
    List.countP_eq_zero.mpr fun l hl => by
      rw [(even_heading (even_count _) l hl).not_saysLocal]
      exact Bool.false_ne_true
  have hlines : ((listed body).map (referenceLine table)).countP saysLocal
      = ((listed body).map Reference.id).countP fun id => (table[id]?).isSome := by
    rw [List.countP_map, List.countP_map]
    refine List.countP_congr fun r hr => ?_
    have hreference := (listed_perm body).mem_iff.mp hr
    rw [Function.comp_apply, saysLocal_referenceLine (even_of_reference read hreference),
      Function.comp_apply]
  rw [referenceLines_eq, List.countP_append, hheading, hlines, Nat.zero_add,
    ((listed_perm body).map _).countP_eq, List.countP_eq_length_filter,
    (ids_perm_keys read accepted).length_eq, Std.TreeMap.length_keys]

/-- A listing agrees with a distance table, and both with the text of the program. -/
structure Agrees (table : Distances) (body : List Stmt) : Prop where
  /-- What has an entry is a node of the tree that refers to something. -/
  keys : ∀ (id : NodeId) (distance : Nat), table[id]? = some distance →
    ∃ n ∈ Stmt.nodesAll body, n.id = id ∧ n.asReference.isSome = true
  /-- All such nodes are listed, -/
  complete : (listed body).Perm ((Stmt.nodesAll body).filterMap Node.asReference)
  /-- and each of them once. -/
  once : ((listed body).map Reference.id).Nodup
  /-- The head of the listing counts the lines that speak of a local reference. -/
  lines : ∃ rule, referenceLines table body
    = s!"Resolved {(referenceLines table body).countP saysLocal} local references:" :: rule
      :: (listed body).map (referenceLine table)
  unbroken : ∀ line ∈ referenceLines table body, '\n' ∉ line.toList
  /-- A line says what the table says. -/
  rows : ∀ r ∈ listed body, saysLocal (referenceLine table r) = (table[r.id]?).isSome
    ∧ ∀ distance, table[r.id]? = some distance →
      referenceLine table r = lead r ++ ("local, distance " ++ toString distance)
  special : ∀ r ∈ listed body, r.kind = .this ∨ r.kind = .super → (table[r.id]?).isSome = true
  /-- Every reference is mentioned at one place of the program. -/
  mentioned : (programMentions body).map Mention.reference = Stmt.referencesAll body
  /-- A name is local if some construct around its mention declares it, -/
  isLocal : ∀ m ∈ programMentions body,
    m.reference.kind = .name ∨ m.reference.kind = .assignment →
      ((table[m.reference.id]?).isSome = true
        ↔ ∃ c ∈ m.inside, c.Declares m.reference.token.lexeme)
  /-- as far out as the innermost of these is. -/
  distance : ∀ m ∈ programMentions body,
    m.reference.kind = .name ∨ m.reference.kind = .assignment →
      ∀ distance, table[m.reference.id]? = some distance
        ↔ m.inside.DeclaredAt m.reference.token.lexeme distance

theorem unbroken_referenceLines (read : (readProgram text nextId).program = .ok body)
    (table : Distances) : ∀ line ∈ referenceLines table body, '\n' ∉ line.toList := by
  intro line hline
  rw [referenceLines_eq] at hline
  rcases List.mem_append.mp hline with hline | hline
  · exact (even_heading (even_count _) line hline).not_mem.2
  · obtain ⟨r, hr, rfl⟩ := List.mem_map.mp hline
    have hlead := even_lead (even_of_reference read ((listed_perm body).mem_iff.mp hr))
    cases hentry : table[r.id]? with
    | none =>
        rw [referenceLine_of_none hentry]
        exact (hlead.append (t := "global") rfl).not_mem.2
    | some distance =>
        rw [referenceLine_of_some hentry, String.toList_append, String.toList_append]
        have hword : '\n' ∉ "local, distance ".toList := by decide
        simp only [List.mem_append, not_or]
        exact ⟨hlead.not_mem.2, hword, (Even.digits distance).not_mem.2⟩

theorem agrees (read : (readProgram text nextId).program = .ok body)
    (accepted : (resolveProgram body).accepted = .ok table) : Agrees table body where
  keys id distance h := by
    rw [Survey.eq_of_accepted accepted] at h
    exact exists_reference_of_distances h
  complete := (listed_perm body).trans (Stmt.references_perm_all body)
  once := ((listed_perm body).map _).nodup_iff.mpr (nodup_ids_references read)
  lines := by
    rw [countP_saysLocal read accepted, referenceLines_eq]
    exact ⟨_, rfl⟩
  unbroken := unbroken_referenceLines read table
  rows r hr :=
    have hreference := (listed_perm body).mem_iff.mp hr
    ⟨saysLocal_referenceLine (even_of_reference read hreference), fun _ => referenceLine_of_some⟩
  special r hr := isSome_of_special read accepted ((listed_perm body).mem_iff.mp hr)
  mentioned := Stmt.map_reference_mentionsAll [] body
  isLocal m hm hkind := by
    rw [← Lexical.exists_declaredAt_iff, Option.isSome_iff_exists]
    exact exists_congr fun _ => entry_iff_declaredAt read accepted hm hkind
  distance _ hm hkind _ := entry_iff_declaredAt read accepted hm hkind

/-- **The listing agrees with the distance table.** For every program that is accepted the listing is
printed, its lines are the references of the tree, each once and with what the table says, and the
table says of a reference what the constructs around it say. -/
theorem listing_agrees {s : Session} (path : String)
    (read : (readProgram text s.nextId).program = .ok body)
    (accepted : (resolveProgram body).accepted = .ok table) :
    (showReferences s text path).out
        = s.machine.output ++ ended (referenceLines table body)
      ∧ (showReferences s text path).exit = none
      ∧ Agrees table body := by
  obtain ⟨trace, htrace⟩ := Lockstep.noteAll_eq s.machine
    ((readProgram text s.nextId).trace text path)
  obtain ⟨trace', htrace'⟩ := Lockstep.noteAll_eq ({ s.machine with trace } : Machine)
    (resolveProgram body).trace
  have hread : s.read text path
      = (.ok body, ⟨{ s.machine with trace }, (readProgram text s.nextId).nextId⟩) := by
    unfold Session.read
    dsimp only
    rw [read, htrace]
  have hresolve : Session.resolve ⟨{ s.machine with trace }, (readProgram text s.nextId).nextId⟩ body
      = (.ok (resolveProgram body),
        ⟨{ s.machine with trace := trace' }, (readProgram text s.nextId).nextId⟩) := by
    unfold Session.resolve
    dsimp only
    rw [(Survey.exists_accepted_iff _).mp ⟨table, accepted⟩, htrace']
    rfl
  refine ⟨?_, ?_, agrees read accepted⟩
  · unfold showReferences
    rw [hread]
    dsimp only
    rw [hresolve, Survey.eq_of_accepted accepted]
    rfl
  · unfold showReferences
    rw [hread]
    dsimp only
    rw [hresolve]
    rfl

/-- Names in blocks, functions and classes, one of them assigned to where it is declared. -/
def nestedText : List Char :=
  ("class A \x7b \x7d \x7b var a; var b = b = a; fun f(p) \x7b a = p; \x7d "
    ++ "class B < A \x7b m() \x7b this.x = a; super.m(); \x7d \x7d \x7d").toList

theorem listing_agrees_nested :
    ∃ body table, (readProgram nestedText 1).program = .ok body
      ∧ (resolveProgram body).accepted = .ok table
      ∧ (referenceLines table body).countP saysLocal = 7 ∧ (listed body).length = 8
      ∧ (showReferences (Session.start false 0) nestedText "").out
        = "" ++ ended (referenceLines table body)
      ∧ (showReferences (Session.start false 0) nestedText "").exit = none
      ∧ Agrees table body := by
  have hread : (readProgram nestedText 1).program.toOption.any (fun body =>
      (resolveProgram body).accepted.toOption.any fun table =>
        (referenceLines table body).countP saysLocal == 7 && (listed body).length == 8) = true := by
    decide +kernel
  cases read : (readProgram nestedText 1).program with
  | error faults =>
      rw [read] at hread
      cases hread
  | ok body =>
      cases accepted : (resolveProgram body).accepted with
      | error faults =>
          rw [read, Except.toOption, Option.any_some, accepted] at hread
          cases hread
      | ok table =>
          rw [read, Except.toOption, Option.any_some, accepted] at hread
          obtain ⟨hlocal, hlength⟩ := Bool.and_eq_true_iff.mp hread
          exact ⟨body, table, rfl, accepted, beq_iff_eq.mp hlocal, beq_iff_eq.mp hlength,
            listing_agrees (s := Session.start false 0) "" read accepted⟩

end Script

end Lox
