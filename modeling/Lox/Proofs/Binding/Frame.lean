/-
What resolving a part of a program leaves alone. In whatever state the resolver
comes to a statement or an expression, and whether or not it finds faults there, it
leaves the outer scopes, the function and the class around it as they were, keeps
the faults that it had, and adds to the table only distances of nodes that it came
to, each of them within the scopes that stood around its node. The innermost scope
gains the names that the statement declares in it, all of them ready.
-/
import Lox.Proofs.Binding.Threaded

namespace Lox

namespace Scopes

/-- A distance counts scopes that there are. -/
theorem distance?_lt {scopes : Scopes} {name : String} {distance : Nat}
    (h : scopes.distance? name = some distance) : distance < scopes.length :=
  (List.findIdx?_eq_some_iff_getElem.mp h).1

/-- A name of the innermost scope is ready if it is one of those that were made ready. -/
theorem find?_readied (scope : Scope) (names : List Token) (name : String) :
    Bindings.find? (names.foldl (fun scope name => scope.set name.lexeme true) scope) name
      = if name ∈ names.map Token.lexeme then some true else scope.find? name := by
  induction names generalizing scope with
  | nil => rfl
  | cons first rest ih =>
      rw [List.foldl_cons, ih, Bindings.find?_set, List.map_cons]
      by_cases hrest : name ∈ rest.map Token.lexeme
      · rw [if_pos hrest, if_pos (List.mem_cons_of_mem _ hrest)]
      · by_cases hfirst : first.lexeme = name
        · rw [if_neg hrest, if_pos hfirst, if_pos (by rw [hfirst]; exact List.mem_cons_self)]
        · rw [if_neg hrest, if_neg hfirst, if_neg]
          simpa [hrest] using Ne.symm hfirst

end Scopes

/-- An entry behind some links is an old one, or one of the links. -/
theorem Distances.getElem?_addLinks_or (table : Distances) (links : List Link) (id : NodeId) :
    (table.addLinks links)[id]? = table[id]?
      ∨ ∃ link ∈ links, link.id = id ∧ (table.addLinks links)[id]? = some link.distance := by
  induction links generalizing table with
  | nil => exact .inl rfl
  | cons link rest ih =>
      rcases ih (table.insert link.id link.distance) with h | ⟨other, hother, hid, h⟩
      · have hrest : (table.addLinks (link :: rest))[id]?
            = (table.insert link.id link.distance)[id]? := h
        by_cases hid : link.id = id
        · refine .inr ⟨link, List.mem_cons_self, hid, ?_⟩
          rw [hrest, hid, Std.TreeMap.getElem?_insert_self]
        · refine .inl ?_
          rw [hrest, Std.TreeMap.getElem?_insert, if_neg]
          rwa [Std.LawfulEqCmp.compare_eq_iff_eq]
      · exact .inr ⟨other, List.mem_cons_of_mem _ hother, hid, h⟩

namespace Resolver

/-- How the state `r'` behind a part of a program comes from the state `r` before it. The part
declares `names` in the innermost scope and consists of `nodes`. -/
structure Frames (r r' : Resolver) (names : List Token) (nodes : List Node) : Prop where
  depth : r'.scopes.length = r.scopes.length
  outer : r'.scopes.tail = r.scopes.tail
  /-- The names are ready in the innermost scope, and it says of all others what it said before. -/
  innermost : ∀ scope ∈ r.scopes.head?, ∃ scope' ∈ r'.scopes.head?, ∀ name,
    scope'.find? name = if name ∈ names.map Token.lexeme then some true else scope.find? name
  around : r'.around = r.around
  faults : r.faults <+: r'.faults
  /-- The resolver came to the nodes one after the other, and changed no entry of the table but
  those of nodes, to a distance within the scopes around the node. -/
  table : ∃ way, r'.way = r.way ++ way ∧ way.map Prod.fst = nodes
    ∧ ∀ id, r'.table[id]? = r.table[id]?
      ∨ ∃ n depth distance, (n, depth) ∈ way ∧ n.id = id
        ∧ r'.table[id]? = some distance ∧ distance < depth

theorem Frames.of_after (r : Resolver) (names : List Token) {found : Survey} {visits : List Visit}
    (haccounts : found.Accounts .empty visits) :
    r.Frames (r.after (r.scopes.readied names) found visits) names (visits.map Visit.node) where
  depth := r.scopes.length_readied names
  outer := r.scopes.tail_readied names
  innermost scope hscope := by
    obtain ⟨outer, hscopes⟩ : ∃ outer, r.scopes = scope :: outer :=
      List.head?_eq_some_iff.mp hscope
    refine ⟨_, ?_, Scopes.find?_readied scope names⟩
    show _ ∈ (r.scopes.readied names).head?
    rw [hscopes]
    rfl
  around := rfl
  faults := List.prefix_append _ _
  table := by
    refine ⟨_, rfl, List.map_map, fun id => ?_⟩
    rcases r.table.getElem?_addLinks_or found.links id with h | ⟨link, hlink, hid, h⟩
    · exact .inl h
    · obtain ⟨v, hv, hfinding⟩ := ((haccounts.links link).mp hlink).resolve_left nofun
      obtain ⟨hnode, -, hdistance⟩ := Visit.mem_finding_links hfinding
      exact .inr ⟨v.node, v.scopes.length, link.distance, List.mem_map_of_mem hv,
        hnode.symm.trans hid, h, Scopes.distance?_lt hdistance⟩

end Resolver

/-- **Resolution keeps to its frame.** In every state of the resolver, a statement and an expression
change no more than they may, and what they find is what `Stmt.resolve` and `Expr.resolve` find. -/
theorem resolution_framed (r : Resolver) :
    (∀ s : Stmt, r.Frames (s.thread r) s.ownNames s.nodes
      ∧ ((s.thread r).scopes, (s.thread r).table, (s.thread r).faults)
        = ((s.resolve r.around r.scopes).1,
          r.table.addLinks (s.resolve r.around r.scopes).2.links,
          r.faults ++ (s.resolve r.around r.scopes).2.faults))
    ∧ ∀ e : Expr, r.Frames (e.thread r) [] e.nodes ∧ (e.thread r).scopes = r.scopes
      ∧ ((e.thread r).table, (e.thread r).faults)
        = (r.table.addLinks (e.resolve r.around r.scopes).links,
          r.faults ++ (e.resolve r.around r.scopes).faults) := by
  refine ⟨fun s => ?_, fun e => ?_⟩
  · rw [s.thread_eq]
    refine ⟨?_, rfl⟩
    have hframes := Resolver.Frames.of_after r s.ownNames (s.accounts r.around r.scopes)
    rwa [s.map_node_visits, ← s.fst_resolve r.around] at hframes
  · rw [e.thread_eq]
    refine ⟨?_, rfl, rfl⟩
    have hframes := Resolver.Frames.of_after r [] (e.accounts r.around r.scopes)
    rwa [e.map_node_visits, Scopes.readied_nil] at hframes

end Lox
