/-
The distance table: for every reference that a scope binds, how many scopes out.
References without an entry are global.
-/
import Lox.Binding.Resolve
import Std.Data.TreeMap

namespace Lox

/-- Distances under the identities of references, in the order of the identities. -/
abbrev Distances := Std.TreeMap NodeId Nat

namespace Distances

/-- The table with some links added; a later link replaces an earlier one. -/
def addLinks (table : Distances) (links : List Link) : Distances :=
  links.foldl (fun t link => t.insert link.id link.distance) table

end Distances

/-- The table of all links of a survey. -/
def Survey.distances (survey : Survey) : Distances := Distances.addLinks ∅ survey.links

/-- The distance table of a program, or its faults. -/
def Survey.accepted (survey : Survey) : Except (List ScopeFault) Distances :=
  if survey.faults.isEmpty then .ok survey.distances else .error survey.faults

/-- The trace of resolution: one line for every link. -/
def Survey.trace (survey : Survey) : List String :=
  survey.links.map fun link => s!"Resolved {link.name} (node {link.id}) at distance {link.distance}"

end Lox
