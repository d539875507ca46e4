/-
Texts that are alike. What a session shows of a program never depends on the
numbers of its nodes, two kinds of lines apart that tell them: those of the listing
of distances, and those of the trace of resolution (`LineAlike`). Texts are alike
if they are the same but for such lines, and these name corresponding nodes.
-/
import Lox.Proofs.Likeness.Resolve
import Lox.Report

namespace Lox

/-- Two lines are the same but for the number of a node that both name. -/
inductive LineAlike (ρ : Likeness) : String → String → Prop
  | same (line : String) : LineAlike ρ line line
  | listed {a b : NodeId} (node : ρ.nodes a b) (distance : Nat) :
      LineAlike ρ s!"  node {a} -> distance {distance}" s!"  node {b} -> distance {distance}"
  | resolved {a b : NodeId} (node : ρ.nodes a b) (name : String) (distance : Nat) :
      LineAlike ρ s!"Resolved {name} (node {a}) at distance {distance}"
        s!"Resolved {name} (node {b}) at distance {distance}"

/-- Two texts are the same but for lines that are alike. -/
inductive TextAlike (ρ : Likeness) : String → String → Prop
  | same (text : String) : TextAlike ρ text text
  | line {line line' : String} (alike : LineAlike ρ line line') :
      TextAlike ρ (line ++ "\n") (line' ++ "\n")
  | append {a a' b b' : String} (first : TextAlike ρ a a') (rest : TextAlike ρ b b') :
      TextAlike ρ (a ++ b) (a' ++ b')

variable {ρ : Likeness}

theorem LineAlike.mono {σ : Likeness} (h : ∀ id id', ρ.nodes id id' → σ.nodes id id')
    {line line' : String} (alike : LineAlike ρ line line') : LineAlike σ line line' := by
  cases alike with
  | same => exact .same line
  | listed node distance => exact .listed (h _ _ node) distance
  | resolved node name distance => exact .resolved (h _ _ node) name distance

theorem TextAlike.mono {σ : Likeness} (h : ∀ id id', ρ.nodes id id' → σ.nodes id id')
    {text text' : String} (alike : TextAlike ρ text text') : TextAlike σ text text' := by
  induction alike with
  | same text => exact .same text
  | line alike => exact .line (alike.mono h)
  | append _ _ first rest => exact .append first rest

/-- Lines that are alike make texts that are. -/
theorem TextAlike.ended {lines lines' : List String} (h : List.Forall₂ (LineAlike ρ) lines lines') :
    TextAlike ρ (ended lines) (ended lines') := by
  have hcons : ∀ (line : String) rest, Lox.ended (line :: rest) = line ++ "\n" ++ Lox.ended rest := by
    intro line rest
    unfold Lox.ended
    rw [List.map_cons, String.join_cons]
  induction h with
  | nil => exact .same _
  | cons first _ ih =>
      rw [hcons, hcons]
      exact .append (.line first) ih

/-- The trace of resolution names corresponding nodes. -/
theorem Survey.Alike.trace {a a' : Survey} (h : a.Alike ρ a') :
    List.Forall₂ (LineAlike ρ) a.trace a'.trace := by
  unfold Survey.trace
  rw [List.forall₂_map_left_iff, List.forall₂_map_right_iff]
  refine h.links.imp fun link link' hlink => ?_
  rw [hlink.name, hlink.distance]
  exact .resolved hlink.node link.name link.distance

end Lox
