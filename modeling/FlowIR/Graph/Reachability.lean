import FlowIR.Graph.Basic

/-!
# Reachable blocks

A block is reachable when a path of edges, of any kind, leads to it from the entry through live
blocks only.  Pruning marks the live blocks that are not reachable as dead; they keep their ids and
their place.

The search keeps the list of live blocks that it has not met yet.  Meeting a block shortens that
list, and passing over one shortens the list of blocks still to look at, so the search ends.
-/

namespace FlowIR.Graph

/-- The blocks met when the blocks in `pending`, and whatever edges lead to from there, are looked
at in turn; only blocks in `unmet` are met, and each once. -/
def explore (g : Graph) (unmet pending : List BlockId) : List BlockId :=
  match pending with
  | [] => []
  | id :: rest =>
      if id ∈ unmet then
        id :: g.explore (unmet.erase id) (g.successors id ++ rest)
      else
        g.explore unmet rest
termination_by (unmet.length, pending.length)
decreasing_by
  · rename_i member
    have shorter := List.length_erase_of_mem member
    have positive := List.length_pos_of_mem member
    exact Prod.Lex.left _ _ (by omega)
  · exact Prod.Lex.right _ (by simp)

/-- The live blocks reachable from the entry through live blocks, in the order of their ids. -/
def reachable (g : Graph) : List BlockId :=
  let met := g.explore g.liveIds g.entry.toList
  g.liveIds.filter (· ∈ met)

/-- Mark the live blocks that are not reachable as dead, and count them.  A graph without an entry
is left alone. -/
def prune (g : Graph) : Nat × Graph :=
  match g.entry with
  | none => (0, g)
  | some _ =>
      let kept := g.reachable
      let lost := g.liveIds.filter (· ∉ kept)
      (lost.length, lost.foldl (fun g id => g.adjust id (·.mark false)) g)

/-- Pruning as an edit. -/
def pruned : Edit Nat := fun g =>
  let (count, after) := g.prune
  .ok count after

end FlowIR.Graph
