import FlowIR.Proofs.Graph.Grow
import FlowIR.Proofs.Graph.Reachability

/-!
# Graphs as lists of blocks

The blocks of a graph in their order, after each change of the graph.  Pruning changes nothing in
this list but marks; without the marks it is the sketch of the graph, from which the list can be
restored when it is known which blocks are live.
-/

namespace FlowIR.Graph

variable {g : Graph}

/-! ## Blocks after a change -/

theorem blocks_register (block : Block) :
    (g.register block).blocks = g.blocks ++ [{ block with id := g.freshId }] := by
  simp [blocks, register]

/-- Blocks that have the ids to come already are added as they are. -/
theorem blocks_registerAll {blocks : List Block}
    (ids : blocks.map (·.id) = (List.range blocks.length).map g.idAt) :
    (g.registerAll blocks).blocks = g.blocks ++ blocks := by
  induction blocks generalizing g with
  | nil => exact (List.append_nil _).symm
  | cons block rest ih =>
      rw [List.length_cons, List.range_succ_eq_map, List.map_cons, List.map_cons, List.map_map,
        List.cons.injEq] at ids
      have here : { block with id := g.freshId } = block := by
        rw [show g.freshId = block.id from ids.1.symm]
      have others : rest.map (·.id) = (List.range rest.length).map (g.register block).idAt := by
        rw [ids.2]
        exact List.map_congr_left fun i _ => (idAt_register block i).symm
      have added : ((g.register block).registerAll rest).blocks =
          (g.register block).blocks ++ rest :=
        ih others
      rw [blocks_register, here, List.append_assoc] at added
      exact added

/-- A change is a change of the block with that id. -/
theorem WellFormed.blocks_adjust (wf : g.WellFormed) {id : BlockId} (owns : g.Owns id)
    (change : Block → Block) :
    (g.adjust id change).blocks = g.blocks.map fun block =>
      if block.id = id then change block else block := by
  simp only [Graph.blocks, Graph.adjust, List.map_map]
  apply List.map_congr_left
  rintro ⟨index, block⟩ member
  have slot := (wf.slots index block member).1
  have here : index = id.index ↔ block.id = id := by
    rw [slot]
    constructor
    · rintro rfl
      rw [← (owns_iff.mp owns).1]
    · rintro rfl
      rfl
  simp only [Function.comp, here]
  split <;> rfl

/-! ## Sketches -/

/-- The blocks of a graph, all taken for live. -/
def sketch (g : Graph) : List Block :=
  g.blocks.map (·.mark true)

/-- Marking blocks does not show in the sketch. -/
theorem sketch_adjust_mark (id : BlockId) (live : Bool) :
    (g.adjust id (·.mark live)).sketch = g.sketch := by
  simp only [sketch, blocks, adjust, List.map_map]
  apply List.map_congr_left
  intro slot _
  simp only [Function.comp]
  split <;> rfl

theorem sketch_prune : g.prune.2.sketch = g.sketch := by
  have marked : ∀ (ids : List BlockId) (g : Graph),
      (ids.foldl (fun g id => g.adjust id (·.mark false)) g).sketch = g.sketch := by
    intro ids
    induction ids with
    | nil => exact fun _ => rfl
    | cons id rest ih => exact fun g => (ih _).trans (sketch_adjust_mark id false)
  unfold prune
  cases g.entry with
  | none => rfl
  | some _ => exact marked _ g

/-- Sketch and live blocks together are the graph's blocks. -/
theorem WellFormed.blocks_eq_sketch (wf : g.WellFormed) :
    g.blocks = g.sketch.map fun block => block.mark (decide (block.id ∈ g.liveIds)) := by
  rw [sketch, List.map_map]
  symm
  apply map_eq_self
  intro block member
  simp [Block.mark, wf.id_mem_liveIds_iff member]

end FlowIR.Graph
