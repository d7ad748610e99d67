import FlowIR.Proofs.Graph.Search
import FlowIR.Proofs.Graph.Listing

/-!
# Pruning as one change

Pruning marks one dead block after the other, but it comes to one change of all marks at once: in
a graph with an entry, exactly the reachable blocks are live afterwards.  Since each path to a
kept block runs through kept blocks, pruning does not change what is reachable, and pruning once
more finds nothing to do.
-/

namespace FlowIR.Graph

attribute [ext] Graph

variable {g : Graph}

/-! ## Marks -/

/-- The graph in which the blocks that pass the test are live and all others are dead. -/
def marked (g : Graph) (alive : BlockId → Bool) : Graph :=
  { g with arena := g.arena.map fun slot => (slot.1, slot.2.mark (alive slot.2.id)) }

theorem blocks_marked (alive : BlockId → Bool) :
    (g.marked alive).blocks = g.blocks.map fun block => block.mark (alive block.id) := by
  simp only [blocks, marked, List.map_map]
  rfl

theorem liveIds_marked (alive : BlockId → Bool) :
    (g.marked alive).liveIds = (g.blocks.map (·.id)).filter alive := by
  rw [liveIds, liveBlocks, blocks_marked, List.filter_map, List.filter_map, List.map_map]
  rfl

/-- The arena holds each block under its index. -/
theorem WellFormed.arena_eq_blocks (wf : g.WellFormed) :
    g.arena = g.blocks.map fun block => (block.id.index, block) := by
  rw [blocks, List.map_map]
  symm
  apply map_eq_self
  rintro ⟨index, block⟩ member
  simp only [Function.comp, (wf.slots index block member).1]

theorem WellFormed.liveIds_eq_filter (wf : g.WellFormed) :
    g.liveIds = (g.blocks.map (·.id)).filter (· ∈ g.liveIds) := by
  rw [List.filter_map]
  refine congrArg (List.map Block.id) (List.filter_congr ?_)
  intro block member
  simp [wf.id_mem_liveIds_iff member]

/-- The reachable blocks in the order of all blocks. -/
theorem WellFormed.reachable_eq_filter_blocks (wf : g.WellFormed) :
    g.reachable = (g.blocks.map (·.id)).filter (· ∈ g.reachable) := by
  have live : ∀ {id}, id ∈ g.reachable → id ∈ g.liveIds := fun member =>
    (mem_reachable_iff.mp member).live
  calc g.reachable = g.liveIds.filter (· ∈ g.reachable) := g.reachable_eq_filter
    _ = ((g.blocks.map (·.id)).filter (· ∈ g.liveIds)).filter (· ∈ g.reachable) := by
        rw [← wf.liveIds_eq_filter]
    _ = (g.blocks.map (·.id)).filter (· ∈ g.reachable) := by
        rw [List.filter_filter]
        apply List.filter_congr
        intro id _
        by_cases reached : id ∈ g.reachable <;> simp [reached, live]

/-! ## What pruning does -/

section Entry

variable {entry : BlockId}

theorem prune_eq_of_entry (role : g.entry = some entry) :
    g.prune = ((g.liveIds.filter (· ∉ g.reachable)).length,
      (g.liveIds.filter (· ∉ g.reachable)).foldl (fun g id => g.adjust id (·.mark false)) g) := by
  unfold Graph.prune
  rw [role]

/-- In a graph with an entry, pruning leaves exactly the reachable blocks live and
changes nothing else. -/
theorem WellFormed.prune_eq_marked (wf : g.WellFormed) (role : g.entry = some entry) :
    g.prune.2 = g.marked fun id => decide (id ∈ g.reachable) := by
  have kept : ∀ id, id ∈ g.prune.2.liveIds ↔ id ∈ g.reachable := by
    intro id
    rw [wf.mem_liveIds_prune_iff, mem_reachable_iff, role]
    constructor
    · rintro ⟨-, none | reaches⟩
      · contradiction
      · exact reaches
    · exact fun reaches => ⟨reaches.live, .inr reaches⟩
  have blocks : g.prune.2.blocks = (g.marked fun id => decide (id ∈ g.reachable)).blocks := by
    rw [wf.prune.blocks_eq_sketch, sketch_prune, sketch, List.map_map, blocks_marked]
    apply List.map_congr_left
    intro block _
    simp only [Function.comp, kept]
    rfl
  have arena : g.prune.2.arena = (g.marked fun id => decide (id ∈ g.reachable)).arena := by
    rw [wf.prune.arena_eq_blocks, blocks, blocks_marked, marked, wf.arena_eq_blocks, List.map_map,
      List.map_map]
    rfl
  rcases g.prune_fields with ⟨id, nextIndex, labels, edges, entry, exit⟩
  exact Graph.ext id nextIndex arena labels edges entry exit

theorem WellFormed.liveIds_prune (wf : g.WellFormed) (role : g.entry = some entry) :
    g.prune.2.liveIds = g.reachable := by
  rw [wf.prune_eq_marked role, liveIds_marked]
  exact wf.reachable_eq_filter_blocks.symm

/-- Every path to a kept block stays, so the same blocks are reachable. -/
theorem WellFormed.reachable_prune (wf : g.WellFormed) (role : g.entry = some entry) :
    g.prune.2.reachable = g.reachable := by
  rw [reachable_eq_filter, wf.liveIds_prune role]
  apply List.filter_eq_self.mpr
  intro id member
  rw [decide_eq_true_iff, mem_reachable_iff, wf.reaches_prune_iff]
  exact mem_reachable_iff.mp member

theorem WellFormed.prune_prune (wf : g.WellFormed) (role : g.entry = some entry) :
    g.prune.2.prune = (0, g.prune.2) := by
  have roleAfter : g.prune.2.entry = some entry := g.prune_fields.2.2.2.2.1.trans role
  have lost : g.prune.2.liveIds.filter (· ∉ g.prune.2.reachable) = [] := by
    rw [wf.reachable_prune role, wf.liveIds_prune role]
    simp
  rw [prune_eq_of_entry roleAfter, lost]
  rfl

/-! ## How many blocks it marks -/

/-- The blocks of the first graph whose marks are others in the second graph. -/
def flipped (before after : Graph) : List Block :=
  before.blocks.filter fun block => (after.block? block.id).any (·.live != block.live)

theorem WellFormed.flipped_prune (wf : g.WellFormed) (role : g.entry = some entry) :
    g.flipped g.prune.2 = g.liveBlocks.filter fun block => decide (block.id ∉ g.reachable) := by
  rw [liveBlocks, List.filter_filter, flipped]
  apply List.filter_congr
  intro block member
  have found := wf.mem_blocks_iff.mp member
  have after := wf.owned_prune block.id
  rw [found, role] at after
  have held := (owned_eq_ok_iff.mp after).2
  rw [held, Option.any_some]
  change ((block.live && (false || decide (block.id ∈ g.reachable))) != block.live) = _
  cases block.live <;> by_cases reached : block.id ∈ g.reachable <;> simp [reached]

theorem WellFormed.prune_count (wf : g.WellFormed) (role : g.entry = some entry) :
    g.prune.1 = (g.flipped g.prune.2).length := by
  rw [wf.flipped_prune role, prune_eq_of_entry role]
  simp only [liveIds, List.filter_map, List.length_map]
  rfl

end Entry

/-! ## Pruning said in full -/

/-- The second graph and the number come of pruning the first graph, which has an entry: the marks
of the reachable blocks are set, those of all others are not, and nothing but marks has changed. -/
structure PrunesTo (before : Graph) (count : Nat) (after : Graph) : Prop where
  marks : after = before.marked fun id => decide (id ∈ before.reachable)
  live : after.liveIds = before.reachable
  reachable : after.reachable = before.reachable
  counts : count = (before.flipped after).length
  again : after.prune = (0, after)

/-- Pruning leaves exactly the reachable blocks live, once and for all, and it counts the blocks
that it marks.  A graph without an entry stays as it is.  In both cases an edge from a block that
survives does not lead to one that does not. -/
theorem prune_exact (wf : g.WellFormed) :
    (g.entry = none → g.prune = (0, g)) ∧
    (g.entry ≠ none → g.PrunesTo g.prune.1 g.prune.2) ∧
    ∀ edge ∈ g.prune.2.edges, edge.source ∈ g.prune.2.liveIds → edge.destination ∈ g.liveIds →
      edge.destination ∈ g.prune.2.liveIds := by
  refine ⟨fun role => ?_, fun named => ?_, ?_⟩
  · unfold Graph.prune
    rw [role]
  · obtain ⟨entry, role⟩ := Option.ne_none_iff_exists'.mp named
    exact {
      marks := wf.prune_eq_marked role
      live := wf.liveIds_prune role
      reachable := wf.reachable_prune role
      counts := wf.prune_count role
      again := wf.prune_prune role }
  · intro edge member survives live
    rw [g.prune_fields.2.2.2.1] at member
    rw [wf.mem_liveIds_prune_iff] at survives ⊢
    refine ⟨live, survives.2.imp_right fun reaches => ?_⟩
    exact reaches.step (mem_successors_of_mem member) live

/-- The block behind the dead one is marked, and nothing is left to mark afterwards. -/
theorem prune_exact_sample :
    tangledGraph.WellFormed ∧ tangledGraph.PrunesTo 1 tangledGraph.prune.2 := by
  have wf : tangledGraph.WellFormed := by decide +kernel
  have count : tangledGraph.prune.1 = 1 := by
    rw [prune_eq_of_entry rfl, reachable_tangledGraph]
    rfl
  have named : tangledGraph.entry ≠ none := by decide
  exact ⟨wf, count ▸ (prune_exact wf).2.1 named⟩

end FlowIR.Graph
