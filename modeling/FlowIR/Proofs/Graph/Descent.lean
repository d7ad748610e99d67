import FlowIR.Proofs.Graph.Edits

/-!
# Descent

A graph descends from an earlier state of itself when its counter has not gone back and every block
that it has under an index which was given out by then was a block of the earlier state.  Every edit
leaves a graph that descends from the one it began with, so what has gone does not come back.
-/

namespace FlowIR.Graph

/-- The graph has the id of the earlier one, a counter at least as high, and under the indices below
the earlier counter only blocks of the earlier graph. -/
structure Descends (first g : Graph) : Prop where
  id_eq : g.id = first.id
  nextIndex_le : first.nextIndex ≤ g.nextIndex
  owned_before : ∀ id, g.Owns id → id.index < first.nextIndex → first.Owns id

namespace Descends

variable {first g last : Graph}

theorem refl (g : Graph) : g.Descends g :=
  ⟨rfl, Nat.le_refl _, fun _ owns _ => owns⟩

theorem trans (early : first.Descends g) (late : g.Descends last) : first.Descends last where
  id_eq := late.id_eq.trans early.id_eq
  nextIndex_le := Nat.le_trans early.nextIndex_le late.nextIndex_le
  owned_before := fun id owns below =>
    early.owned_before id
      (late.owned_before id owns (Nat.lt_of_lt_of_le below early.nextIndex_le)) below

/-! ## Changes of the tables -/

theorem adjust (descends : first.Descends g) (id : BlockId) (change : Block → Block) :
    first.Descends (g.adjust id change) where
  id_eq := descends.id_eq
  nextIndex_le := descends.nextIndex_le
  owned_before := fun other owns =>
    descends.owned_before other ((owns_adjust id change other).mp owns)

/-- A new block has an index that was not given out before. -/
theorem register (descends : first.Descends g) (block : Block) :
    first.Descends (g.register block) where
  id_eq := descends.id_eq
  nextIndex_le := Nat.le_succ_of_le descends.nextIndex_le
  owned_before := by
    intro id owns below
    rcases (owns_register block id).mp owns with old | rfl
    · exact descends.owned_before id old below
    · exact absurd below (Nat.not_lt.mpr descends.nextIndex_le)

theorem without (descends : first.Descends g) (id : BlockId) (label : Label) :
    first.Descends (g.without id label) where
  id_eq := descends.id_eq
  nextIndex_le := descends.nextIndex_le
  owned_before := fun other owns =>
    descends.owned_before other ((owns_without id label other).mp owns).1

/-- Edges and roles play no part. -/
theorem withFields (descends : first.Descends g) (edges : List Edge) (entry exit : Option BlockId) :
    first.Descends { g with edges := edges, entry := entry, exit := exit } :=
  ⟨descends.id_eq, descends.nextIndex_le, descends.owned_before⟩

theorem prune (descends : first.Descends g) : first.Descends g.prune.2 := by
  unfold Graph.prune
  cases g.entry with
  | none => exact descends
  | some _ =>
      exact List.foldlRecOn _ _ descends fun _ marked id _ => marked.adjust id _

/-! ## Edits -/

theorem createBlock (label : Label) : Preserves first.Descends (Graph.createBlock label) := by
  intro g descends
  apply (ensures_createBlock label g).mono
  · rintro _ _ ⟨-, -, rfl⟩
    exact descends.register _
  · rintro _ _ rfl
    exact descends

theorem adoptBlock (block : Block) : Preserves first.Descends (Graph.adoptBlock block) := by
  intro g descends
  unfold Ensures Graph.adoptBlock
  by_cases bound : g.binds block.label
  · rw [if_pos bound]
    exact descends
  · rw [if_neg bound]
    exact descends.register block

theorem removeBlock (id : BlockId) : Preserves first.Descends (Graph.removeBlock id) := by
  apply (require_preserves id).bind
  intro block
  exact (Preserves.of_modify fun g descends => descends.without id block.label).bind
    fun _ => .of_pure _

theorem editBlock (id : BlockId) (change : Block → Block) :
    Preserves first.Descends (Graph.editBlock id change) := by
  apply (require_preserves id).bind
  intro _
  exact .of_modify fun g descends => descends.adjust id change

theorem setEntry (id : BlockId) : Preserves first.Descends (Graph.setEntry id) := by
  apply (require_preserves id).bind
  intro _
  exact .of_modify fun g descends => descends.withFields g.edges (some id) g.exit

theorem setExit (id : BlockId) : Preserves first.Descends (Graph.setExit id) := by
  apply (require_preserves id).bind
  intro _
  exact .of_modify fun g descends => descends.withFields g.edges g.entry (some id)

theorem insertEdge (edge : Edge) : Preserves first.Descends (Graph.insertEdge edge) := by
  apply (require_preserves edge.source).bind
  intro _
  apply (require_preserves edge.destination).bind
  intro _ g descends
  apply Ensures.get_bind
  split
  · exact Ensures.of_pure descends
  · exact Ensures.set_bind (Ensures.of_pure (descends.withFields _ g.entry g.exit))

theorem split (id : BlockId) (point : Instr) (label : Label) (placement : Placement) :
    Preserves first.Descends (Graph.split id point label placement) := by
  apply (require_preserves id).bind
  intro block
  apply (createBlock label).bind
  intro tailId
  apply (editBlock id _).bind
  intro _
  exact (editBlock tailId _).bind fun _ => .of_pure _

end Descends

/-- Every edit leaves a graph that descends from the one it began with. -/
theorem descends_lasting (first : Graph) : Lasting first.Descends where
  createBlock := Descends.createBlock
  adoptBlock := Descends.adoptBlock
  removeBlock := Descends.removeBlock
  editBlock := fun id change _ => Descends.editBlock id change
  setEntry := Descends.setEntry
  setExit := Descends.setExit
  insertEdge := Descends.insertEdge
  filterEdges := fun g _ descends => descends.withFields _ g.entry g.exit
  split := Descends.split
  pruned := fun _ descends => descends.prune

/-- What comes of a graph descends from it. -/
theorem Develops.descends {g later : Graph} (develops : g.Develops later) : g.Descends later :=
  develops g.Descends (descends_lasting g) (.refl g)

end FlowIR.Graph
