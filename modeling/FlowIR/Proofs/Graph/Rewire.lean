import FlowIR.Proofs.Graph.Edits
import FlowIR.Proofs.Graph.Grow

/-!
# Splitting and merging blocks and moving their edges

What splitting, merging and moving edges leave, each said as one graph.  Moved edges are taken
out first and inserted again at another block.  They had one source, so their links stay
distinct: one of them is left out only if the other block had an edge of its link before, and
none if no edge left that block.
-/

namespace FlowIR.Graph

variable {g : Graph}

/-! ## Inserting edges -/

/-- The edges whose links the graph does not have. -/
def lacking (g : Graph) (edges : List Edge) : List Edge :=
  edges.filter fun edge => !g.hasLink edge.link

/-- One edge more is one link more. -/
theorem hasLink_append (edge : Edge) (link : Link) :
    { g with edges := g.edges ++ [edge] }.hasLink link =
      (g.hasLink link || decide (edge.link = link)) := by
  simp [hasLink]

/-- Edges with new links are all lacking. -/
theorem lacking_eq_self {edges : List Edge} (new : ∀ edge ∈ edges, g.hasLink edge.link = false) :
    g.lacking edges = edges := by
  apply List.filter_eq_self.mpr
  intro edge member
  rw [new edge member]
  rfl

/-- Edges between blocks of the graph with distinct links are inserted without fail, those excepted
whose link is known already. -/
theorem insertEdges_eq_ok {edges : List Edge}
    (owns : ∀ edge ∈ edges, g.Owns edge.source ∧ g.Owns edge.destination)
    (distinct : (edges.map Edge.link).Nodup) :
    insertEdges edges g =
      .ok (g.lacking edges).length { g with edges := g.edges ++ g.lacking edges } := by
  induction edges generalizing g with
  | nil => simp [insertEdges, lacking]
  | cons edge rest ih =>
      rcases owns edge List.mem_cons_self with ⟨source, destination⟩
      rw [List.map_cons, List.nodup_cons] at distinct
      have restOwns : ∀ other ∈ rest, g.Owns other.source ∧ g.Owns other.destination :=
        fun other member => owns other (List.mem_cons_of_mem _ member)
      cases known : g.hasLink edge.link with
      | true =>
          have first : insertEdge edge g = .ok false g := by
            rcases source with ⟨_, sourceFound⟩
            rcases destination with ⟨_, destinationFound⟩
            rw [insertEdge_apply, sourceFound, destinationFound]
            exact if_pos known
          have same : g.lacking (edge :: rest) = g.lacking rest :=
            List.filter_cons_of_neg (by simp [known])
          simp [insertEdges, first, ih restOwns distinct.2, same]
      | false =>
          have first : insertEdge edge g = .ok true { g with edges := g.edges ++ [edge] } :=
            insertEdge_eq_ok source destination known
          -- The links of the rest differ from the one just added, so the same edges are lacking.
          have sameRest : { g with edges := g.edges ++ [edge] }.lacking rest = g.lacking rest := by
            apply List.filter_congr
            intro other member
            have different : edge.link ≠ other.link := fun same =>
              distinct.1 (List.mem_map.mpr ⟨other, member, same.symm⟩)
            rw [hasLink_append, decide_eq_false different, Bool.or_false]
          have others : insertEdges rest { g with edges := g.edges ++ [edge] } =
              .ok (g.lacking rest).length
                { g with edges := g.edges ++ [edge] ++ g.lacking rest } := by
            rw [← sameRest]
            apply ih
            · exact restOwns
            · exact distinct.2
          have longer : g.lacking (edge :: rest) = edge :: g.lacking rest :=
            List.filter_cons_of_pos (by simp [known])
          simp [insertEdges, first, others, longer]

/-- The edges that leave a block have distinct links wherever they leave from. -/
theorem WellFormed.links_leaving_nodup (wf : g.WellFormed) (source target : BlockId) :
    (((g.outgoing source).map (·.leaving target)).map Edge.link).Nodup := by
  rw [List.map_map, List.Nodup, List.pairwise_map]
  have apart : (g.outgoing source).Pairwise fun edge other => edge.link ≠ other.link :=
    (List.pairwise_map.mp wf.links_nodup).sublist List.filter_sublist
  apply apart.imp_of_mem
  intro edge other member otherMember different same
  have leaves : edge.source = source := by simpa using (List.mem_filter.mp member).2
  have otherLeaves : other.source = source := by simpa using (List.mem_filter.mp otherMember).2
  rcases Link.mk.inj same with ⟨-, destinationEq, kindEq⟩
  apply different
  rw [Edge.link, Edge.link, Link.mk.injEq]
  exact ⟨leaves.trans otherLeaves.symm, destinationEq, kindEq⟩

/-! ## Moving the edges of a block -/

/-- The graph without the edges that leave a block. -/
def detached (g : Graph) (id : BlockId) : Graph :=
  { g with edges := g.edges.filter (·.source ≠ id) }

/-- The edges of a graph are those that stay and those that leave the block. -/
theorem filter_append_outgoing_perm (g : Graph) (id : BlockId) :
    (g.edges.filter (·.source ≠ id) ++ g.outgoing id).Perm g.edges := by
  have both := List.filter_append_perm (fun edge : Edge => decide (edge.source = id)) g.edges
  refine List.Perm.trans List.perm_append_comm ?_
  simpa [outgoing] using both

/-- Moving edges is inserting them at their new source, after they were taken out. -/
theorem retarget_eq_insertEdges {source target : BlockId} (sourceOwned : g.Owns source)
    (targetOwned : g.Owns target) :
    retarget source target g =
      insertEdges ((g.outgoing source).map (·.leaving target)) (g.detached source) := by
  rcases sourceOwned with ⟨_, sourceFound⟩
  rcases targetOwned with ⟨_, targetFound⟩
  simp only [retarget, bind_apply, require_apply, sourceFound, targetFound, get_apply, set_apply]
  rfl

/-- Edges that were taken out are inserted again at a block of the graph without fail. -/
theorem WellFormed.insertEdges_detached (wf : g.WellFormed) (source : BlockId) {target : BlockId}
    (targetOwned : g.Owns target) :
    insertEdges ((g.outgoing source).map (·.leaving target)) (g.detached source) =
      .ok ((g.detached source).lacking ((g.outgoing source).map (·.leaving target))).length
        { g with edges := g.edges.filter (·.source ≠ source) ++
          (g.detached source).lacking ((g.outgoing source).map (·.leaving target)) } := by
  apply insertEdges_eq_ok _ (wf.links_leaving_nodup source target)
  intro edge member
  rcases List.mem_map.mp member with ⟨old, outgoing, rfl⟩
  exact ⟨targetOwned, (wf.linked old (List.mem_filter.mp outgoing).1).2⟩

/-- Moving the edges of a block to one that no edge leaves yet keeps all of
them, behind the others. -/
theorem WellFormed.retarget_eq_ok (wf : g.WellFormed) {source target : BlockId}
    (sourceOwned : g.Owns source) (targetOwned : g.Owns target)
    (idle : ∀ edge ∈ g.edges, edge.source ≠ target) :
    retarget source target g = .ok (g.outgoing source).length
      { g with edges := g.edges.filter (·.source ≠ source) ++
        (g.outgoing source).map (·.leaving target) } := by
  have all : (g.detached source).lacking ((g.outgoing source).map (·.leaving target)) =
      (g.outgoing source).map (·.leaving target) := by
    apply lacking_eq_self
    intro edge moved
    apply Bool.eq_false_iff.mpr
    intro known
    rcases List.mem_map.mp moved with ⟨old, -, rfl⟩
    rcases List.mem_map.mp (hasLink_iff.mp known) with ⟨kept, keptEdge, same⟩
    exact idle kept (List.mem_filter.mp keptEdge).1 (congrArg Link.source same)
  rw [retarget_eq_insertEdges sourceOwned targetOwned, wf.insertEdges_detached source targetOwned,
    all, List.length_map]

/-! ## Blocks -/

/-- Replacing a block may be said of the block that is there. -/
theorem WellFormed.adjust_congr (wf : g.WellFormed) {id : BlockId} {held : Block}
    (found : g.owned id = .ok held) {change other : Block → Block}
    (same : change held = other held) :
    g.adjust id change = g.adjust id other := by
  unfold Graph.adjust
  congr 1
  apply List.map_congr_left
  rintro ⟨index, block⟩ member
  dsimp only
  split
  next here =>
    obtain rfl : index = id.index := here
    have blockFound := wf.mem_arena_iff.mp member
    rw [← (owned_eq_ok_iff.mp found).1, found] at blockFound
    obtain rfl := Except.ok.inj blockFound
    rw [same]
  next => rfl

/-- A block may be replaced before or after another one is added. -/
theorem adjust_register_comm (block : Block) {id : BlockId} (other : g.nextIndex ≠ id.index)
    (change : Block → Block) :
    (g.register block).adjust id change = (g.adjust id change).register block := by
  simp only [Graph.adjust, Graph.register, List.map_append, List.map_cons, List.map_nil,
    if_neg other]
  rfl

/-- Splitting leaves the head in the block and puts the tail into a new one. -/
theorem WellFormed.split_eq_ok (wf : g.WellFormed) {id : BlockId} {held : Block} {point : Instr}
    {label : Label} {placement : Placement} (found : g.owned id = .ok held)
    (free : g.binds label = false) :
    split id point label placement g = .ok g.freshId
      ((g.adjust id fun _ => (held.splitOff point placement).1).register
        { id := g.freshId, label := label
          instrs := (held.splitOff point placement).2.getD [] }) := by
  obtain ⟨head, tail, halves⟩ : ∃ head tail, held.splitOff point placement = (head, tail) :=
    ⟨_, _, rfl⟩
  have keeps : head.id = held.id ∧ head.label = held.label := by
    have names := keepsName_splitOff point placement held
    simp only [halves] at names
    exact names
  have other : g.nextIndex ≠ id.index := (Nat.ne_of_lt (wf.index_lt ⟨held, found⟩)).symm
  have made : createBlock label g =
      .ok g.freshId (g.register { id := g.freshId, label := label }) := by
    rw [createBlock, if_neg (Bool.eq_false_iff.mp free)]
  have cut : editBlock id (fun _ => head) (g.register { id := g.freshId, label := label }) =
      .ok () ((g.adjust id fun _ => head).register { id := g.freshId, label := label }) := by
    rw [editBlock_apply, owned_register_of_owned _ found]
    exact congrArg _ (adjust_register_comm _ other _)
  have headWf : (g.adjust id fun _ => head).WellFormed := by
    apply wf.adjust _ ⟨held, found⟩
    intro block blockFound
    rw [found] at blockFound
    obtain rfl := Except.ok.inj blockFound
    exact keeps
  have filled : editBlock g.freshId (·.withInstrs (tail.getD []))
      ((g.adjust id fun _ => head).register { id := g.freshId, label := label }) =
        .ok () ((g.adjust id fun _ => head).register
          { id := g.freshId, label := label, instrs := tail.getD [] }) :=
    headWf.editBlock_register rfl rfl
  simp only [split, bind_apply, require_apply, found, made, halves, cut, filled, pure_apply]

/-! ## Merging -/

/-- The graph in which `into` has swallowed the donor, without the edges of the donor. -/
def swallowing (g : Graph) (into donor : BlockId) (food : Block) : Graph :=
  (g.without donor food.label).adjust into (·.swallow food)

/-- The edges that a donor hands over to the block that swallows it. -/
def handedOver (g : Graph) (into donor : BlockId) : List Edge :=
  ((g.outgoing donor).filter (·.destination ≠ donor)).map (·.leaving into)

/-- Only edges from `into` lead to the donor. -/
def SolePredecessor (g : Graph) (into donor : BlockId) : Prop :=
  ∀ edge ∈ g.edges, edge.destination = donor → edge.source = into

theorem any_predecessors_iff {into donor : BlockId} :
    (g.predecessors donor).any (· ≠ into) = true ↔ ¬ g.SolePredecessor into donor := by
  simp [predecessors, SolePredecessor]

/-- Merging a block into its sole predecessor is swallowing it and inserting the edges that it hands
over. -/
theorem merge_eq_insertEdges {into donor : BlockId} {food : Block} (intoOwned : g.Owns into)
    (found : g.owned donor = .ok food) (apart : into ≠ donor)
    (sole : g.SolePredecessor into donor) :
    merge into donor g =
      (do let _ ← insertEdges (g.handedOver into donor) : Edit Unit)
        (g.swallowing into donor food) := by
  have accepted : (g.predecessors donor).any (· ≠ into) = false :=
    Bool.eq_false_iff.mpr fun shared => any_predecessors_iff.mp shared sole
  have otherIndex : into.index ≠ donor.index := fun same =>
    apart (id_eq_of_index_eq ⟨food, found⟩ intoOwned same)
  rcases intoOwned with ⟨held, intoFound⟩
  have swallowed : editBlock into (·.swallow food) (g.without donor food.label) =
      .ok () (g.swallowing into donor food) := by
    rw [editBlock_apply, owned_without_of_ne donor food.label otherIndex, intoFound]
    rfl
  simp only [merge, bind_apply, require_apply, intoFound, found, if_neg apart, get_apply, accepted,
    Bool.false_eq_true, if_false, removeBlock_apply, swallowed]
  rfl

/-- The edges that a donor hands over are inserted without fail. -/
theorem WellFormed.insertEdges_swallowing (wf : g.WellFormed) {into donor : BlockId} (food : Block)
    (intoOwned : g.Owns into) (donorOwned : g.Owns donor) (apart : into ≠ donor) :
    insertEdges (g.handedOver into donor) (g.swallowing into donor food) =
      .ok ((g.swallowing into donor food).lacking (g.handedOver into donor)).length
        { g.swallowing into donor food with
          edges := (g.swallowing into donor food).edges ++
            (g.swallowing into donor food).lacking (g.handedOver into donor) } := by
  have stays : ∀ id, g.Owns id → id ≠ donor → (g.swallowing into donor food).Owns id := by
    intro id owns other
    rw [swallowing, owns_adjust, owns_without]
    exact ⟨owns, fun same => other (id_eq_of_index_eq donorOwned owns same)⟩
  apply insertEdges_eq_ok
  · intro edge member
    rcases List.mem_map.mp member with ⟨old, handed, rfl⟩
    rcases List.mem_filter.mp handed with ⟨outgoing, elsewhere⟩
    exact ⟨stays into intoOwned apart,
      stays _ (wf.linked old (List.mem_filter.mp outgoing).1).2 (of_decide_eq_true elsewhere)⟩
  · exact (wf.links_leaving_nodup donor into).sublist ((List.filter_sublist.map _).map _)

end FlowIR.Graph
