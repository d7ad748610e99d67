import FlowIR.Graph.Reachability
import FlowIR.Graph.Restructure
import FlowIR.Proofs.Ensures
import FlowIR.Proofs.Graph.Lookup

/-!
# Well-formed graphs

A graph is well formed when its tables agree: the arena holds under each index the block of that
index, the label index says exactly which block carries a label, edges and roles name blocks of the
graph, and no two edges share a link.

Each change of the tables keeps this under a condition of its own, and each edit makes only changes
whose condition it has checked.  So every edit preserves well-formedness, also when it fails.
-/

namespace FlowIR.Graph

/-- The tables of a graph agree with each other. -/
structure WellFormed (g : Graph) : Prop where
  /-- Under an index stands the block of this graph with that index, and indices come from the
  counter. -/
  slots : ∀ index block, (index, block) ∈ g.arena → block.id = ⟨g.id, index⟩ ∧ index < g.nextIndex
  /-- The arena is in the order of the indices, each of which stands there once. -/
  ordered : (g.arena.map (·.1)).Pairwise (· < ·)
  /-- The label index sends a label to a block exactly when that block carries it. -/
  labelled : ∀ label id,
    g.byLabel? label = some id ↔ ∃ block, g.owned id = .ok block ∧ block.label = label
  /-- Each label stands in the label index once. -/
  labels_nodup : (g.labels.map (·.1)).Nodup
  /-- Edges lead from blocks of the graph to blocks of the graph. -/
  linked : ∀ edge ∈ g.edges, g.Owns edge.source ∧ g.Owns edge.destination
  /-- No two edges share source, destination and kind. -/
  links_nodup : (g.edges.map Edge.link).Nodup
  entry_owned : ∀ id, g.entry = some id → g.Owns id
  exit_owned : ∀ id, g.exit = some id → g.Owns id

namespace WellFormed

variable {g : Graph}

/-! ## Reading a well-formed graph -/

theorem indices_nodup (wf : g.WellFormed) : (g.arena.map (·.1)).Nodup :=
  wf.ordered.imp fun less => Nat.ne_of_lt less

/-- The arena holds exactly the blocks that the graph finds. -/
theorem mem_arena_iff (wf : g.WellFormed) {index : Nat} {block : Block} :
    (index, block) ∈ g.arena ↔ g.owned ⟨g.id, index⟩ = .ok block := by
  rw [owned_eq_ok_iff, block?, Table.find?_eq_some_iff wf.indices_nodup]
  simp

/-- A block that the graph finds under an id has that id. -/
theorem id_of_owned (wf : g.WellFormed) {id : BlockId} {block : Block}
    (found : g.owned id = .ok block) : block.id = id := by
  rcases owned_eq_ok_iff.mp found with ⟨here, held⟩
  rw [(wf.slots id.index block (Table.mem_of_find? held)).1, ← here]

/-- The blocks of the graph are those that it finds. -/
theorem mem_blocks_iff (wf : g.WellFormed) {block : Block} :
    block ∈ g.blocks ↔ g.owned block.id = .ok block := by
  constructor
  · intro member
    rcases List.mem_map.mp member with ⟨⟨index, held⟩, slot, rfl⟩
    rw [(wf.slots index held slot).1]
    exact wf.mem_arena_iff.mp slot
  · intro found
    rcases owned_eq_ok_iff.mp found with ⟨-, held⟩
    exact List.mem_map.mpr ⟨_, Table.mem_of_find? held, rfl⟩

/-- Ids of the graph lie below the counter. -/
theorem index_lt (wf : g.WellFormed) {id : BlockId} (owns : g.Owns id) :
    id.index < g.nextIndex := by
  rcases owns with ⟨block, found⟩
  rcases owned_eq_ok_iff.mp found with ⟨-, held⟩
  exact (wf.slots id.index block (Table.mem_of_find? held)).2

/-- No block of the graph has the next id. -/
theorem ne_freshId (wf : g.WellFormed) {id : BlockId} (owns : g.Owns id) : id ≠ g.freshId := by
  rintro rfl
  exact Nat.lt_irrefl _ (wf.index_lt owns)

theorem block?_freshId (wf : g.WellFormed) : g.block? g.freshId = none := by
  cases held : g.block? g.freshId with
  | none => rfl
  | some block =>
      have owns : g.Owns g.freshId := ⟨block, owned_eq_ok_iff.mpr ⟨rfl, held⟩⟩
      exact absurd rfl (wf.ne_freshId owns)

theorem owned_register_freshId (wf : g.WellFormed) (block : Block) :
    (g.register block).owned g.freshId = .ok { block with id := g.freshId } := by
  rw [owned_eq_ok_iff, block?_register, wf.block?_freshId]
  simp [freshId]

theorem owned_register (wf : g.WellFormed) (block : Block) (id : BlockId) :
    (g.register block).owned id =
      if id = g.freshId then .ok { block with id := g.freshId } else g.owned id := by
  split
  next here => rw [here, wf.owned_register_freshId]
  next other =>
    by_cases here : id.graph = g.id
    · have different : g.nextIndex ≠ id.index := by
        intro same
        apply other
        rw [freshId, same, ← here]
      simp only [owned, register_id, here, if_true, block?_register, if_neg different,
        Option.or_none]
    · simp [owned, here]

/-- Two blocks with one label are one block. -/
theorem id_eq_of_label_eq (wf : g.WellFormed) {id other : BlockId} {block otherBlock : Block}
    (found : g.owned id = .ok block) (otherFound : g.owned other = .ok otherBlock)
    (same : block.label = otherBlock.label) : id = other := by
  have bound := (wf.labelled block.label id).mpr ⟨block, found, rfl⟩
  have otherBound := (wf.labelled block.label other).mpr ⟨otherBlock, otherFound, same.symm⟩
  exact Option.some.inj (bound.symm.trans otherBound)

/-- The ids of the blocks have the indices of the arena, in its order. -/
theorem map_index_ids (wf : g.WellFormed) :
    (g.blocks.map (·.id)).map (·.index) = g.arena.map (·.1) := by
  rw [blocks, List.map_map, List.map_map]
  apply List.map_congr_left
  intro slot member
  exact congrArg BlockId.index (wf.slots slot.1 slot.2 member).1

theorem ids_nodup (wf : g.WellFormed) : (g.blocks.map (·.id)).Nodup := by
  apply List.Pairwise.of_map (S := (· ≠ ·)) BlockId.index
  · exact fun _ _ different same => different (congrArg BlockId.index same)
  · rw [wf.map_index_ids]
    exact wf.indices_nodup

/-- No two blocks of the graph carry the same label. -/
theorem blockLabels_nodup (wf : g.WellFormed) : (g.blocks.map (·.label)).Nodup := by
  rw [List.Nodup, List.pairwise_map]
  apply (List.pairwise_map.mp wf.ids_nodup).imp_of_mem
  intro block other member otherMember different same
  have found := wf.mem_blocks_iff.mp member
  have otherFound := wf.mem_blocks_iff.mp otherMember
  exact different (wf.id_eq_of_label_eq found otherFound same)

theorem liveIds_nodup (wf : g.WellFormed) : g.liveIds.Nodup :=
  wf.ids_nodup.sublist (List.filter_sublist.map _)

/-- A live block is a block of the graph that is live. -/
theorem mem_liveBlocks_iff (wf : g.WellFormed) {block : Block} :
    block ∈ g.liveBlocks ↔ g.owned block.id = .ok block ∧ block.live = true := by
  rw [liveBlocks, List.mem_filter, wf.mem_blocks_iff]

/-- A block that the graph finds and that is live is one of the live blocks. -/
theorem mem_liveBlocks_of_owned (wf : g.WellFormed) {id : BlockId} {block : Block}
    (found : g.owned id = .ok block) (live : block.live = true) : block ∈ g.liveBlocks := by
  rw [wf.mem_liveBlocks_iff, wf.id_of_owned found]
  exact ⟨found, live⟩

/-- The ids of the live blocks are those under which the graph finds a live block. -/
theorem mem_liveIds_iff (wf : g.WellFormed) {id : BlockId} :
    id ∈ g.liveIds ↔ ∃ block, g.owned id = .ok block ∧ block.live = true := by
  rw [liveIds, List.mem_map]
  constructor
  · rintro ⟨block, member, rfl⟩
    exact ⟨block, wf.mem_liveBlocks_iff.mp member⟩
  · rintro ⟨block, found, live⟩
    have same := wf.id_of_owned found
    subst same
    exact ⟨block, wf.mem_liveBlocks_iff.mpr ⟨found, live⟩, rfl⟩

/-- The id of a block is among those of the live blocks when the block is live. -/
theorem id_mem_liveIds_iff (wf : g.WellFormed) {block : Block} (member : block ∈ g.blocks) :
    block.id ∈ g.liveIds ↔ block.live = true := by
  rw [wf.mem_liveIds_iff, wf.mem_blocks_iff.mp member]
  simp

/-! ## Changes of the tables -/

/-- An empty graph is well formed. -/
theorem empty (id : GraphId) : ({ id := id } : Graph).WellFormed where
  slots := by simp
  ordered := by simp
  labelled := by simp [byLabel?, owned_eq_ok_iff, block?]
  labels_nodup := by simp
  linked := by simp
  links_nodup := by simp
  entry_owned := by simp
  exit_owned := by simp

/-- Replacing a block by one of the same id and label keeps the tables in agreement. -/
theorem adjust (wf : g.WellFormed) {id : BlockId} {change : Block → Block}
    (keeps : ∀ block, g.owned id = .ok block →
      (change block).id = block.id ∧ (change block).label = block.label)
    (owns : g.Owns id) : (g.adjust id change).WellFormed where
  slots := by
    intro index block member
    rcases List.mem_map.mp member with ⟨⟨oldIndex, old⟩, slot, eq⟩
    have sound := wf.slots oldIndex old slot
    simp only at eq
    split at eq
    next here =>
      rcases Prod.mk.inj eq with ⟨rfl, rfl⟩
      have found := wf.mem_arena_iff.mp slot
      have same : (⟨g.id, oldIndex⟩ : BlockId) = id := id_eq_of_index_eq owns ⟨old, found⟩ here
      rw [(keeps old (same ▸ found)).1]
      exact sound
    next =>
      rcases Prod.mk.inj eq with ⟨rfl, rfl⟩
      exact sound
  ordered := by
    have keys : (g.adjust id change).arena.map (·.1) = g.arena.map (·.1) := by
      rw [Graph.adjust, List.map_map]
      apply List.map_congr_left
      intro slot _
      simp only [Function.comp_apply]
      split <;> rfl
    rw [keys]
    exact wf.ordered
  labelled := by
    intro label other
    rw [byLabel?_adjust, wf.labelled, owned_adjust]
    split
    next here =>
      constructor
      · rintro ⟨block, found, rfl⟩
        have same := id_eq_of_index_eq owns ⟨block, found⟩ here
        refine ⟨change block, by rw [found]; rfl, (keeps block (same ▸ found)).2⟩
      · rintro ⟨block, found, rfl⟩
        cases held : g.owned other with
        | error fault => simp [held, Except.map] at found
        | ok old =>
            have same := id_eq_of_index_eq owns ⟨old, held⟩ here
            rw [held] at found
            obtain rfl := Except.ok.inj found
            exact ⟨old, rfl, (keeps old (same ▸ held)).2.symm⟩
    next => rfl
  labels_nodup := wf.labels_nodup
  linked := by
    intro edge member
    rw [owns_adjust, owns_adjust]
    exact wf.linked edge member
  links_nodup := wf.links_nodup
  entry_owned := by
    intro other role
    rw [owns_adjust]
    exact wf.entry_owned other role
  exit_owned := by
    intro other role
    rw [owns_adjust]
    exact wf.exit_owned other role

/-- Adding a block under a free label keeps the tables in agreement. -/
theorem register (wf : g.WellFormed) {block : Block} (free : g.binds block.label = false) :
    (g.register block).WellFormed where
  slots := by
    intro index held member
    rcases List.mem_append.mp member with old | new
    · have sound := wf.slots index held old
      exact ⟨sound.1, Nat.lt_succ_of_lt sound.2⟩
    · rcases Prod.mk.inj (List.mem_singleton.mp new) with ⟨rfl, rfl⟩
      exact ⟨rfl, Nat.lt_succ_self _⟩
  ordered := by
    rw [Graph.register, List.map_append, List.pairwise_append]
    refine ⟨wf.ordered, List.pairwise_singleton _ _, ?_⟩
    intro index member next new
    rcases List.mem_map.mp member with ⟨⟨_, held⟩, slot, rfl⟩
    obtain rfl := List.mem_singleton.mp new
    exact (wf.slots _ held slot).2
  labelled := by
    have absent : g.byLabel? block.label = none := by
      simpa [binds] using free
    intro label id
    rw [byLabel?_register, wf.owned_register]
    by_cases here : id = g.freshId
    · subst here
      have unbound : g.byLabel? label ≠ some g.freshId := by
        intro bound
        rcases (wf.labelled label g.freshId).mp bound with ⟨held, found, -⟩
        exact wf.ne_freshId ⟨held, found⟩ rfl
      by_cases same : block.label = label
      · subst same
        simp [absent]
      · simp [same, unbound]
    · rw [if_neg here, ← wf.labelled]
      by_cases same : block.label = label
      · subst same
        simp [absent, Ne.symm here]
      · simp [same]
  labels_nodup := by
    have absent : ∀ pair ∈ g.labels, pair.1 ≠ block.label :=
      Table.find?_eq_none_iff.mp (by simpa [binds, byLabel?] using free)
    rw [Graph.register, List.map_append, List.nodup_append]
    refine ⟨wf.labels_nodup, List.pairwise_singleton _ _, ?_⟩
    intro label member other new
    rcases List.mem_map.mp member with ⟨pair, listed, rfl⟩
    obtain rfl := List.mem_singleton.mp new
    exact absent pair listed
  linked := by
    intro edge member
    have owns := wf.linked edge member
    exact ⟨owns.1.register block, owns.2.register block⟩
  links_nodup := wf.links_nodup
  entry_owned := fun id role => (wf.entry_owned id role).register block
  exit_owned := fun id role => (wf.exit_owned id role).register block

/-- Taking a block out together with its label, edges and roles keeps the tables in agreement. -/
theorem without (wf : g.WellFormed) {id : BlockId} {block : Block}
    (found : g.owned id = .ok block) : (g.without id block.label).WellFormed where
  slots := fun index held member => wf.slots index held (List.mem_filter.mp member).1
  ordered := wf.ordered.sublist (List.filter_sublist.map _)
  labelled := by
    intro label other
    rw [byLabel?_without]
    by_cases same : other.index = id.index
    · have gone : ¬ ∃ held, (g.without id block.label).owned other = .ok held := by
        rintro owns
        exact ((owns_without id block.label other).mp owns).2 same
      constructor
      · intro bound
        split at bound
        · contradiction
        next different =>
          rcases (wf.labelled label other).mp bound with ⟨held, otherFound, rfl⟩
          obtain rfl := id_eq_of_index_eq ⟨block, found⟩ ⟨held, otherFound⟩ same
          rw [found] at otherFound
          exact absurd (congrArg Block.label (Except.ok.inj otherFound)).symm different
      · rintro ⟨held, otherFound, -⟩
        exact absurd ⟨held, otherFound⟩ gone
    · rw [owned_without_of_ne id block.label same, ← wf.labelled]
      by_cases taken : label = block.label
      · have bound := (wf.labelled label id).mpr ⟨block, found, taken.symm⟩
        have different : id ≠ other := fun eq => same (congrArg BlockId.index eq.symm)
        rw [if_pos taken, bound, Option.some.injEq]
        exact iff_of_false nofun different
      · simp [taken]
  labels_nodup := wf.labels_nodup.sublist (List.filter_sublist.map _)
  linked := by
    intro edge member
    rcases List.mem_filter.mp member with ⟨listed, apart⟩
    have owns := wf.linked edge listed
    simp only [Edge.touches, Bool.not_eq_true', Bool.or_eq_false_iff, decide_eq_false_iff_not]
      at apart
    rw [owns_without, owns_without]
    refine ⟨⟨owns.1, fun same => apart.1 ?_⟩, ⟨owns.2, fun same => apart.2 ?_⟩⟩
    · exact id_eq_of_index_eq ⟨block, found⟩ owns.1 same
    · exact id_eq_of_index_eq ⟨block, found⟩ owns.2 same
  links_nodup := wf.links_nodup.sublist (List.filter_sublist.map _)
  entry_owned := by
    intro other role
    rcases Option.filter_eq_some_iff.mp role with ⟨held, different⟩
    have owns := wf.entry_owned other held
    rw [owns_without]
    refine ⟨owns, fun same => ?_⟩
    simp [id_eq_of_index_eq ⟨block, found⟩ owns same] at different
  exit_owned := by
    intro other role
    rcases Option.filter_eq_some_iff.mp role with ⟨held, different⟩
    have owns := wf.exit_owned other held
    rw [owns_without]
    refine ⟨owns, fun same => ?_⟩
    simp [id_eq_of_index_eq ⟨block, found⟩ owns same] at different

/-- The edges may be replaced by other edges between blocks of the graph with distinct links. -/
theorem withEdges (wf : g.WellFormed) {edges : List Edge}
    (linked : ∀ edge ∈ edges, g.Owns edge.source ∧ g.Owns edge.destination)
    (nodup : (edges.map Edge.link).Nodup) : { g with edges := edges }.WellFormed where
  slots := wf.slots
  ordered := wf.ordered
  labelled := wf.labelled
  labels_nodup := wf.labels_nodup
  linked := linked
  links_nodup := nodup
  entry_owned := wf.entry_owned
  exit_owned := wf.exit_owned

/-- Edges may be dropped. -/
theorem filterEdges (wf : g.WellFormed) (kept : Edge → Bool) :
    { g with edges := g.edges.filter kept }.WellFormed :=
  wf.withEdges (fun edge member => wf.linked edge (List.mem_filter.mp member).1)
    (wf.links_nodup.sublist (List.filter_sublist.map _))

/-- A block of the graph may become the entry. -/
theorem withEntry (wf : g.WellFormed) {id : BlockId} (owns : g.Owns id) :
    { g with entry := some id }.WellFormed where
  slots := wf.slots
  ordered := wf.ordered
  labelled := wf.labelled
  labels_nodup := wf.labels_nodup
  linked := wf.linked
  links_nodup := wf.links_nodup
  entry_owned := by
    rintro other ⟨⟩
    exact owns
  exit_owned := wf.exit_owned

/-- A block of the graph may become the exit. -/
theorem withExit (wf : g.WellFormed) {id : BlockId} (owns : g.Owns id) :
    { g with exit := some id }.WellFormed where
  slots := wf.slots
  ordered := wf.ordered
  labelled := wf.labelled
  labels_nodup := wf.labels_nodup
  linked := wf.linked
  links_nodup := wf.links_nodup
  entry_owned := wf.entry_owned
  exit_owned := by
    rintro other ⟨⟩
    exact owns

end WellFormed

/-! ## Checking -/

/-- Well-formedness can be read off the tables. -/
theorem wellFormed_iff {g : Graph} : g.WellFormed ↔
    (∀ slot ∈ g.arena, slot.2.id = ⟨g.id, slot.1⟩ ∧ slot.1 < g.nextIndex) ∧
    (g.arena.map (·.1)).Pairwise (· < ·) ∧
    (∀ slot ∈ g.arena, (slot.2.label, slot.2.id) ∈ g.labels) ∧
    (∀ bound ∈ g.labels, ∃ slot ∈ g.arena, (slot.2.label, slot.2.id) = bound) ∧
    (g.labels.map (·.1)).Nodup ∧
    (∀ edge ∈ g.edges, g.contains edge.source = true ∧ g.contains edge.destination = true) ∧
    (g.edges.map Edge.link).Nodup ∧
    (∀ id ∈ g.entry, g.contains id = true) ∧ ∀ id ∈ g.exit, g.contains id = true := by
  simp only [contains_iff_owns]
  constructor
  · intro wf
    refine ⟨fun slot => wf.slots slot.1 slot.2, wf.ordered, ?_, ?_, wf.labels_nodup, wf.linked,
      wf.links_nodup, wf.entry_owned, wf.exit_owned⟩
    · intro slot member
      have found : g.owned slot.2.id = .ok slot.2 :=
        wf.mem_blocks_iff.mp (List.mem_map_of_mem member)
      exact Table.mem_of_find? ((wf.labelled _ _).mpr ⟨slot.2, found, rfl⟩)
    · rintro ⟨label, id⟩ member
      have bound : g.byLabel? label = some id :=
        (Table.find?_eq_some_iff wf.labels_nodup).mpr member
      rcases (wf.labelled label id).mp bound with ⟨block, found, rfl⟩
      have same := wf.id_of_owned found
      rw [← same] at found
      rcases List.mem_map.mp (wf.mem_blocks_iff.mpr found) with ⟨slot, held, rfl⟩
      exact ⟨slot, held, by rw [same]⟩
  · rintro ⟨slots, ordered, carried, bound, labels, linked, links, entry, exit⟩
    have indices : (g.arena.map (·.1)).Nodup := ordered.imp fun less => Nat.ne_of_lt less
    refine ⟨fun index block => slots (index, block), ordered, ?_, labels, linked, links, entry,
      exit⟩
    intro label id
    rw [byLabel?, Table.find?_eq_some_iff labels]
    constructor
    · intro member
      rcases bound _ member with ⟨⟨index, block⟩, held, same⟩
      rcases Prod.mk.inj same with ⟨rfl, rfl⟩
      refine ⟨block, owned_eq_ok_iff.mpr ?_, rfl⟩
      rw [block?, Table.find?_eq_some_iff indices, (slots _ held).1]
      exact ⟨rfl, held⟩
    · rintro ⟨block, found, rfl⟩
      rcases owned_eq_ok_iff.mp found with ⟨here, held⟩
      have member := Table.mem_of_find? held
      have same := carried _ member
      rw [(slots _ member).1, ← here] at same
      exact same

instance (g : Graph) : Decidable g.WellFormed :=
  decidable_of_iff' _ wellFormed_iff

end FlowIR.Graph
