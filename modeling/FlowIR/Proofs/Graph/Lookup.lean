import FlowIR.Graph.Basic

/-!
# Looking up blocks after an edit

What the edits of the arena and of the label index do to look-ups, for every graph and without any
assumption on it.  Later modules follow an edit through these equations and do not open it.
-/

namespace FlowIR.Graph

variable {g : Graph}

/-- The graph has a block of that id. -/
def Owns (g : Graph) (id : BlockId) : Prop :=
  ∃ block, g.owned id = .ok block

theorem owns_iff {id : BlockId} : g.Owns id ↔ id.graph = g.id ∧ (g.block? id).isSome := by
  simp only [Owns, owned_eq_ok_iff, exists_and_left, Option.isSome_iff_exists]

theorem contains_iff_owns {id : BlockId} : g.contains id = true ↔ g.Owns id := by
  unfold contains Owns
  cases g.owned id <;> simp [Except.toOption]

theorem Owns.of_owned {id : BlockId} {block : Block} (found : g.owned id = .ok block) : g.Owns id :=
  ⟨block, found⟩

/-- The ids of the graph that have an index are one. -/
theorem id_eq_of_index_eq {id other : BlockId} (owns : g.Owns id) (otherOwns : g.Owns other)
    (same : other.index = id.index) : other = id := by
  rcases id with ⟨graph, index⟩
  rcases other with ⟨otherGraph, otherIndex⟩
  have here : graph = g.id := (owns_iff.mp owns).1
  have otherHere : otherGraph = g.id := (owns_iff.mp otherOwns).1
  simp only at same
  rw [here, otherHere, same]

/-! ## Replacing a block -/

section Adjust

variable (id : BlockId) (change : Block → Block)

@[simp] theorem adjust_id : (g.adjust id change).id = g.id := rfl
@[simp] theorem adjust_nextIndex : (g.adjust id change).nextIndex = g.nextIndex := rfl
@[simp] theorem adjust_labels : (g.adjust id change).labels = g.labels := rfl
@[simp] theorem adjust_edges : (g.adjust id change).edges = g.edges := rfl
@[simp] theorem adjust_entry : (g.adjust id change).entry = g.entry := rfl
@[simp] theorem adjust_exit : (g.adjust id change).exit = g.exit := rfl
@[simp] theorem freshId_adjust : (g.adjust id change).freshId = g.freshId := rfl

@[simp] theorem byLabel?_adjust (label : Label) :
    (g.adjust id change).byLabel? label = g.byLabel? label :=
  rfl

theorem block?_adjust (other : BlockId) :
    (g.adjust id change).block? other =
      if other.index = id.index then (g.block? other).map change else g.block? other :=
  Table.find?_map_value g.arena id.index other.index change

theorem owned_adjust (other : BlockId) :
    (g.adjust id change).owned other =
      if other.index = id.index then (g.owned other).map change else g.owned other := by
  unfold owned
  rw [adjust_id, block?_adjust]
  by_cases here : other.graph = g.id
  · by_cases same : other.index = id.index <;> cases g.block? other <;>
      simp [here, same, Except.map]
  · simp [here, Except.map]

/-- Replacing a block of the graph changes that block and no other. -/
theorem owned_adjust_of_owns {id : BlockId} (owns : g.Owns id) (change : Block → Block)
    (other : BlockId) :
    (g.adjust id change).owned other =
      if other = id then (g.owned other).map change else g.owned other := by
  rw [owned_adjust]
  by_cases same : other = id
  · simp [same]
  · rw [if_neg same]
    split
    next sameIndex =>
      cases found : g.owned other with
      | ok block => exact absurd (id_eq_of_index_eq owns ⟨block, found⟩ sameIndex) same
      | error fault => rfl
    next => rfl

@[simp] theorem owns_adjust (other : BlockId) : (g.adjust id change).Owns other ↔ g.Owns other := by
  rw [owns_iff, owns_iff, adjust_id, block?_adjust]
  split <;> simp

end Adjust

/-! ## Adding a block -/

section Register

variable (block : Block)

@[simp] theorem register_id : (g.register block).id = g.id := rfl
@[simp] theorem register_nextIndex : (g.register block).nextIndex = g.nextIndex + 1 := rfl
@[simp] theorem register_edges : (g.register block).edges = g.edges := rfl
@[simp] theorem register_entry : (g.register block).entry = g.entry := rfl
@[simp] theorem register_exit : (g.register block).exit = g.exit := rfl

theorem byLabel?_register (label : Label) :
    (g.register block).byLabel? label =
      (g.byLabel? label).or (if block.label = label then some g.freshId else none) := by
  simp [byLabel?, register, Table.find?_append, Table.find?_cons]

theorem block?_register (id : BlockId) :
    (g.register block).block? id =
      (g.block? id).or
        (if g.nextIndex = id.index then some { block with id := g.freshId } else none) := by
  simp [block?, register, Table.find?_append, Table.find?_cons]

/-- A block stays where it is when another one is added. -/
theorem owned_register_of_owned {id : BlockId} {held : Block} (found : g.owned id = .ok held) :
    (g.register block).owned id = .ok held := by
  rw [owned_eq_ok_iff] at found ⊢
  rw [register_id, block?_register, found.2]
  exact ⟨found.1, rfl⟩

theorem Owns.register {id : BlockId} (owns : g.Owns id) : (g.register block).Owns id := by
  rcases owns with ⟨held, found⟩
  exact ⟨held, owned_register_of_owned block found⟩

/-- Adding a block adds its id and no other. -/
theorem owns_register (id : BlockId) : (g.register block).Owns id ↔ g.Owns id ∨ id = g.freshId := by
  rcases id with ⟨graph, index⟩
  rw [owns_iff, owns_iff, register_id, block?_register]
  by_cases new : g.nextIndex = index
  · cases g.block? ⟨graph, index⟩ <;> simp [new, freshId]
  · simp [new, Ne.symm new, freshId]

end Register

/-! ## Taking a block out -/

section Without

variable (id : BlockId) (label : Label)

@[simp] theorem without_id : (g.without id label).id = g.id := rfl
@[simp] theorem without_nextIndex : (g.without id label).nextIndex = g.nextIndex := rfl

theorem byLabel?_without (other : Label) :
    (g.without id label).byLabel? other = if other = label then none else g.byLabel? other :=
  Table.find?_filter_ne g.labels label other

theorem block?_without (other : BlockId) :
    (g.without id label).block? other =
      if other.index = id.index then none else g.block? other :=
  Table.find?_filter_ne g.arena id.index other.index

theorem owned_without_of_ne {other : BlockId} (different : other.index ≠ id.index) :
    (g.without id label).owned other = g.owned other := by
  simp only [owned, without_id, block?_without, if_neg different]

theorem owns_without (other : BlockId) :
    (g.without id label).Owns other ↔ g.Owns other ∧ other.index ≠ id.index := by
  rw [owns_iff, owns_iff, without_id, block?_without]
  by_cases same : other.index = id.index <;> simp [same]

end Without

/-! ## Changing edges and roles -/

section Fields

variable (edges : List Edge) (entry exit : Option BlockId)

@[simp] theorem owned_withEdges (id : BlockId) :
    { g with edges := edges }.owned id = g.owned id :=
  rfl

@[simp] theorem owned_withEntry (id : BlockId) : { g with entry := entry }.owned id = g.owned id :=
  rfl

@[simp] theorem owned_withExit (id : BlockId) : { g with exit := exit }.owned id = g.owned id :=
  rfl

end Fields

end FlowIR.Graph
