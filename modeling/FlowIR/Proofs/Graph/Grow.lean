import FlowIR.Proofs.Graph.WellFormed

/-!
# Adding blocks one after the other

Blocks that are added in sequence get consecutive ids, and the ids, labels and edges that were there
before stay.
-/

namespace FlowIR

/-- Replacing members by themselves changes nothing. -/
theorem map_eq_self {α : Type} {replace : α → α} {members : List α}
    (same : ∀ a ∈ members, replace a = a) : members.map replace = members :=
  (List.map_congr_left same).trans (List.map_id members)

namespace Graph

variable {g : Graph}

/-- The id that is `offset` places after the next one. -/
def idAt (g : Graph) (offset : Nat) : BlockId :=
  ⟨g.id, g.nextIndex + offset⟩

@[simp] theorem idAt_inj {i j : Nat} : g.idAt i = g.idAt j ↔ i = j := by
  simp [idAt]

/-- Add blocks one after the other. -/
def registerAll (g : Graph) (blocks : List Block) : Graph :=
  blocks.foldl register g

@[simp] theorem registerAll_nil : g.registerAll [] = g := rfl

theorem registerAll_append (first second : List Block) :
    g.registerAll (first ++ second) = (g.registerAll first).registerAll second :=
  List.foldl_append

theorem registerAll_singleton (block : Block) : g.registerAll [block] = g.register block := rfl

@[simp] theorem registerAll_id (blocks : List Block) : (g.registerAll blocks).id = g.id := by
  induction blocks generalizing g with
  | nil => rfl
  | cons block rest ih => exact ih

@[simp] theorem registerAll_nextIndex (blocks : List Block) :
    (g.registerAll blocks).nextIndex = g.nextIndex + blocks.length := by
  induction blocks generalizing g with
  | nil => rfl
  | cons block rest ih =>
      have tail : ((g.register block).registerAll rest).nextIndex =
          g.nextIndex + 1 + rest.length := ih
      rw [List.length_cons, Nat.add_comm rest.length, ← Nat.add_assoc]
      exact tail

@[simp] theorem registerAll_edges (blocks : List Block) :
    (g.registerAll blocks).edges = g.edges := by
  induction blocks generalizing g with
  | nil => rfl
  | cons block rest ih => exact ih

@[simp] theorem registerAll_entry (blocks : List Block) :
    (g.registerAll blocks).entry = g.entry := by
  induction blocks generalizing g with
  | nil => rfl
  | cons block rest ih => exact ih

@[simp] theorem registerAll_exit (blocks : List Block) :
    (g.registerAll blocks).exit = g.exit := by
  induction blocks generalizing g with
  | nil => rfl
  | cons block rest ih => exact ih

theorem freshId_registerAll (blocks : List Block) :
    (g.registerAll blocks).freshId = g.idAt blocks.length := by
  simp [freshId, idAt]

/-- A block stays where it is when others are added. -/
theorem owned_registerAll_of_owned {id : BlockId} {held : Block} (found : g.owned id = .ok held)
    (blocks : List Block) : (g.registerAll blocks).owned id = .ok held := by
  induction blocks generalizing g with
  | nil => exact found
  | cons block rest ih => exact ih (owned_register_of_owned block found)

theorem idAt_register (block : Block) (offset : Nat) :
    (g.register block).idAt offset = g.idAt (offset + 1) := by
  simp only [idAt, register, Nat.add_assoc, Nat.add_comm 1]

/-- A block of the grown graph was there before or was added in its place. -/
theorem owned_registerAll_cases {blocks : List Block} {id : BlockId} {held : Block}
    (found : (g.registerAll blocks).owned id = .ok held) :
    g.owned id = .ok held ∨
      ∃ i block, blocks[i]? = some block ∧ id = g.idAt i ∧ held = { block with id := id } := by
  induction blocks generalizing g with
  | nil => exact .inl found
  | cons block rest ih =>
      rcases ih found with first | ⟨i, added, at_i, rfl, rfl⟩
      · rcases owned_eq_ok_iff.mp first with ⟨here, slot⟩
        rw [block?_register, Option.or_eq_some_iff] at slot
        rcases slot with old | ⟨-, new⟩
        · exact .inl (owned_eq_ok_iff.mpr ⟨here, old⟩)
        · rcases Option.ite_none_right_eq_some.mp new with ⟨same, added⟩
          have fresh : id = g.freshId := by
            rw [freshId, same, ← show id.graph = g.id from here]
          subst fresh
          exact .inr ⟨0, block, rfl, rfl, (Option.some.inj added).symm⟩
      · exact .inr ⟨i + 1, added, at_i, idAt_register block i, rfl⟩

theorem binds_register (block : Block) (label : Label) :
    (g.register block).binds label = true ↔ g.binds label = true ∨ block.label = label := by
  unfold binds
  rw [byLabel?_register]
  by_cases same : block.label = label <;> simp [same]

theorem binds_registerAll (blocks : List Block) (label : Label) :
    (g.registerAll blocks).binds label = true ↔
      g.binds label = true ∨ ∃ block ∈ blocks, block.label = label := by
  induction blocks generalizing g with
  | nil => simp
  | cons block rest ih =>
      have tail : ((g.register block).registerAll rest).binds label = true ↔
          (g.register block).binds label = true ∨ ∃ held ∈ rest, held.label = label := ih
      rw [binds_register, or_assoc] at tail
      simp only [List.mem_cons, or_and_right, exists_or, exists_eq_left]
      exact tail

namespace WellFormed

/-- The graph has no block yet under the ids to come. -/
theorem not_owns_idAt (wf : g.WellFormed) (offset : Nat) : ¬ g.Owns (g.idAt offset) :=
  fun owns => Nat.not_lt_of_le (Nat.le_add_right _ offset) (wf.index_lt owns)

/-- Blocks under distinct free labels may be added. -/
theorem registerAll (wf : g.WellFormed) {blocks : List Block}
    (free : ∀ block ∈ blocks, g.binds block.label = false)
    (distinct : (blocks.map (·.label)).Nodup) : (g.registerAll blocks).WellFormed := by
  induction blocks generalizing g with
  | nil => exact wf
  | cons block rest ih =>
      rw [List.map_cons, List.nodup_cons] at distinct
      apply ih (wf.register (free block List.mem_cons_self)) _ distinct.2
      intro other member
      apply Bool.eq_false_iff.mpr
      intro bound
      rcases (binds_register block other.label).mp bound with old | same
      · rw [free other (List.mem_cons_of_mem _ member)] at old
        contradiction
      · exact distinct.1 (List.mem_map.mpr ⟨other, member, same.symm⟩)

/-- The added blocks stand under consecutive ids. -/
theorem owned_registerAll (wf : g.WellFormed) {blocks : List Block}
    (free : ∀ block ∈ blocks, g.binds block.label = false)
    (distinct : (blocks.map (·.label)).Nodup) {i : Nat} {block : Block}
    (at_i : blocks[i]? = some block) :
    (g.registerAll blocks).owned (g.idAt i) = .ok { block with id := g.idAt i } := by
  rcases List.getElem?_eq_some_iff.mp at_i with ⟨here, eq⟩
  have parts : blocks.take i ++ ([block] ++ blocks.drop (i + 1)) = blocks := by
    rw [← eq, List.singleton_append, List.getElem_cons_drop, List.take_append_drop]
  have grown : (g.registerAll (blocks.take i)).WellFormed := by
    apply wf.registerAll
    · intro other member
      exact free other (List.mem_of_mem_take member)
    · exact distinct.sublist ((List.take_sublist i blocks).map _)
  have fresh := grown.owned_register_freshId block
  rw [freshId_registerAll, List.length_take, Nat.min_eq_left (Nat.le_of_lt here)] at fresh
  have kept := owned_registerAll_of_owned fresh (blocks.drop (i + 1))
  rw [← registerAll_singleton, ← registerAll_append, ← registerAll_append, parts] at kept
  exact kept

/-- Changing the block that was just added is adding the changed block. -/
theorem adjust_register (wf : g.WellFormed) {block changed : Block} {change : Block → Block}
    (eq : change { block with id := g.freshId } = { changed with id := g.freshId })
    (sameLabel : changed.label = block.label) :
    (g.register block).adjust g.freshId change = g.register changed := by
  have old : g.arena.map (fun slot =>
      if slot.1 = g.freshId.index then (slot.1, change slot.2) else slot) = g.arena := by
    apply map_eq_self
    rintro ⟨index, held⟩ slot
    exact if_neg (Nat.ne_of_lt (wf.slots index held slot).2)
  have new : (if g.nextIndex = g.freshId.index then
      (g.nextIndex, change { block with id := g.freshId })
      else (g.nextIndex, { block with id := g.freshId })) =
        (g.nextIndex, { changed with id := g.freshId }) := by
    rw [if_pos (show g.nextIndex = g.freshId.index from rfl), eq]
  simp only [Graph.adjust, Graph.register, List.map_append, old, List.map_cons, List.map_nil, new]
  rw [sameLabel]

/-- Editing the block that was just added is adding the edited block. -/
theorem editBlock_register (wf : g.WellFormed) {block changed : Block} {change : Block → Block}
    (eq : change { block with id := g.freshId } = { changed with id := g.freshId })
    (sameLabel : changed.label = block.label) :
    editBlock g.freshId change (g.register block) = .ok () (g.register changed) := by
  rw [editBlock_apply, wf.owned_register_freshId block]
  simp only [wf.adjust_register eq sameLabel]

end WellFormed

end Graph

end FlowIR
