import FlowIR.Proofs.Graph.Edits

/-!
# What a graph refers to

The instructions of a graph and the attachments of its edges refer to variables, labels and
literals.  An edit adds nothing to these but what it is given: if a condition holds of all
that a graph refers to and of all that an edit brings along, then it holds afterwards, whether
the edit succeeds or fails.
-/

namespace FlowIR

/-- All that an instruction refers to: its operands and its result. -/
def Instr.mentions (instr : Instr) : List Operand :=
  instr.operands ++ (instr.result?.map Operand.var).toList

/-- A jump refers to its target only. -/
theorem Instr.eq_label_of_mem_mentions_jump {label : Label} {operand : Operand}
    (mentioned : operand ∈ (Instr.jump label).mentions) : operand = .label label :=
  List.mem_singleton.mp mentioned

namespace Block

/-- All that the instructions of a block refer to. -/
def mentions (block : Block) : List Operand :=
  block.instrs.flatMap Instr.mentions

/-- The block refers only to what is allowed. -/
def Within (ok : Operand → Prop) (block : Block) : Prop :=
  ∀ instr ∈ block.instrs, ∀ operand ∈ instr.mentions, ok operand

variable {ok : Operand → Prop} {block food : Block}

theorem within_iff : block.Within ok ↔ ∀ operand ∈ block.mentions, ok operand := by
  simp only [Within, mentions, List.mem_flatMap, forall_exists_index, and_imp]
  exact ⟨fun within operand instr member mentioned => within instr member operand mentioned,
    fun within instr member operand mentioned => within operand instr member mentioned⟩

/-- A block with no other instructions refers to nothing else. -/
theorem Within.of_subset (within : block.Within ok) {other : Block}
    (fewer : ∀ instr ∈ other.instrs, instr ∈ block.instrs) : other.Within ok :=
  fun instr member => within instr (fewer instr member)

theorem within_of_empty (empty : block.instrs = []) : block.Within ok := by
  simp [Within, empty]

theorem Within.append (within : block.Within ok) {instr : Instr}
    (new : ∀ operand ∈ instr.mentions, ok operand) : (block.append instr).Within ok := by
  intro other member
  rcases List.mem_append.mp member with old | last
  · exact within other old
  · exact List.mem_singleton.mp last ▸ new

theorem Within.insertFirst (within : block.Within ok) {instr : Instr}
    (new : ∀ operand ∈ instr.mentions, ok operand) : (block.insertFirst instr).Within ok := by
  intro other member
  rcases List.mem_cons.mp member with rfl | old
  · exact new
  · exact within other old

theorem Within.erase (within : block.Within ok) (instr : Instr) : (block.erase instr).Within ok :=
  within.of_subset fun _ member => List.mem_of_mem_erase member

theorem Within.swallow (within : block.Within ok) (foodWithin : food.Within ok) :
    (block.swallow food).Within ok := by
  intro instr member
  rcases List.mem_append.mp member with old | new
  · exact within instr old
  · exact foodWithin instr new

theorem Within.withInstrs {instrs : List Instr}
    (new : ∀ instr ∈ instrs, ∀ operand ∈ instr.mentions, ok operand) :
    (block.withInstrs instrs).Within ok :=
  new

/-- Both parts of a block that is cut refer to what the block refers to. -/
theorem Within.splitOff (within : block.Within ok) (point : Instr) (placement : Placement) :
    (block.splitOff point placement).1.Within ok ∧
      ∀ instr ∈ (block.splitOff point placement).2.getD [], ∀ operand ∈ instr.mentions,
        ok operand := by
  unfold Block.splitOff
  split
  next head tail cutEq =>
    have whole := append_of_cut cutEq
    constructor
    · exact within.of_subset fun instr member => whole ▸ List.mem_append_left tail member
    · exact fun instr member => within instr (whole ▸ List.mem_append_right head member)
  next => exact ⟨within, by simp⟩

end Block

namespace Graph

/-- All that the instructions of a graph refer to, in dead blocks too. -/
def instrMentions (g : Graph) : List Operand :=
  g.blocks.flatMap Block.mentions

/-- All that a graph refers to, in instructions and in what is attached to edges. -/
def mentions (g : Graph) : List Operand :=
  g.instrMentions ++ g.edges.filterMap (·.data)

/-- Every block is as `okBlock` says, and all that is attached to edges as `okData` says. -/
structure Each (okBlock : Block → Prop) (okData : Operand → Prop) (g : Graph) : Prop where
  blocks : ∀ block ∈ g.blocks, okBlock block
  edges : ∀ edge ∈ g.edges, ∀ operand, edge.data = some operand → okData operand

/-- The graph refers only to what is allowed. -/
def Within (ok : Operand → Prop) (g : Graph) : Prop :=
  g.Each (Block.Within ok) ok

variable {ok okData : Operand → Prop} {okBlock : Block → Prop} {g : Graph}

theorem within_iff : g.Within ok ↔ ∀ operand ∈ g.mentions, ok operand := by
  constructor
  · intro within operand member
    rcases List.mem_append.mp member with inBlock | onEdge
    · rcases List.mem_flatMap.mp inBlock with ⟨block, held, mentioned⟩
      exact Block.within_iff.mp (within.blocks block held) operand mentioned
    · rcases List.mem_filterMap.mp onEdge with ⟨edge, held, attached⟩
      exact within.edges edge held operand attached
  · intro within
    constructor
    · intro block held
      rw [Block.within_iff]
      intro operand mentioned
      exact within operand (List.mem_append_left _ (List.mem_flatMap.mpr ⟨block, held, mentioned⟩))
    · intro edge held operand attached
      exact within operand
        (List.mem_append_right _ (List.mem_filterMap.mpr ⟨edge, held, attached⟩))

theorem Each.mono {other : Block → Prop} {otherData : Operand → Prop} (each : g.Each okBlock okData)
    (weaker : ∀ block, okBlock block → other block)
    (weakerData : ∀ operand, okData operand → otherData operand) : g.Each other otherData where
  blocks := fun block held => weaker block (each.blocks block held)
  edges := fun edge held operand attached =>
    weakerData operand (each.edges edge held operand attached)

/-- A block of the graph holds the instruction. -/
def HoldsAt (g : Graph) (id : BlockId) (instr : Instr) : Prop :=
  ∃ held, g.owned id = .ok held ∧ instr ∈ held.instrs

/-- The operand is attached to an edge of the graph. -/
def Attaches (g : Graph) (operand : Operand) : Prop :=
  ∃ edge ∈ g.edges, edge.data = some operand

theorem mem_blocks_of_owned {id : BlockId} {block : Block} (found : g.owned id = .ok block) :
    block ∈ g.blocks :=
  List.mem_map.mpr ⟨_, Table.mem_of_find? (owned_eq_ok_iff.mp found).2, rfl⟩

/-! ## Changes of a graph -/

theorem Each.adjust (each : g.Each okBlock okData) (id : BlockId) {change : Block → Block}
    (kept : ∀ block, okBlock block → okBlock (change block)) :
    (g.adjust id change).Each okBlock okData where
  blocks := by
    intro block member
    simp only [Graph.blocks, Graph.adjust, List.map_map, List.mem_map] at member
    rcases member with ⟨slot, held, rfl⟩
    have before := each.blocks slot.2 (List.mem_map_of_mem held)
    dsimp only [Function.comp]
    split
    · exact kept slot.2 before
    · exact before
  edges := each.edges

theorem Each.register (each : g.Each okBlock okData) {block : Block}
    (new : okBlock { block with id := g.freshId }) : (g.register block).Each okBlock okData where
  blocks := by
    intro other member
    simp only [Graph.blocks, Graph.register, List.map_append, List.map_cons, List.map_nil,
      List.mem_append, List.mem_singleton] at member
    rcases member with old | rfl
    · exact each.blocks other old
    · exact new
  edges := each.edges

theorem Each.without (each : g.Each okBlock okData) (id : BlockId) (label : Label) :
    (g.without id label).Each okBlock okData where
  blocks := by
    intro block member
    rcases List.mem_map.mp member with ⟨slot, held, rfl⟩
    exact each.blocks _ (List.mem_map_of_mem (List.mem_filter.mp held).1)
  edges := fun edge member => each.edges edge (List.mem_filter.mp member).1

theorem Each.withEdges (each : g.Each okBlock okData) {edges : List Edge}
    (allowed : ∀ edge ∈ edges, ∀ operand, edge.data = some operand → okData operand) :
    { g with edges := edges }.Each okBlock okData where
  blocks := each.blocks
  edges := allowed

theorem Each.filterEdges (each : g.Each okBlock okData) (kept : Edge → Bool) :
    { g with edges := g.edges.filter kept }.Each okBlock okData :=
  each.withEdges fun edge member => each.edges edge (List.mem_filter.mp member).1

theorem Each.prune (each : g.Each okBlock okData)
    (kept : ∀ block, okBlock block → okBlock (block.mark false)) :
    g.prune.2.Each okBlock okData := by
  have marked : ∀ (ids : List BlockId) (g : Graph), g.Each okBlock okData →
      (ids.foldl (fun g id => g.adjust id (·.mark false)) g).Each okBlock okData := by
    intro ids
    induction ids with
    | nil => exact fun _ each => each
    | cons id rest ih => exact fun g each => ih _ (each.adjust id kept)
  unfold Graph.prune
  cases g.entry with
  | none => exact each
  | some _ => exact marked _ g each

/-! ## Edits -/

theorem createBlock_each (empty : ∀ block, block.instrs = [] → okBlock block) (label : Label) :
    Preserves (Each okBlock okData) (createBlock label) := by
  intro g each
  apply (ensures_createBlock label g).mono
  · rintro _ _ ⟨-, -, rfl⟩
    exact each.register (empty _ rfl)
  · rintro _ _ rfl
    exact each

theorem adoptBlock_each {block : Block} (new : ∀ id, okBlock { block with id := id }) :
    Preserves (Each okBlock okData) (adoptBlock block) := by
  intro g each
  unfold Ensures adoptBlock
  by_cases bound : g.binds block.label
  · rw [if_pos bound]
    exact each
  · rw [if_neg bound]
    exact each.register (new _)

theorem editBlock_each (id : BlockId) {change : Block → Block}
    (kept : ∀ block, okBlock block → okBlock (change block)) :
    Preserves (Each okBlock okData) (editBlock id change) := by
  intro g each
  unfold Ensures
  rw [editBlock_apply]
  cases g.owned id with
  | ok block => exact each.adjust id kept
  | error fault => exact each

theorem removeBlock_each (id : BlockId) (g : Graph) (each : g.Each okBlock okData) :
    Ensures (removeBlock id) g (fun block after => okBlock block ∧ after.Each okBlock okData)
      (fun _ after => after.Each okBlock okData) := by
  unfold Ensures
  rw [removeBlock_apply]
  cases found : g.owned id with
  | ok block => exact ⟨each.blocks block (mem_blocks_of_owned found), each.without id block.label⟩
  | error fault => exact each

theorem setEntry_each (id : BlockId) : Preserves (Each okBlock okData) (setEntry id) := by
  intro g each
  unfold Ensures
  rw [setEntry_apply]
  cases g.owned id with
  | ok block => exact ⟨each.blocks, each.edges⟩
  | error fault => exact each

theorem setExit_each (id : BlockId) : Preserves (Each okBlock okData) (setExit id) := by
  intro g each
  unfold Ensures
  rw [setExit_apply]
  cases g.owned id with
  | ok block => exact ⟨each.blocks, each.edges⟩
  | error fault => exact each

theorem insertEdge_each {edge : Edge}
    (allowed : ∀ operand, edge.data = some operand → okData operand) :
    Preserves (Each okBlock okData) (insertEdge edge) := by
  intro g each
  unfold Ensures
  rw [insertEdge_apply]
  cases g.owned edge.source with
  | error fault => exact each
  | ok _ =>
      cases g.owned edge.destination with
      | error fault => exact each
      | ok _ =>
          dsimp only
          by_cases known : g.hasLink edge.link
          · rw [if_pos known]
            exact each
          · rw [if_neg known]
            apply each.withEdges
            intro other member
            rcases List.mem_append.mp member with old | new
            · exact each.edges other old
            · exact List.mem_singleton.mp new ▸ allowed

theorem insertEdges_each {edges : List Edge}
    (allowed : ∀ edge ∈ edges, ∀ operand, edge.data = some operand → okData operand) :
    Preserves (Each okBlock okData) (insertEdges edges) := by
  induction edges with
  | nil => exact Preserves.of_pure 0
  | cons edge rest ih =>
      apply (insertEdge_each (allowed edge List.mem_cons_self)).bind
      intro added
      exact (ih fun other member => allowed other (List.mem_cons_of_mem _ member)).bind
        fun more => Preserves.of_pure _

theorem removeEdge_each (link : Link) : Preserves (Each okBlock okData) (removeEdge link) :=
  fun _ each => each.filterEdges _

theorem removeEdgesBetween_each (source destination : BlockId) :
    Preserves (Each okBlock okData) (removeEdgesBetween source destination) :=
  fun _ each => each.filterEdges _

theorem retarget_each (source target : BlockId) :
    Preserves (Each okBlock okData) (retarget source target) := by
  intro g each
  unfold retarget
  apply ensures_require_bind (fun _ _ => each)
  intro _ _
  apply ensures_require_bind (fun _ _ => each)
  intro _ _
  apply Ensures.get_bind
  apply Ensures.set_bind
  apply insertEdges_each _ _ (each.filterEdges _)
  intro edge member
  rcases List.mem_map.mp member with ⟨old, leaving, rfl⟩
  exact each.edges old (List.mem_filter.mp leaving).1

theorem pruned_each (kept : ∀ block, okBlock block → okBlock (block.mark false)) :
    Preserves (Each okBlock okData) pruned :=
  fun _ each => each.prune kept

/-! Cutting and joining blocks moves instructions from one block to another, so that these edits are
described only for conditions on what is referred to. -/

theorem split_within (id : BlockId) (point : Instr) (label : Label) (placement : Placement) :
    Preserves (Within ok) (split id point label placement) := by
  intro g within
  unfold split
  apply ensures_require_bind (fun _ _ => within)
  intro block found
  have parts := (within.blocks block (mem_blocks_of_owned found)).splitOff point placement
  apply (createBlock_each (fun _ => Block.within_of_empty) label g within).bind
  intro tailId _ within
  apply (editBlock_each id (fun _ _ => parts.1) _ within).bind
  intro _ _ within
  apply (editBlock_each tailId (fun _ _ => Block.Within.withInstrs parts.2) _ within).bind
  intro _ _ within
  exact within

theorem merge_within (into donor : BlockId) : Preserves (Within ok) (merge into donor) := by
  intro g within
  unfold merge
  apply ensures_require_bind (fun _ _ => within)
  intro _ _
  apply ensures_require_bind (fun _ _ => within)
  intro _ _
  dsimp only
  split
  · exact Ensures.throw_bind within
  apply Ensures.get_bind
  split
  · exact Ensures.throw_bind within
  have moved : ∀ edge ∈ ((g.outgoing donor).filter (·.destination ≠ donor)).map (·.leaving into),
      ∀ operand, edge.data = some operand → ok operand := by
    intro edge member
    rcases List.mem_map.mp member with ⟨old, leaving, rfl⟩
    exact within.edges old (List.mem_filter.mp (List.mem_filter.mp leaving).1).1
  apply (removeBlock_each donor g within).bind
  rintro food _ ⟨foodWithin, within⟩
  apply (editBlock_each into (fun _ held => held.swallow foodWithin) _ within).bind
  intro _ _ within
  apply (insertEdges_each moved _ within).bind
  intro _ _ within
  exact within

end Graph

end FlowIR
