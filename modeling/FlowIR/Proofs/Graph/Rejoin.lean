import FlowIR.Proofs.Graph.Rewire

/-!
# Merging undoes splitting

Merging the two halves of a block that was split gives back the graph, with nothing changed but the
counter of indices.  In between, the edges of the block may have been moved to the second half and
the halves linked, as inlining does; the edges of the block then end up behind all others.
-/

namespace FlowIR

/-! ## Where a sequence is cut -/

/-- A sequence falls into head and tail at the first occurrence of `point`, or has an empty
tail when there is none. -/
inductive CutsAt (point : Instr) : Placement → (instrs head tail : List Instr) → Prop where
  | opensTail {pre post : List Instr} (first : point ∉ pre) :
      CutsAt point .opensTail (pre ++ point :: post) pre (point :: post)
  | closesHead {pre post : List Instr} (first : point ∉ pre) :
      CutsAt point .closesHead (pre ++ point :: post) (pre ++ [point]) post
  | absent {placement : Placement} {instrs : List Instr} (absent : point ∉ instrs) :
      CutsAt point placement instrs instrs []

/-- Head and tail make up the whole sequence. -/
theorem CutsAt.append_eq {point : Instr} {placement : Placement} {instrs head tail : List Instr}
    (cuts : CutsAt point placement instrs head tail) : head ++ tail = instrs := by
  cases cuts <;> simp

/-- A block is split off where its sequence is cut. -/
theorem Block.exists_cutsAt (block : Block) (point : Instr) (placement : Placement) :
    ∃ head tail, CutsAt point placement block.instrs head tail ∧
      (block.splitOff point placement).1 = block.withInstrs head ∧
      (block.splitOff point placement).2.getD [] = tail := by
  by_cases occurs : point ∈ block.instrs
  · rcases List.eq_append_cons_of_mem occurs with ⟨pre, post, parts, first⟩
    have cutEq : block.splitOff point placement =
        (block.withInstrs (placement.halves pre point post).1,
          some (placement.halves pre point post).2) := by
      rw [splitOff, parts, cut_eq_halves first]
    rw [cutEq, parts]
    cases placement with
    | opensTail => exact ⟨pre, point :: post, .opensTail first, rfl, rfl⟩
    | closesHead => exact ⟨pre ++ [point], post, .closesHead first, rfl, rfl⟩
  · have uncut : cut point placement block.instrs = none := by
      rw [← Option.not_isSome_iff_eq_none, isSome_cut_iff]
      exact occurs
    have whole : block.splitOff point placement = (block, none) := by
      rw [splitOff, uncut]
    rw [whole]
    exact ⟨block.instrs, [], .absent occurs, rfl, rfl⟩

namespace Graph

variable {g : Graph}

/-! ## Undoing a change -/

/-- Changing a block twice is changing it once. -/
theorem adjust_adjust (id : BlockId) (first second : Block → Block) :
    (g.adjust id first).adjust id second = g.adjust id (second ∘ first) := by
  simp only [adjust, List.map_map]
  congr 1
  apply List.map_congr_left
  intro slot _
  by_cases here : slot.1 = id.index <;> simp [here]

/-- Replacing a block by itself changes nothing. -/
theorem WellFormed.adjust_eq_self (wf : g.WellFormed) {id : BlockId} {held : Block}
    (found : g.owned id = .ok held) {change : Block → Block} (same : change held = held) :
    g.adjust id change = g := by
  have changed : g.adjust id change = g.adjust id fun block => block :=
    wf.adjust_congr found same
  rw [changed]
  simp [Graph.adjust]

/-- The next id is at no end of an edge. -/
theorem WellFormed.ends_ne_freshId (wf : g.WellFormed) {edge : Edge} (member : edge ∈ g.edges) :
    edge.source ≠ g.freshId ∧ edge.destination ≠ g.freshId :=
  ⟨wf.ne_freshId (wf.linked edge member).1, wf.ne_freshId (wf.linked edge member).2⟩

theorem WellFormed.touches_freshId (wf : g.WellFormed) {edge : Edge} (member : edge ∈ g.edges) :
    edge.touches g.freshId = false := by
  simp [Edge.touches, wf.ends_ne_freshId member]

/-- Taking out the block that was added last leaves the graph as before, but for the counter and for
the edges that were added since. -/
theorem WellFormed.without_register (wf : g.WellFormed) (block : Block)
    (free : g.binds block.label = false) (edges : List Edge) :
    { g.register block with edges := edges }.without g.freshId block.label =
      { g with
        nextIndex := g.nextIndex + 1
        edges := edges.filter fun edge => !edge.touches g.freshId } := by
  have slots : (g.arena ++ [(g.nextIndex, { block with id := g.freshId })]).filter
      (·.1 ≠ g.freshId.index) = g.arena := by
    rw [List.filter_append, List.filter_eq_self.mpr, List.filter_cons_of_neg, List.filter_nil,
      List.append_nil]
    · simp [freshId]
    · rintro ⟨index, held⟩ slot
      exact decide_eq_true (Nat.ne_of_lt (wf.slots index held slot).2)
  have labels : (g.labels ++ [(block.label, g.freshId)]).filter (·.1 ≠ block.label) = g.labels := by
    have absent : ∀ pair ∈ g.labels, pair.1 ≠ block.label :=
      Table.find?_eq_none_iff.mp (by simpa [binds, byLabel?] using free)
    rw [List.filter_append, List.filter_eq_self.mpr, List.filter_cons_of_neg, List.filter_nil,
      List.append_nil]
    · simp
    · exact fun pair listed => decide_eq_true (absent pair listed)
  have role : ∀ {role : Option BlockId}, (∀ id, role = some id → g.Owns id) →
      role.filter (· ≠ g.freshId) = role := by
    rintro (_ | id) owned
    · rfl
    · simp [Option.filter, wf.ne_freshId (owned id rfl)]
  simp only [Graph.without, Graph.register, slots, labels, role wf.entry_owned, role wf.exit_owned]

/-! ## Splitting and merging again -/

section Rejoin

variable {id : BlockId} {held : Block} {label : Label} {head tail : List Instr}

/-- The graph in which a block keeps `head` and a new block under `label` holds `tail`. -/
def halved (g : Graph) (id : BlockId) (held : Block) (label : Label)
    (head tail : List Instr) : Graph :=
  (g.adjust id fun _ => held.withInstrs head).register
    { id := g.freshId, label := label, instrs := tail }

theorem WellFormed.shrunk (wf : g.WellFormed) (found : g.owned id = .ok held) (head : List Instr) :
    (g.adjust id fun _ => held.withInstrs head).WellFormed := by
  apply wf.adjust _ ⟨held, found⟩
  intro block blockFound
  rw [found] at blockFound
  obtain rfl := Except.ok.inj blockFound
  exact ⟨rfl, rfl⟩

theorem halved_wellFormed (wf : g.WellFormed) (found : g.owned id = .ok held)
    (free : g.binds label = false) : (g.halved id held label head tail).WellFormed :=
  (wf.shrunk found head).register free

theorem owned_halved_head (found : g.owned id = .ok held) (label : Label) (head tail : List Instr) :
    (g.halved id held label head tail).owned id = .ok (held.withInstrs head) := by
  apply owned_register_of_owned
  rw [owned_adjust_of_owns ⟨held, found⟩, if_pos rfl, found]
  rfl

theorem WellFormed.owned_halved_tail (wf : g.WellFormed) (found : g.owned id = .ok held)
    (label : Label) (head tail : List Instr) :
    (g.halved id held label head tail).owned g.freshId =
      .ok { id := g.freshId, label := label, instrs := tail } :=
  (wf.shrunk found head).owned_register_freshId _

/-- When the block swallows its other half again, the graph is as before, but for the counter and
for the edges that were changed since. -/
theorem WellFormed.swallowing_halved (wf : g.WellFormed) (found : g.owned id = .ok held)
    (free : g.binds label = false) (halves : head ++ tail = held.instrs) (edges : List Edge) :
    { g.halved id held label head tail with edges := edges }.swallowing id g.freshId
        { id := g.freshId, label := label, instrs := tail } =
      { g with
        nextIndex := g.nextIndex + 1
        edges := edges.filter fun edge => !edge.touches g.freshId } := by
  have removed := (wf.shrunk found head).without_register
    { id := g.freshId, label := label, instrs := tail } free edges
  have whole : (held.withInstrs head).swallow { id := g.freshId, label := label, instrs := tail } =
      held := by
    simp only [Block.swallow, Block.withInstrs, halves]
  have restored : (g.adjust id fun _ => held.withInstrs head).adjust id
      (·.swallow { id := g.freshId, label := label, instrs := tail }) = g := by
    rw [adjust_adjust]
    exact wf.adjust_eq_self found whole
  have arena := congrArg Graph.arena restored
  rw [freshId_adjust] at removed
  rw [swallowing, halved, removed]
  exact congrArg (fun slots => ({ g with
    nextIndex := g.nextIndex + 1
    arena := slots
    edges := edges.filter fun edge => !edge.touches g.freshId } : Graph)) arena

/-- Merging the halves puts the edges of the new block behind the others. -/
theorem WellFormed.merge_halved (wf : g.WellFormed) (found : g.owned id = .ok held)
    (free : g.binds label = false) (halves : head ++ tail = held.instrs) (edges : List Edge)
    {kept handed : List Edge}
    (edgesWf : { g.halved id held label head tail with edges := edges }.WellFormed)
    (sole : ∀ edge ∈ edges, edge.destination = g.freshId → edge.source = id)
    (keptEq : edges.filter (fun edge => !edge.touches g.freshId) = kept)
    (handedEq : ((edges.filter (·.source = g.freshId)).filter (·.destination ≠ g.freshId)).map
      (·.leaving id) = handed)
    (new : ∀ edge ∈ handed, edge.link ∉ kept.map Edge.link) :
    merge id g.freshId { g.halved id held label head tail with edges := edges } =
      .ok () { g with nextIndex := g.nextIndex + 1, edges := kept ++ handed } := by
  let linked : Graph := { g.halved id held label head tail with edges := edges }
  have apart : id ≠ g.freshId := wf.ne_freshId ⟨held, found⟩
  have headOwned : linked.Owns id := ⟨_, owned_halved_head found label head tail⟩
  have tailOwned : linked.owned g.freshId =
      .ok { id := g.freshId, label := label, instrs := tail } :=
    wf.owned_halved_tail found label head tail
  have swallowed := wf.swallowing_halved found free halves edges
  rw [keptEq] at swallowed
  have handedOver : linked.handedOver id g.freshId = handed := handedEq
  have inserted := edgesWf.insertEdges_swallowing
    { id := g.freshId, label := label, instrs := tail } headOwned ⟨_, tailOwned⟩ apart
  have all : { g with nextIndex := g.nextIndex + 1, edges := kept }.lacking handed = handed := by
    apply lacking_eq_self
    intro edge member
    exact Bool.eq_false_iff.mpr fun known => new edge member (hasLink_iff.mp known)
  rw [swallowed, handedOver, all] at inserted
  rw [merge_eq_insertEdges headOwned tailOwned apart sole, handedOver, swallowed,
    bind_of_ok inserted]
  rfl

/-! Once the edges of the block have been moved to the new block and the halves are linked, the new
block has exactly those edges, and the edge between the halves is the only one that leads to it. -/

/-- The edges of a graph after those of a block were moved to the next block. -/
def edgesMoved (g : Graph) (id : BlockId) : List Edge :=
  g.edges.filter (·.source ≠ id) ++ (g.outgoing id).map (·.leaving g.freshId)

/-- These edges and one between the halves. -/
def edgesLinked (g : Graph) (id : BlockId) (kind : EdgeKind) (data : Option Operand) : List Edge :=
  g.edgesMoved id ++ [⟨id, g.freshId, kind, data⟩]

section Relinked

variable (wf : g.WellFormed) (kind : EdgeKind) (data : Option Operand)

include wf

theorem WellFormed.hasLink_moved (apart : id ≠ g.freshId) :
    { g.halved id held label head tail with edges := g.edgesMoved id }.hasLink
      ⟨id, g.freshId, kind⟩ = false := by
  apply Bool.eq_false_iff.mpr
  intro known
  rcases List.mem_map.mp (hasLink_iff.mp known) with ⟨edge, member, same⟩
  rcases List.mem_append.mp member with kept | moved
  · exact (wf.ends_ne_freshId (List.mem_filter.mp kept).1).2 (congrArg Link.destination same)
  · rcases List.mem_map.mp moved with ⟨old, -, rfl⟩
    exact apart (congrArg Link.source same).symm

theorem WellFormed.source_of_relinked :
    ∀ edge ∈ g.edgesLinked id kind data, edge.destination = g.freshId → edge.source = id := by
  intro edge member here
  rcases List.mem_append.mp member with old | last
  · rcases List.mem_append.mp old with kept | moved
    · exact absurd here (wf.ends_ne_freshId (List.mem_filter.mp kept).1).2
    · rcases List.mem_map.mp moved with ⟨edge, leaves, rfl⟩
      exact absurd here (wf.ends_ne_freshId (List.mem_filter.mp leaves).1).2
  · rw [List.mem_singleton.mp last]

theorem WellFormed.filter_relinked :
    (g.edgesLinked id kind data).filter (fun edge => !edge.touches g.freshId) =
      g.edges.filter (·.source ≠ id) := by
  have moved : ((g.outgoing id).map (·.leaving g.freshId)).filter
      (fun edge => !edge.touches g.freshId) = [] := by
    apply List.filter_eq_nil_iff.mpr
    intro edge member
    rcases List.mem_map.mp member with ⟨old, -, rfl⟩
    simp [Edge.touches, Edge.leaving]
  have kept : (g.edges.filter (·.source ≠ id)).filter (fun edge => !edge.touches g.freshId) =
      g.edges.filter (·.source ≠ id) := by
    apply List.filter_eq_self.mpr
    intro edge member
    rw [wf.touches_freshId (List.mem_filter.mp member).1]
    rfl
  rw [edgesLinked, edgesMoved, List.filter_append, List.filter_append, kept, moved, List.append_nil,
    List.filter_cons_of_neg (by simp [Edge.touches]), List.filter_nil, List.append_nil]

theorem WellFormed.handed_relinked (apart : id ≠ g.freshId) :
    (((g.edgesLinked id kind data).filter (·.source = g.freshId)).filter
      (·.destination ≠ g.freshId)).map (·.leaving id) = g.outgoing id := by
  have kept : (g.edges.filter (·.source ≠ id)).filter (·.source = g.freshId) = [] := by
    apply List.filter_eq_nil_iff.mpr
    intro edge member
    simpa using (wf.ends_ne_freshId (List.mem_filter.mp member).1).1
  have moved : ((g.outgoing id).map (·.leaving g.freshId)).filter (·.source = g.freshId) =
      (g.outgoing id).map (·.leaving g.freshId) := by
    apply List.filter_eq_self.mpr
    intro edge member
    rcases List.mem_map.mp member with ⟨old, -, rfl⟩
    exact decide_eq_true rfl
  have leaving : (g.edgesLinked id kind data).filter (·.source = g.freshId) =
      (g.outgoing id).map (·.leaving g.freshId) := by
    rw [edgesLinked, edgesMoved, List.filter_append, List.filter_append, kept, moved,
      List.nil_append, List.filter_cons_of_neg (by simpa using apart), List.filter_nil,
      List.append_nil]
  have elsewhere : ((g.outgoing id).map (·.leaving g.freshId)).filter (·.destination ≠ g.freshId) =
      (g.outgoing id).map (·.leaving g.freshId) := by
    apply List.filter_eq_self.mpr
    intro edge member
    rcases List.mem_map.mp member with ⟨old, leaves, rfl⟩
    exact decide_eq_true (wf.ends_ne_freshId (List.mem_filter.mp leaves).1).2
  rw [leaving, elsewhere, List.map_map]
  apply map_eq_self
  intro edge leaves
  have here : edge.source = id := of_decide_eq_true (List.mem_filter.mp leaves).2
  rw [← here]
  rfl

end Relinked

/-- Splitting leaves the two halves; merging them again gives back the graph.  If the edges of the
block are first moved to the new block and an edge is added between the halves, they are behind
all others afterwards. -/
structure Rejoins (g : Graph) (id : BlockId) (held : Block) (label : Label) (head tail : List Instr)
    (opened : Graph) : Prop where
  fresh : ¬ g.Owns g.freshId
  head_owned : opened.owned id = .ok (held.withInstrs head)
  tail_owned : opened.owned g.freshId = .ok { id := g.freshId, label := label, instrs := tail }
  merged : merge id g.freshId opened = .ok () { g with nextIndex := g.nextIndex + 1 }
  rewired : ∀ kind data, ∃ moved linked,
    retarget id g.freshId opened = .ok (g.outgoing id).length moved ∧
    insertEdge ⟨id, g.freshId, kind, data⟩ moved = .ok true linked ∧
    merge id g.freshId linked = .ok ()
      { g with
        nextIndex := g.nextIndex + 1
        edges := g.edges.filter (·.source ≠ id) ++ g.outgoing id }

/-- Splitting a block of a well-formed graph at any instruction, under any free label, puts the
halves of its sequence into the block and a new one, and merging them again undoes it. -/
theorem split_rejoins (wf : g.WellFormed) (found : g.owned id = .ok held)
    (free : g.binds label = false) (point : Instr) (placement : Placement) :
    ∃ head tail opened, CutsAt point placement held.instrs head tail ∧ head ++ tail = held.instrs ∧
      split id point label placement g = .ok g.freshId opened ∧
      g.Rejoins id held label head tail opened := by
  rcases held.exists_cutsAt point placement with ⟨head, tail, cuts, headEq, tailEq⟩
  have halves : head ++ tail = held.instrs := cuts.append_eq
  have opens : split id point label placement g =
      .ok g.freshId (g.halved id held label head tail) := by
    rw [wf.split_eq_ok found free, headEq, tailEq]
    rfl
  have openedWf : (g.halved id held label head tail).WellFormed := halved_wellFormed wf found free
  have apart : id ≠ g.freshId := wf.ne_freshId ⟨held, found⟩
  have headOwned := owned_halved_head found label head tail
  have tailOwned := wf.owned_halved_tail found label head tail
  have untouched : ∀ edge ∈ g.edges, edge.source ≠ g.freshId ∧ edge.destination ≠ g.freshId :=
    fun edge member => wf.ends_ne_freshId member
  have idle : g.edges.filter (·.source = g.freshId) = [] :=
    List.filter_eq_nil_iff.mpr fun edge member => by simpa using (untouched edge member).1
  refine ⟨head, tail, _, cuts, halves, opens, ?_⟩
  constructor
  case fresh => exact fun owns => wf.ne_freshId owns rfl
  case head_owned => exact headOwned
  case tail_owned => exact tailOwned
  case merged =>
    have kept : g.edges.filter (fun edge => !edge.touches g.freshId) = g.edges := by
      apply List.filter_eq_self.mpr
      intro edge member
      rw [wf.touches_freshId member]
      rfl
    have handed : ((g.edges.filter (·.source = g.freshId)).filter (·.destination ≠ g.freshId)).map
        (·.leaving id) = [] := by
      rw [idle]
      rfl
    have merged := wf.merge_halved found free halves g.edges openedWf
      (fun edge member here => absurd here (untouched edge member).2) kept handed nofun
    rw [List.append_nil] at merged
    exact merged
  case rewired =>
    intro kind data
    have moves := openedWf.retarget_eq_ok ⟨_, headOwned⟩ ⟨_, tailOwned⟩
      fun edge member => (untouched edge member).1
    have movedWf := (wellFormed_lasting.retarget _ _ _ openedWf).of_ok moves
    have added : insertEdge ⟨id, g.freshId, kind, data⟩
        { g.halved id held label head tail with edges := g.edgesMoved id } =
          .ok true { g.halved id held label head tail with edges := g.edgesLinked id kind data } :=
      insertEdge_eq_ok ⟨_, headOwned⟩ ⟨_, tailOwned⟩ (wf.hasLink_moved kind apart)
    have linkedWf := (insertEdge_preserves _ _ movedWf).of_ok added
    refine ⟨_, _, moves, added, ?_⟩
    apply wf.merge_halved found free halves (g.edgesLinked id kind data) linkedWf
    · exact wf.source_of_relinked kind data
    · exact wf.filter_relinked kind data
    · exact wf.handed_relinked kind data apart
    · intro edge leaves known
      rcases List.mem_map.mp known with ⟨kept, keptEdge, same⟩
      have elsewhere : kept.source ≠ id := of_decide_eq_true (List.mem_filter.mp keptEdge).2
      have here : edge.source = id := of_decide_eq_true (List.mem_filter.mp leaves).2
      exact elsewhere ((congrArg Link.source same).trans here)

end Rejoin

/-- The block in which `loopGraph` is split. -/
def loopBlock : Block where
  id := ⟨0, 0⟩
  label := ⟨"loop"⟩
  instrs := [.receiveSelf (.temporary 0), .nop, .copy (.temporary 1) (.var (.temporary 0)), .nop]

/-- A graph whose entry and exit has an edge to itself and two edges to a dead
block, which leads back. -/
def loopGraph : Graph :=
  { ({ id := 0 } : Graph).registerAll
      [loopBlock, { id := ⟨0, 1⟩, label := ⟨"handler"⟩, live := false }] with
    edges :=
      [⟨⟨0, 0⟩, ⟨0, 0⟩, .exception, some (.var (.temporary 1))⟩,
       ⟨⟨0, 1⟩, ⟨0, 0⟩, .fallThrough, none⟩,
       ⟨⟨0, 0⟩, ⟨0, 1⟩, .regular, none⟩,
       ⟨⟨0, 0⟩, ⟨0, 1⟩, .exception, none⟩]
    entry := some ⟨0, 0⟩
    exit := some ⟨0, 0⟩ }

theorem split_rejoins_sample :
    loopGraph.WellFormed ∧ loopGraph.owned ⟨0, 0⟩ = .ok loopBlock ∧
      loopGraph.binds ⟨"tail"⟩ = false ∧
      ∃ head tail opened, CutsAt .nop .closesHead loopBlock.instrs head tail ∧
        head ++ tail = loopBlock.instrs ∧
        split ⟨0, 0⟩ .nop ⟨"tail"⟩ .closesHead loopGraph = .ok loopGraph.freshId opened ∧
        loopGraph.Rejoins ⟨0, 0⟩ loopBlock ⟨"tail"⟩ head tail opened := by
  have wf : loopGraph.WellFormed := by decide +kernel
  have found : loopGraph.owned ⟨0, 0⟩ = .ok loopBlock := by rfl
  have free : loopGraph.binds ⟨"tail"⟩ = false := by decide +kernel
  exact ⟨wf, found, free, split_rejoins wf found free .nop .closesHead⟩

end Graph

end FlowIR
