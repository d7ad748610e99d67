import FlowIR.Proofs.Inlining.Splice

/-!
# What splicing leaves where

The graph after a body was spliced in, block by block: the block that was opened jumps into the
body, the continuation holds what followed the site, the images of the body stand under the ids in
between, and all other blocks are as they were.  Pruning may only mark blocks as dead.
-/

namespace FlowIR.Inlining

open FlowIR.Graph

/-! ## Pruning by a policy -/

/-- The block stays live when the policy prunes the graph. -/
def keeps (policy : Policy) (g : Graph) (id : BlockId) : Bool :=
  !policy.prune || (g.entry.isNone || decide (id ∈ g.reachable))

section Prune

variable {policy : Policy} {g : Graph}

theorem owned_prunedBy (wf : g.WellFormed) (id : BlockId) :
    (prunedBy policy g).owned id =
      (g.owned id).map fun held => held.mark (held.live && keeps policy g id) := by
  unfold prunedBy keeps
  cases policy.prune with
  | true =>
      rw [if_pos rfl, wf.owned_prune]
      rfl
  | false =>
      rw [if_neg Bool.false_ne_true]
      cases g.owned id <;> simp [Except.map, Block.mark]

theorem mem_liveIds_prunedBy_iff (wf : g.WellFormed) {id : BlockId} :
    id ∈ (prunedBy policy g).liveIds ↔ id ∈ g.liveIds ∧ keeps policy g id = true := by
  rw [(prunedBy_wellFormed policy wf).mem_liveIds_iff, wf.mem_liveIds_iff, owned_prunedBy wf]
  cases g.owned id <;> simp [Except.map, Block.mark]

/-- Without pruning, or without an entry to prune from, liveness stays. -/
theorem mem_liveIds_prunedBy_of_unpruned (wf : g.WellFormed)
    (unpruned : policy.prune = false ∨ g.entry = none) {id : BlockId} :
    id ∈ (prunedBy policy g).liveIds ↔ id ∈ g.liveIds := by
  rw [mem_liveIds_prunedBy_iff wf]
  rcases unpruned with off | absent <;> simp [keeps, *]

/-- A policy that prunes keeps exactly what can be reached from the entry. -/
theorem mem_liveIds_prunedBy_of_prune (wf : g.WellFormed) (prunes : policy.prune = true)
    (bounded : g.entry ≠ none) {id : BlockId} :
    id ∈ (prunedBy policy g).liveIds ↔ g.Reaches id := by
  rw [mem_liveIds_prunedBy_iff wf, ← mem_reachable_iff]
  simp only [keeps, prunes, Option.isNone_eq_false_iff.mpr (Option.ne_none_iff_isSome.mp bounded),
    Bool.not_true, Bool.false_or, decide_eq_true_eq, and_iff_right_iff_imp]
  exact fun reachable => (mem_reachable_iff.mp reachable).live

theorem prunedBy_edges : (prunedBy policy g).edges = g.edges := by
  unfold prunedBy
  split
  · exact g.prune_fields.2.2.2.1
  · rfl

theorem prunedBy_entry : (prunedBy policy g).entry = g.entry := by
  unfold prunedBy
  split
  · exact g.prune_fields.2.2.2.2.1
  · rfl

theorem prunedBy_exit : (prunedBy policy g).exit = g.exit := by
  unfold prunedBy
  split
  · exact g.prune_fields.2.2.2.2.2
  · rfl

end Prune

/-! ## Looking up blocks -/

namespace CarriedBody

variable {base : Host} {setting : Setting} {rule : Rule} {log : Bool} {body : Graph} {pass : Pass}
  {σ : Substitution}

/-- The live blocks have become the blocks under the next ids. -/
theorem map_block_liveIds (carried : CarriedBody base setting rule log body pass)
    (agrees : pass.Agrees σ) :
    body.liveIds.map σ.block = (List.range body.liveBlocks.length).map base.scope.graph.idAt := by
  have sameLength : body.liveIds.length = body.liveBlocks.length := List.length_map _
  apply List.ext_getElem?
  intro i
  rw [List.getElem?_map, List.getElem?_map]
  cases at_i : body.liveIds[i]? with
  | none =>
      have above := List.getElem?_eq_none_iff.mp at_i
      rw [List.getElem?_eq_none (by rw [List.length_range, ← sameLength]; exact above)]
      rfl
  | some id =>
      rcases List.getElem?_eq_some_iff.mp at_i with ⟨below, -⟩
      rw [List.getElem?_range (sameLength ▸ below)]
      exact congrArg some (agrees.block id _ (carried.carried i id at_i))

/-- The image of a block stands under the id that the block has become. -/
theorem id_eq_idAt (carried : CarriedBody base setting rule log body pass) (agrees : pass.Agrees σ)
    {i : Nat} {image : Block}
    (at_i : (rule.blocks σ base.nextLiteral body.liveBlocks).1[i]? = some image) :
    image.id = base.scope.graph.idAt i := by
  rcases List.getElem?_eq_some_iff.mp at_i with ⟨below, -⟩
  rw [Rule.length_blocks] at below
  have ids : (rule.blocks σ base.nextLiteral body.liveBlocks).1.map (·.id) =
      (List.range body.liveBlocks.length).map base.scope.graph.idAt := by
    rw [Rule.map_id_blocks, ← carried.map_block_liveIds agrees, liveIds, List.map_map]
    rfl
  have same := congrArg (·[i]?) ids
  simp only [List.getElem?_map, at_i, List.getElem?_range below, Option.map_some,
    Option.some.injEq] at same
  exact same

/-- The image of a live block is a block of the graph. -/
theorem owned_image (carried : CarriedBody base setting rule log body pass)
    (wf : base.scope.graph.WellFormed) (bodyWf : body.WellFormed) (agrees : pass.Agrees σ)
    {image : Block} (member : image ∈ (rule.blocks σ base.nextLiteral body.liveBlocks).1) :
    pass.graph.owned image.id = .ok image := by
  rcases List.mem_iff_getElem?.mp member with ⟨i, at_i⟩
  have found := carried.owned_idAt wf bodyWf agrees at_i
  rw [← carried.id_eq_idAt agrees at_i] at found
  exact found

/-- A block of the graph is one of the host or the image of a live block. -/
theorem owned_cases (carried : CarriedBody base setting rule log body pass) (agrees : pass.Agrees σ)
    {id : BlockId} {held : Block} (found : pass.graph.owned id = .ok held) :
    base.scope.graph.owned id = .ok held ∨
      held ∈ (rule.blocks σ base.nextLiteral body.liveBlocks).1 ∧ held.id = id := by
  rw [(carried.image σ agrees).1, owned_withEdges] at found
  rcases owned_registerAll_cases found with old | ⟨i, image, at_i, rfl, rfl⟩
  · exact .inl old
  · right
    rw [← carried.id_eq_idAt agrees at_i]
    exact ⟨List.mem_iff_getElem?.mpr ⟨i, at_i⟩, rfl⟩

end CarriedBody

namespace Splicing

variable {policy : Policy} {host : Host} {setting : Setting} {rule : Rule} {log : Bool}
  {body : Graph} {block : BlockId} {site : Instr} {report : Report} {after : Host}
  {σ : Substitution}
  (splicing : Splicing host policy setting rule log body block site report after)

include splicing

/-- Pruning the spliced graph changes nothing but liveness. -/
theorem owned_after (wf : host.scope.graph.WellFormed) (bodyWf : body.WellFormed) (id : BlockId) :
    after.scope.graph.owned id = (splicing.graph.owned id).map fun held =>
      held.mark (held.live && keeps policy splicing.graph id) := by
  rw [splicing.graph_eq]
  exact owned_prunedBy (splicing.graph_wellFormed wf bodyWf) id

/-- The label of the continuation is the fresh label that the host was opened under. -/
def continuationLabel
    (_ : Splicing host policy setting rule log body block site report after) : Label :=
  .numbered host.scope.labelNumber

theorem owned_opened (wf : host.scope.graph.WellFormed) (id : BlockId) :
    splicing.opened.owned id =
      if id = report.continuation then
        .ok { id := report.continuation, label := splicing.continuationLabel,
              instrs := splicing.post }
      else if id = block then (host.scope.graph.owned id).map (·.withInstrs splicing.pre)
      else host.scope.graph.owned id := by
  rw [splicing.continuation_eq]
  exact wf.owned_opened _ _ _ (.of_owned splicing.found) id

/-- The ids after that of the continuation. -/
theorem idAt_opened (i : Nat) : splicing.opened.idAt i = host.scope.graph.idAt (i + 1) :=
  idAt_register (g := host.scope.graph.adjust block (·.withInstrs splicing.pre))
    { id := host.scope.graph.freshId, label := splicing.continuationLabel, instrs := splicing.post }
    i

theorem block_ne_continuation (wf : host.scope.graph.WellFormed) : block ≠ report.continuation := by
  rw [splicing.continuation_eq]
  exact wf.ne_freshId (.of_owned splicing.found)

/-- What was opened is not the exit of the body. -/
theorem ne_exit (wf : host.scope.graph.WellFormed) {id : BlockId} (owns : splicing.opened.Owns id) :
    id ≠ report.exit := by
  rintro rfl
  rw [splicing.exit_eq] at owns
  exact (splicing.opened_wellFormed wf).not_owns_idAt _ owns

/-- The block that was opened, in the host as opened. -/
theorem site_opened (wf : host.scope.graph.WellFormed) :
    splicing.opened.owned block = .ok (splicing.held.withInstrs splicing.pre) := by
  rw [splicing.owned_opened wf, if_neg (splicing.block_ne_continuation wf), if_pos rfl,
    splicing.found]
  rfl

theorem continuation_opened (wf : host.scope.graph.WellFormed) :
    splicing.opened.owned report.continuation = .ok
      { id := report.continuation, label := splicing.continuationLabel,
        instrs := splicing.post } := by
  rw [splicing.owned_opened wf, if_pos rfl]

theorem other_opened (wf : host.scope.graph.WellFormed) {id : BlockId} {held : Block}
    (found : host.scope.graph.owned id = .ok held) (other : id ≠ block) :
    splicing.opened.owned id = .ok held := by
  have old : id ≠ report.continuation := by
    rw [splicing.continuation_eq]
    exact wf.ne_freshId (.of_owned found)
  rw [splicing.owned_opened wf, if_neg old, if_neg other, found]

/-- Linking adds a jump to the block that was opened and one to the exit of the body. -/
theorem owned_graph (wf : host.scope.graph.WellFormed) (bodyWf : body.WellFormed) (id : BlockId) :
    splicing.graph.owned id = (splicing.pass.graph.owned id).map fun held =>
      held.withInstrs (held.instrs ++
        ((if id = block then [.jump splicing.entryBlock.label] else []) ++
          if id = report.exit then [.jump splicing.continuationLabel] else [])) := by
  have siteOwned : splicing.pass.graph.Owns block :=
    .of_owned (splicing.carried.owned_of_owned (splicing.site_opened wf))
  have exitOwned : splicing.pass.graph.Owns report.exit := by
    rw [splicing.exit_eq]
    exact splicing.carried.owns_idAt (splicing.opened_wellFormed wf) bodyWf splicing.exitPlace_lt
  exact Graph.owned_linked _ _ siteOwned exitOwned _ _ _

/-- The block that was opened keeps what preceded the site and jumps into the body. -/
theorem site_spliced (wf : host.scope.graph.WellFormed) (bodyWf : body.WellFormed) :
    splicing.graph.owned block = .ok
      (splicing.held.withInstrs (splicing.pre ++ [.jump splicing.entryBlock.label])) := by
  have opened := splicing.site_opened wf
  have found := splicing.carried.owned_of_owned opened
  rw [splicing.owned_graph wf bodyWf, found, if_pos rfl,
    if_neg (splicing.ne_exit wf (.of_owned opened))]
  rfl

/-- The continuation holds what followed the site. -/
theorem continuation_spliced (wf : host.scope.graph.WellFormed) (bodyWf : body.WellFormed) :
    splicing.graph.owned report.continuation = .ok
      { id := report.continuation, label := splicing.continuationLabel,
        instrs := splicing.post } := by
  have opened := splicing.continuation_opened wf
  have found := splicing.carried.owned_of_owned opened
  rw [splicing.owned_graph wf bodyWf, found, if_neg (splicing.block_ne_continuation wf).symm,
    if_neg (splicing.ne_exit wf (.of_owned opened))]
  simp [Except.map, Block.withInstrs]

/-- The other blocks of the host are as they were. -/
theorem other_spliced (wf : host.scope.graph.WellFormed) (bodyWf : body.WellFormed) {id : BlockId}
    {held : Block} (found : host.scope.graph.owned id = .ok held) (other : id ≠ block) :
    splicing.graph.owned id = .ok held := by
  have opened := splicing.other_opened wf found other
  have kept := splicing.carried.owned_of_owned opened
  rw [splicing.owned_graph wf bodyWf, kept, if_neg other,
    if_neg (splicing.ne_exit wf (.of_owned opened))]
  simp [Except.map, Block.withInstrs]

/-- The images of the live blocks are blocks of the graph, and the exit
jumps to the continuation. -/
theorem image_spliced (wf : host.scope.graph.WellFormed) (bodyWf : body.WellFormed)
    (agrees : splicing.pass.Agrees σ) {image : Block}
    (member : image ∈ (rule.blocks σ host.nextLiteral body.liveBlocks).1) :
    splicing.graph.owned image.id = .ok (image.withInstrs (image.instrs ++
      if image.id = report.exit then [.jump splicing.continuationLabel] else [])) := by
  have openedWf := splicing.opened_wellFormed wf
  rcases List.mem_iff_getElem?.mp member with ⟨i, at_i⟩
  have different : image.id ≠ block := by
    intro same
    have owns : splicing.opened.Owns image.id := by
      rw [same]
      exact .of_owned (splicing.site_opened wf)
    rw [splicing.carried.id_eq_idAt agrees at_i] at owns
    exact openedWf.not_owns_idAt i owns
  have found := splicing.carried.owned_image openedWf bodyWf agrees member
  rw [splicing.owned_graph wf bodyWf, found, if_neg different]
  rfl

/-- The continuation in the host as pruned. -/
theorem continuation_found (wf : host.scope.graph.WellFormed) (bodyWf : body.WellFormed) :
    after.scope.graph.owned report.continuation = .ok
      { id := report.continuation, label := splicing.continuationLabel, instrs := splicing.post
        live := keeps policy splicing.graph report.continuation } := by
  rw [splicing.owned_after wf bodyWf, splicing.continuation_spliced wf bodyWf]
  simp [Except.map, Block.mark]

/-- What the graph holds after linking. -/
theorem spliced_cases (wf : host.scope.graph.WellFormed) (bodyWf : body.WellFormed)
    (agrees : splicing.pass.Agrees σ) {id : BlockId} (owns : splicing.graph.Owns id) :
    id = block ∨ id = report.continuation ∨
      (id ≠ block ∧ host.scope.graph.Owns id) ∨
      ∃ image ∈ (rule.blocks σ host.nextLiteral body.liveBlocks).1, image.id = id := by
  have carriedOver : splicing.pass.graph.Owns id := by
    rcases owns with ⟨held, found⟩
    rw [splicing.owned_graph wf bodyWf] at found
    cases known : splicing.pass.graph.owned id with
    | ok before => exact .of_owned known
    | error fault =>
        rw [known] at found
        contradiction
  rcases carriedOver with ⟨held, found⟩
  rcases splicing.carried.owned_cases agrees found with opened | ⟨member, same⟩
  · by_cases atSite : id = block
    · exact .inl atSite
    · by_cases atContinuation : id = report.continuation
      · exact .inr (.inl atContinuation)
      · have old : splicing.opened.owned id = .ok held := opened
        rw [splicing.owned_opened wf, if_neg atContinuation, if_neg atSite] at old
        exact .inr (.inr (.inl ⟨atSite, held, old⟩))
  · exact .inr (.inr (.inr ⟨held, member, same⟩))

/-! ### Edges and roles -/

/-- The edges after linking, in order. -/
theorem edges_eq (agrees : splicing.pass.Agrees σ) :
    splicing.graph.edges =
      host.scope.graph.edges.filter (·.source ≠ block) ++
        (host.scope.graph.outgoing block).map (·.leaving report.continuation) ++
        edgeImages σ body ++
        [⟨block, report.entry, .regular, none⟩,
         ⟨report.exit, report.continuation, .regular, none⟩] := by
  have carriedEdges : splicing.pass.graph.edges = splicing.opened.edges ++ edgeImages σ body :=
    splicing.carried.edges_eq agrees
  have openedEdges : splicing.opened.edges = host.scope.graph.edges.filter (·.source ≠ block) ++
      (host.scope.graph.outgoing block).map (·.leaving report.continuation) := by
    rw [splicing.continuation_eq]
    rfl
  rw [← openedEdges, ← carriedEdges]
  rfl

/-- The host keeps its entry. -/
theorem entry_graph :
    splicing.graph.entry = host.scope.graph.entry := by
  have graphEq := (splicing.carried.image _ splicing.pass.agrees_substitution).1
  have kept : splicing.pass.graph.entry = host.scope.graph.entry := by
    rw [graphEq]
    exact registerAll_entry _
  exact kept

/-- The continuation takes over the role of exit. -/
theorem exit_graph :
    splicing.graph.exit =
      if host.scope.graph.exit = some block then some report.continuation
      else host.scope.graph.exit := by
  have graphEq := (splicing.carried.image _ splicing.pass.agrees_substitution).1
  have kept : splicing.pass.graph.exit = splicing.opened.exit := by
    rw [graphEq]
    exact registerAll_exit _
  rw [splicing.continuation_eq]
  exact kept

/-! ### Which blocks are live -/

/-- A live block of the host is still there, live and under its label. -/
theorem exists_live_of_host (wf : host.scope.graph.WellFormed) (bodyWf : body.WellFormed)
    {target : Block} (live : target ∈ host.scope.graph.liveBlocks) :
    ∃ held ∈ splicing.graph.liveBlocks, held.label = target.label ∧ held.id = target.id := by
  rcases wf.mem_liveBlocks_iff.mp live with ⟨found, alive⟩
  have graphWf := splicing.graph_wellFormed wf bodyWf
  by_cases atSite : target.id = block
  · rw [atSite, splicing.found] at found
    obtain rfl := Except.ok.inj found
    exact ⟨_, graphWf.mem_liveBlocks_of_owned (splicing.site_spliced wf bodyWf) alive, rfl, rfl⟩
  · have kept := splicing.other_spliced wf bodyWf found atSite
    exact ⟨target, graphWf.mem_liveBlocks_of_owned kept alive, rfl, rfl⟩

/-- The images of the live blocks are live and carry the images of the labels. -/
theorem exists_live_of_body (wf : host.scope.graph.WellFormed) (bodyWf : body.WellFormed)
    (agrees : splicing.pass.Agrees σ) {target : Block} (live : target ∈ body.liveBlocks) :
    ∃ held ∈ splicing.graph.liveBlocks,
      held.label = σ.label target.label ∧ held.id = σ.block target.id := by
  rcases List.mem_iff_getElem?.mp live with ⟨i, at_i⟩
  obtain ⟨literal, imageAt⟩ : ∃ literal, (rule.blocks σ host.nextLiteral body.liveBlocks).1[i]? =
      some (rule.block σ literal target).1 :=
    Rule.exists_getElem?_blocks host.nextLiteral at_i
  have found := splicing.image_spliced wf bodyWf agrees (List.mem_iff_getElem?.mpr ⟨i, imageAt⟩)
  have alive : target.live = true := (bodyWf.mem_liveBlocks_iff.mp live).2
  exact ⟨_, (splicing.graph_wellFormed wf bodyWf).mem_liveBlocks_of_owned found alive, rfl, rfl⟩

/-! ### Where edges lead -/

/-- The edges of the block that was opened lead from the continuation. -/
theorem mem_successors_continuation {target : BlockId}
    (follows : target ∈ host.scope.graph.successors block) :
    target ∈ splicing.graph.successors report.continuation := by
  rcases mem_successors_iff.mp follows with ⟨edge, member, sourceEq, rfl⟩
  have moved : edge.leaving report.continuation ∈
      (host.scope.graph.outgoing block).map (·.leaving report.continuation) :=
    List.mem_map_of_mem (List.mem_filter.mpr ⟨member, decide_eq_true sourceEq⟩)
  have kept : edge.leaving report.continuation ∈ splicing.graph.edges := by
    rw [splicing.edges_eq splicing.pass.agrees_substitution]
    exact List.mem_append_left _ (List.mem_append_left _ (List.mem_append_right _ moved))
  exact mem_successors_of_mem kept

/-- The edges of the other blocks lead where they led. -/
theorem mem_successors_other {source target : BlockId} (other : source ≠ block)
    (follows : target ∈ host.scope.graph.successors source) :
    target ∈ splicing.graph.successors source := by
  rcases mem_successors_iff.mp follows with ⟨edge, member, rfl, rfl⟩
  have old : edge ∈ host.scope.graph.edges.filter (·.source ≠ block) :=
    List.mem_filter.mpr ⟨member, decide_eq_true other⟩
  have kept : edge ∈ splicing.graph.edges := by
    rw [splicing.edges_eq splicing.pass.agrees_substitution]
    exact List.mem_append_left _ (List.mem_append_left _ (List.mem_append_left _ old))
  exact mem_successors_of_mem kept

/-- The images of the edges between live blocks lead from image to image. -/
theorem mem_successors_image (agrees : splicing.pass.Agrees σ) {source target : BlockId}
    (live : source ∈ body.liveIds) (targetLive : target ∈ body.liveIds)
    (follows : target ∈ body.successors source) :
    σ.block target ∈ splicing.graph.successors (σ.block source) := by
  rcases mem_successors_iff.mp follows with ⟨edge, member, rfl, rfl⟩
  have image : σ.edge edge ∈ edgeImages σ body :=
    List.mem_map_of_mem (List.mem_filter.mpr ⟨member, decide_eq_true ⟨live, targetLive⟩⟩)
  have added : σ.edge edge ∈ splicing.graph.edges := by
    rw [splicing.edges_eq agrees]
    exact List.mem_append_left _ (List.mem_append_right _ image)
  exact mem_successors_of_mem added

theorem entry_mem_successors : report.entry ∈ splicing.graph.successors block := by
  have added : (⟨block, report.entry, .regular, none⟩ : Edge) ∈ splicing.graph.edges := by
    rw [splicing.edges_eq splicing.pass.agrees_substitution]
    simp
  exact mem_successors_of_mem added

theorem continuation_mem_successors :
    report.continuation ∈ splicing.graph.successors report.exit := by
  have added : (⟨report.exit, report.continuation, .regular, none⟩ : Edge) ∈
      splicing.graph.edges := by
    rw [splicing.edges_eq splicing.pass.agrees_substitution]
    simp
  exact mem_successors_of_mem added

/-- The entry of the body carries the image of the label that it carries in the body. -/
theorem exists_entryBlock_label (wf : host.scope.graph.WellFormed) (bodyWf : body.WellFormed)
    (agrees : splicing.pass.Agrees σ) :
    ∃ source ∈ body.liveBlocks, source.id = splicing.entry ∧
      splicing.entryBlock.label = σ.label source.label := by
  have entryAt := splicing.entry_at
  rw [Graph.liveIds, List.getElem?_map, Option.map_eq_some_iff] at entryAt
  rcases entryAt with ⟨source, sourceAt, sourceId⟩
  obtain ⟨literal, imageAt⟩ :
      ∃ literal, (rule.blocks σ host.nextLiteral body.liveBlocks).1[splicing.entryPlace]? =
        some (rule.block σ literal source).1 :=
    Rule.exists_getElem?_blocks host.nextLiteral sourceAt
  have found := splicing.carried.owned_idAt (splicing.opened_wellFormed wf) bodyWf agrees imageAt
  rw [← splicing.entry_eq, splicing.entry_owned] at found
  exact ⟨source, List.mem_of_getElem? sourceAt, sourceId,
    congrArg Block.label (Except.ok.inj found)⟩

end Splicing

/-! ## The image of the body -/

/-- A body stands in a host as its image under one substitution. -/
structure BodyImage (rule : Rule) (host : Host) (body : Graph) (report : Report) (after : Host)
    (σ : Substitution) : Prop where
  /-- The continuation gets the next id, and the images of the live blocks the ids after it. -/
  continuation_eq : report.continuation = host.scope.graph.freshId
  blocks_eq : report.blocks =
    (List.range body.liveBlocks.length).map fun i => host.scope.graph.idAt (i + 1)
  blocks_image : report.blocks = body.liveIds.map σ.block
  entry_image : ∃ entry, body.entry = some entry ∧ entry ∈ body.liveIds ∧
    report.entry = σ.block entry
  exit_image : ∃ exit, body.exit = some exit ∧ exit ∈ body.liveIds ∧ report.exit = σ.block exit
  /-- The host holds the images of the live blocks; that of the exit also
  jumps to the continuation. -/
  found : ∃ continuation, after.scope.graph.owned report.continuation = .ok continuation ∧
    ∀ image ∈ (rule.blocks σ host.nextLiteral body.liveBlocks).1, ∃ live,
      after.scope.graph.owned image.id = .ok
        { image with
          instrs := image.instrs ++
            if image.id = report.exit then [.jump continuation.label] else []
          live := live }
  nextLiteral_eq : after.nextLiteral = (rule.blocks σ host.nextLiteral body.liveBlocks).2
  /-- The edges between the images are the images of the edges between live blocks. -/
  edges_image : after.scope.graph.edges.filter (fun edge =>
    edge.source ∈ report.blocks ∧ edge.destination ∈ report.blocks) = edgeImages σ body

namespace Splicing

variable {policy : Policy} {host : Host} {setting : Setting} {rule : Rule} {log : Bool}
  {body : Graph} {block : BlockId} {site : Instr} {report : Report} {after : Host}
  {σ : Substitution}
  (splicing : Splicing host policy setting rule log body block site report after)

include splicing

theorem blocks_eq_map (agrees : splicing.pass.Agrees σ) :
    report.blocks = body.liveIds.map σ.block := by
  rw [splicing.blocks_eq, splicing.carried.map_block_liveIds agrees]

theorem entry_eq_block (agrees : splicing.pass.Agrees σ) :
    report.entry = σ.block splicing.entry := by
  rw [splicing.entry_eq]
  exact (agrees.block _ _ (splicing.carried.carried _ _ splicing.entry_at)).symm

theorem exit_eq_block (agrees : splicing.pass.Agrees σ) :
    report.exit = σ.block splicing.exit := by
  rw [splicing.exit_eq]
  exact (agrees.block _ _ (splicing.carried.carried _ _ splicing.exit_at)).symm

/-- No block of the opened host is among the images. -/
theorem not_mem_blocks (wf : host.scope.graph.WellFormed) {id : BlockId}
    (owns : splicing.opened.Owns id) :
    id ∉ report.blocks := by
  intro member
  rw [splicing.blocks_eq] at member
  rcases List.mem_map.mp member with ⟨i, -, rfl⟩
  exact (splicing.opened_wellFormed wf).not_owns_idAt i owns

/-- Of the edges, those between images are the images of edges. -/
theorem filter_edges_eq (wf : host.scope.graph.WellFormed) (agrees : splicing.pass.Agrees σ) :
    after.scope.graph.edges.filter (fun edge =>
      edge.source ∈ report.blocks ∧ edge.destination ∈ report.blocks) = edgeImages σ body := by
  have siteApart : block ∉ report.blocks :=
    splicing.not_mem_blocks wf (.of_owned (splicing.site_opened wf))
  have continuationApart : report.continuation ∉ report.blocks :=
    splicing.not_mem_blocks wf (.of_owned (splicing.continuation_opened wf))
  have old : (host.scope.graph.edges.filter (·.source ≠ block)).filter (fun edge =>
      edge.source ∈ report.blocks ∧ edge.destination ∈ report.blocks) = [] := by
    rw [List.filter_eq_nil_iff]
    intro edge member ends
    simp only [decide_eq_true_eq] at ends
    rcases List.mem_filter.mp member with ⟨held, different⟩
    rcases (wf.linked edge held).1 with ⟨source, found⟩
    have opened := splicing.other_opened wf found (of_decide_eq_true different)
    exact splicing.not_mem_blocks wf (.of_owned opened) ends.1
  have moved : ((host.scope.graph.outgoing block).map (·.leaving report.continuation)).filter
      (fun edge => edge.source ∈ report.blocks ∧ edge.destination ∈ report.blocks) = [] := by
    rw [List.filter_eq_nil_iff]
    intro edge member ends
    simp only [decide_eq_true_eq] at ends
    rcases List.mem_map.mp member with ⟨_, -, rfl⟩
    exact continuationApart ends.1
  have images : (edgeImages σ body).filter (fun edge =>
      edge.source ∈ report.blocks ∧ edge.destination ∈ report.blocks) = edgeImages σ body := by
    rw [List.filter_eq_self]
    intro edge member
    rcases List.mem_map.mp member with ⟨before, live, rfl⟩
    have ends := of_decide_eq_true (List.mem_filter.mp live).2
    rw [splicing.blocks_eq_map agrees]
    exact decide_eq_true ⟨List.mem_map_of_mem ends.1, List.mem_map_of_mem ends.2⟩
  rw [splicing.graph_eq, prunedBy_edges, splicing.edges_eq agrees, List.filter_append,
    List.filter_append, List.filter_append, old, moved, images]
  simp [siteApart, continuationApart]

/-- The body stands in the host as its image under every substitution that extends the tables. -/
theorem bodyImage (wf : host.scope.graph.WellFormed) (bodyWf : body.WellFormed)
    (agrees : splicing.pass.Agrees σ) : BodyImage rule host body report after σ where
  continuation_eq := splicing.continuation_eq
  blocks_eq := by
    rw [splicing.blocks_eq]
    apply List.map_congr_left
    intro i _
    exact splicing.idAt_opened i
  blocks_image := splicing.blocks_eq_map agrees
  entry_image := ⟨splicing.entry, splicing.entry_role, List.mem_of_getElem? splicing.entry_at,
    splicing.entry_eq_block agrees⟩
  exit_image := ⟨splicing.exit, splicing.exit_role, List.mem_of_getElem? splicing.exit_at,
    splicing.exit_eq_block agrees⟩
  found := by
    refine ⟨_, splicing.continuation_found wf bodyWf, ?_⟩
    intro image member
    refine ⟨image.live && keeps policy splicing.graph image.id, ?_⟩
    rw [splicing.owned_after wf bodyWf, splicing.image_spliced wf bodyWf agrees member]
    rfl
  nextLiteral_eq := by
    have literals : after.nextLiteral = splicing.pass.host.nextLiteral :=
      (congrArg Host.nextLiteral splicing.after_eq).trans rfl
    exact literals.trans (splicing.carried.image σ agrees).2.1
  edges_image := splicing.filter_edges_eq wf agrees

end Splicing

end FlowIR.Inlining
