import FlowIR.Proofs.Graph.Listing
import FlowIR.Proofs.Inlining.Reachability
import FlowIR.Proofs.Relabeling

/-!
# Seams

Splicing a body into a host cuts one block, moves the edges that left it, and adds blocks
and edges.  A seam is what it cuts, moves and adds, said apart from the host.  So it can be
asked what becomes of a seam when its names are replaced, and two seams at different blocks
can be laid in either order.
-/

namespace FlowIR.Inlining

open FlowIR.Graph

/-- What is put in the place of a site. -/
structure Seam where
  /-- The block that is opened, and what it holds afterwards. -/
  site : BlockId
  head : List Instr
  continuation : Block
  /-- What becomes of the blocks of the body. -/
  images : List Block
  /-- What becomes of its edges, with those that link its ends. -/
  added : List Edge

namespace Seam

/-- What is left of a block. -/
def cut (seam : Seam) (block : Block) : Block :=
  if block.id = seam.site then block.withInstrs seam.head else block

/-- Where an edge leads from. -/
def moved (seam : Seam) (edge : Edge) : Edge :=
  if edge.source = seam.site then edge.leaving seam.continuation.id else edge

/-- The blocks of a host after a seam was laid. -/
def blocks (seam : Seam) (blocks : List Block) : List Block :=
  blocks.map seam.cut ++ seam.continuation :: seam.images

/-- The edges of a host after a seam was laid, in some order. -/
def edges (seam : Seam) (edges : List Edge) : List Edge :=
  edges.map seam.moved ++ seam.added

/-- The exit of a host after a seam was laid. -/
def exit (seam : Seam) (exit : Option BlockId) : Option BlockId :=
  if exit = some seam.site then some seam.continuation.id else exit

variable {seam other : Seam}

@[simp] theorem cut_id (block : Block) : (seam.cut block).id = block.id := by
  unfold cut
  split <;> rfl

@[simp] theorem cut_live (block : Block) : (seam.cut block).live = block.live := by
  unfold cut
  split <;> rfl

theorem cut_of_ne {block : Block} (other : block.id ≠ seam.site) : seam.cut block = block :=
  if_neg other

theorem moved_of_ne {edge : Edge} (other : edge.source ≠ seam.site) : seam.moved edge = edge :=
  if_neg other

theorem map_id_blocks (blocks : List Block) :
    (seam.blocks blocks).map (·.id) =
      blocks.map (·.id) ++ seam.continuation.id :: seam.images.map (·.id) := by
  have kept : (·.id) ∘ seam.cut = (·.id) := funext cut_id
  simp only [Seam.blocks, List.map_append, List.map_map, kept, List.map_cons]

/-- What a seam adds to the live blocks is all that it adds, if that is live. -/
theorem filter_blocks (live : seam.continuation.live = true)
    (imagesLive : ∀ image ∈ seam.images, image.live = true) (blocks : List Block) :
    (seam.blocks blocks).filter (·.live) = seam.blocks (blocks.filter (·.live)) := by
  have kept : (·.live) ∘ seam.cut = (·.live) := funext cut_live
  have all : (seam.continuation :: seam.images).filter (·.live) =
      seam.continuation :: seam.images := by
    rw [List.filter_eq_self]
    intro block member
    rcases List.mem_cons.mp member with rfl | image
    · exact live
    · exact imagesLive block image
  rw [Seam.blocks, List.filter_append, List.filter_map, kept, all, Seam.blocks]

/-- What a seam adds is live, and it leaves the liveness of the others alone. -/
theorem blocks_map_mark (live : seam.continuation.live = true)
    (imagesLive : ∀ image ∈ seam.images, image.live = true) (blocks : List Block) :
    (seam.blocks blocks).map (·.mark true) = seam.blocks (blocks.map (·.mark true)) := by
  have marked : ∀ {block : Block}, block.live = true → block.mark true = block := by
    rintro ⟨id, label, instrs, live⟩ rfl
    rfl
  have images : seam.images.map (·.mark true) = seam.images :=
    map_eq_self fun image member => marked (imagesLive image member)
  have cuts : (·.mark true) ∘ seam.cut = seam.cut ∘ (·.mark true) := by
    funext block
    simp only [Function.comp, cut]
    split <;> simp_all [Block.mark, Block.withInstrs]
  simp only [Seam.blocks, List.map_append, List.map_map, List.map_cons, images, marked live, cuts]

theorem edges_perm (seam : Seam) {edges others : List Edge} (same : edges.Perm others) :
    (seam.edges edges).Perm (seam.edges others) :=
  (same.map _).append_right _

/-! ## Replacing names -/

/-- The seam with its names replaced. -/
def relabel (seam : Seam) (ρ : Relabeling) : Seam where
  site := ρ.block seam.site
  head := seam.head.map ρ.instr
  continuation := ρ.ofBlock seam.continuation
  images := seam.images.map ρ.ofBlock
  added := seam.added.map ρ.edge

variable {ρ : Relabeling}

theorem relabel_blocks (injective : Function.Injective ρ.block) (blocks : List Block) :
    (seam.relabel ρ).blocks (blocks.map ρ.ofBlock) = (seam.blocks blocks).map ρ.ofBlock := by
  have cuts : (seam.relabel ρ).cut ∘ ρ.ofBlock = ρ.ofBlock ∘ seam.cut := by
    funext block
    simp only [Function.comp, cut, relabel, Relabeling.ofBlock, injective.eq_iff]
    split <;> rfl
  simp only [Seam.blocks, List.map_map, cuts, List.map_append, List.map_cons]
  rfl

theorem relabel_edges (injective : Function.Injective ρ.block) (edges : List Edge) :
    (seam.relabel ρ).edges (edges.map ρ.edge) = (seam.edges edges).map ρ.edge := by
  have moves : (seam.relabel ρ).moved ∘ ρ.edge = ρ.edge ∘ seam.moved := by
    funext edge
    simp only [Function.comp, moved, relabel, Relabeling.edge, injective.eq_iff]
    split <;> rfl
  simp only [Seam.edges, List.map_map, moves, List.map_append]
  rfl

theorem relabel_exit (injective : Function.Injective ρ.block) (exit : Option BlockId) :
    (seam.relabel ρ).exit (exit.map ρ.block) = (seam.exit exit).map ρ.block := by
  cases exit with
  | none => rfl
  | some id =>
      simp only [Seam.exit, relabel, Option.map_some, Option.some.injEq, injective.eq_iff]
      split <;> rfl

/-! ## Two seams -/

/-- The block is none that a seam opens or adds. -/
structure Spares (seam : Seam) (id : BlockId) : Prop where
  site : seam.site ≠ id
  continuation : seam.continuation.id ≠ id
  images : ∀ image ∈ seam.images, image.id ≠ id
  added : ∀ edge ∈ seam.added, edge.source ≠ id

section Exchange

variable (spares : seam.Spares other.site) (otherSpares : other.Spares seam.site)

include spares otherSpares

/-- Seams that spare each other's blocks leave the same blocks in either order. -/
theorem blocks_exchange (blocks : List Block) :
    (other.blocks (seam.blocks blocks)).Perm (seam.blocks (other.blocks blocks)) := by
  have cuts : other.cut ∘ seam.cut = seam.cut ∘ other.cut := by
    funext block
    simp only [Function.comp, cut]
    by_cases atSite : block.id = seam.site
    · simp [atSite, spares.site]
    · by_cases atOther : block.id = other.site
      · simp [atOther, otherSpares.site]
      · simp [atSite, atOther]
  have unchanged : ∀ {seam other : Seam}, seam.Spares other.site →
      (seam.continuation :: seam.images).map other.cut = seam.continuation :: seam.images := by
    intro seam other spares
    apply map_eq_self
    intro block member
    rcases List.mem_cons.mp member with rfl | image
    · exact if_neg spares.continuation
    · exact if_neg (spares.images block image)
  simp only [Seam.blocks, List.map_append, List.map_map, unchanged spares, unchanged otherSpares,
    cuts, List.append_assoc]
  exact List.perm_append_comm.append_left _

/-- They leave the same edges. -/
theorem edges_exchange (edges : List Edge) :
    (other.edges (seam.edges edges)).Perm (seam.edges (other.edges edges)) := by
  have moves : other.moved ∘ seam.moved = seam.moved ∘ other.moved := by
    funext edge
    simp only [Function.comp, moved]
    by_cases atSite : edge.source = seam.site
    · simp [atSite, spares.site, spares.continuation, Edge.leaving]
    · by_cases atOther : edge.source = other.site
      · simp [atOther, otherSpares.site, otherSpares.continuation, Edge.leaving]
      · simp [atSite, atOther]
  have unchanged : ∀ {seam other : Seam}, seam.Spares other.site →
      seam.added.map other.moved = seam.added := by
    intro seam other spares
    exact map_eq_self fun edge member => if_neg (spares.added edge member)
  simp only [Seam.edges, List.map_append, List.map_map, unchanged spares, unchanged otherSpares,
    moves, List.append_assoc]
  exact List.perm_append_comm.append_left _

/-- They leave the same exit. -/
theorem exit_exchange (exit : Option BlockId) :
    other.exit (seam.exit exit) = seam.exit (other.exit exit) := by
  simp only [Seam.exit]
  by_cases atSite : exit = some seam.site
  · simp [atSite, spares.site, spares.continuation]
  · by_cases atOther : exit = some other.site
    · simp [atOther, otherSpares.site, otherSpares.continuation]
    · simp [atSite, atOther]

end Exchange

/-! ## A seam inside of another one -/

/-- The outer seam with the inner one laid in what the outer one adds. -/
def graft (outer inner : Seam) : Seam :=
  { outer with
    images := outer.images.map inner.cut ++ inner.continuation :: inner.images
    added := outer.added.map inner.moved ++ inner.added }

section Graft

variable {outer inner : Seam} (apart : outer.continuation.id ≠ inner.site)

include apart

/-- Laying a seam in what another one has added to a graph is laying both at once. -/
theorem blocks_graft {blocks : List Block} (spared : ∀ block ∈ blocks, block.id ≠ inner.site) :
    inner.blocks (outer.blocks blocks) = (outer.graft inner).blocks blocks := by
  have untouched : (blocks.map outer.cut).map inner.cut = blocks.map outer.cut := by
    apply map_eq_self
    intro block member
    rcases List.mem_map.mp member with ⟨before, listed, rfl⟩
    exact cut_of_ne (by simpa using spared before listed)
  simp only [Seam.blocks, graft, List.map_append, untouched, List.map_cons, cut_of_ne apart,
    List.append_assoc, List.cons_append]
  rfl

theorem edges_graft {edges : List Edge} (spared : ∀ edge ∈ edges, edge.source ≠ inner.site) :
    inner.edges (outer.edges edges) = (outer.graft inner).edges edges := by
  have untouched : (edges.map outer.moved).map inner.moved = edges.map outer.moved := by
    apply map_eq_self
    intro edge member
    rcases List.mem_map.mp member with ⟨before, listed, rfl⟩
    apply moved_of_ne
    unfold moved
    split
    · exact apart
    · exact spared before listed
  simp only [Seam.edges, graft, List.map_append, untouched, List.append_assoc]
  rfl

theorem exit_graft {exit : Option BlockId} (spared : exit ≠ some inner.site) :
    inner.exit (outer.exit exit) = outer.exit exit := by
  apply if_neg
  unfold Seam.exit
  split
  · simpa using apart
  · exact spared

end Graft

end Seam

/-! ## The seam of a splicing -/

/-- The exit of a body jumps to the continuation. -/
def jumpingAt (exit : BlockId) (label : Label) (block : Block) : Block :=
  if block.id = exit then block.append (.jump label) else block

@[simp] theorem jumpingAt_id (exit : BlockId) (label : Label) (block : Block) :
    (jumpingAt exit label block).id = block.id := by
  unfold jumpingAt
  split <;> rfl

theorem jumpingAt_instrs (exit : BlockId) (label : Label) (block : Block) :
    (jumpingAt exit label block).instrs =
      block.instrs ++ if block.id = exit then [.jump label] else [] := by
  unfold jumpingAt
  split
  · rfl
  · exact (List.append_nil _).symm

theorem jumpingAt_of_ne {exit : BlockId} {label : Label} {block : Block} (other : block.id ≠ exit) :
    jumpingAt exit label block = block :=
  if_neg other

theorem ofBlock_jumpingAt {ρ : Relabeling} (injective : Function.Injective ρ.block) (exit : BlockId)
    (label : Label) (block : Block) :
    ρ.ofBlock (jumpingAt exit label block) =
      jumpingAt (ρ.block exit) (ρ.label label) (ρ.ofBlock block) := by
  by_cases atExit : block.id = exit
  · simp [jumpingAt, atExit, Relabeling.ofBlock, Block.append, Relabeling.instr, Instr.mapParts]
  · have different : (ρ.ofBlock block).id ≠ ρ.block exit := injective.ne atExit
    rw [jumpingAt_of_ne atExit, jumpingAt_of_ne different]

namespace Splicing

variable {policy : Policy} {host : Host} {setting : Setting} {rule : Rule} {log : Bool}
  {body : Graph} {block : BlockId} {site : Instr} {report : Report} {after : Host}
  {σ : Substitution}
  (splicing : Splicing host policy setting rule log body block site report after)

/-- What is put in the place of the site. -/
def seam (σ : Substitution) : Seam where
  site := block
  head := splicing.pre ++ [.jump splicing.entryBlock.label]
  continuation :=
    { id := report.continuation, label := splicing.continuationLabel, instrs := splicing.post }
  images := (rule.blocks σ host.nextLiteral body.liveBlocks).1.map
    (jumpingAt report.exit splicing.continuationLabel)
  added := edgeImages σ body ++
    [⟨block, report.entry, .regular, none⟩, ⟨report.exit, report.continuation, .regular, none⟩]

include splicing

theorem blocks_opened (wf : host.scope.graph.WellFormed) :
    splicing.opened.blocks =
      host.scope.graph.blocks.map (fun held =>
          if held.id = block then held.withInstrs splicing.pre else held) ++
        [{ id := report.continuation, label := splicing.continuationLabel,
           instrs := splicing.post }] := by
  rw [← wf.blocks_adjust (.of_owned splicing.found) (·.withInstrs splicing.pre),
    splicing.continuation_eq]
  exact blocks_register _

theorem blocks_pass (agrees : splicing.pass.Agrees σ) :
    splicing.pass.graph.blocks =
      splicing.opened.blocks ++ (rule.blocks σ host.nextLiteral body.liveBlocks).1 := by
  have ids : (rule.blocks σ host.nextLiteral body.liveBlocks).1.map (·.id) =
      (List.range (rule.blocks σ host.nextLiteral body.liveBlocks).1.length).map
        splicing.opened.idAt := by
    rw [Rule.map_id_blocks, Rule.length_blocks, opened,
      ← splicing.carried.map_block_liveIds agrees, liveIds, List.map_map]
    rfl
  rw [(splicing.carried.image σ agrees).1]
  exact blocks_registerAll ids

/-- The blocks of the graph after linking, in order. -/
theorem blocks_graph (wf : host.scope.graph.WellFormed) (bodyWf : body.WellFormed)
    (agrees : splicing.pass.Agrees σ) :
    splicing.graph.blocks = (splicing.seam σ).blocks host.scope.graph.blocks := by
  have passWf : splicing.pass.graph.WellFormed := splicing.carried.wellFormed
  have siteOwned : splicing.pass.graph.Owns block :=
    .of_owned (splicing.carried.owned_of_owned (splicing.site_opened wf))
  have exitOwned : splicing.pass.graph.Owns report.exit := by
    rw [splicing.exit_eq]
    exact splicing.carried.owns_idAt (splicing.opened_wellFormed wf) bodyWf splicing.exitPlace_lt
  let jumping : Graph :=
    splicing.pass.graph.adjust block (·.append (.jump splicing.entryBlock.label))
  have jumpingWf : jumping.WellFormed :=
    passWf.adjust (fun held _ => keepsName_append _ held) siteOwned
  have linked : splicing.graph.blocks =
      (splicing.pass.graph.blocks.map fun held =>
        if held.id = block then held.append (.jump splicing.entryBlock.label) else held).map
          (jumpingAt report.exit splicing.continuationLabel) := by
    rw [← passWf.blocks_adjust siteOwned]
    exact jumpingWf.blocks_adjust ((owns_adjust _ _ _).mpr exitOwned)
      (·.append (.jump splicing.continuationLabel))
  have siteApart : block ≠ report.exit := splicing.ne_exit wf (.of_owned (splicing.site_opened wf))
  have continuationApart : report.continuation ≠ report.exit :=
    splicing.ne_exit wf (.of_owned (splicing.continuation_opened wf))
  rw [linked, splicing.blocks_pass agrees, splicing.blocks_opened wf]
  simp only [List.map_append, List.map_map, List.map_cons, Seam.blocks, List.append_assoc,
    List.cons_append, List.nil_append, seam]
  congr 1
  · apply List.map_congr_left
    intro held member
    have owned := wf.mem_blocks_iff.mp member
    by_cases atSite : held.id = block
    · simp [Function.comp, atSite, jumpingAt, siteApart, Seam.cut, Block.append, Block.withInstrs]
    · have kept : held.id ≠ report.exit :=
        splicing.ne_exit wf (.of_owned (splicing.other_opened wf owned atSite))
      simp [Function.comp, atSite, jumpingAt, kept, Seam.cut]
  · congr 1
    · simp [jumpingAt, (splicing.block_ne_continuation wf).symm, continuationApart]
    · apply List.map_congr_left
      intro image member
      have different : image.id ≠ block := by
        rcases List.mem_iff_getElem?.mp member with ⟨i, at_i⟩
        rw [splicing.carried.id_eq_idAt agrees at_i]
        rintro same
        apply (splicing.opened_wellFormed wf).not_owns_idAt i
        rw [opened, same]
        exact .of_owned (splicing.site_opened wf)
      simp [Function.comp, different]

/-- The edges of the graph after linking, in some order. -/
theorem edges_graph (agrees : splicing.pass.Agrees σ) :
    splicing.graph.edges.Perm ((splicing.seam σ).edges host.scope.graph.edges) := by
  have stay : (host.scope.graph.edges.filter (·.source ≠ block)).map (splicing.seam σ).moved =
      host.scope.graph.edges.filter (·.source ≠ block) :=
    map_eq_self fun edge member => if_neg (of_decide_eq_true (List.mem_filter.mp member).2)
  have go : (host.scope.graph.outgoing block).map (splicing.seam σ).moved =
      (host.scope.graph.outgoing block).map (·.leaving report.continuation) := by
    apply List.map_congr_left
    exact fun edge member => if_pos (of_decide_eq_true (List.mem_filter.mp member).2)
  have parts := host.scope.graph.filter_append_outgoing_perm block
  rw [splicing.edges_eq agrees, List.append_assoc _ (edgeImages σ body), ← stay, ← go,
    ← List.map_append]
  exact (parts.map _).append_right _

omit splicing in
theorem map_id_images
    (splicing : Splicing host policy setting rule log body block site report after)
    (σ : Substitution) : (splicing.seam σ).images.map (·.id) = body.liveIds.map σ.block := by
  have kept : (·.id) ∘ jumpingAt report.exit splicing.continuationLabel = (·.id) :=
    funext (jumpingAt_id _ _)
  rw [seam, List.map_map, kept, Rule.map_id_blocks, liveIds, List.map_map]
  rfl

/-- What a splicing adds is live. -/
theorem seam_live (σ : Substitution) :
    (splicing.seam σ).continuation.live = true ∧ ∀ image ∈ (splicing.seam σ).images,
      image.live = true := by
  refine ⟨rfl, ?_⟩
  intro image member
  rcases List.mem_map.mp member with ⟨before, listed, rfl⟩
  rcases List.mem_iff_getElem?.mp listed with ⟨i, at_i⟩
  rcases Rule.exists_source_of_getElem? _ at_i with ⟨source, literal, sourceAt, rfl⟩
  have live : source.live = true :=
    (List.mem_filter.mp (List.mem_of_getElem? sourceAt)).2
  unfold jumpingAt
  split
  · exact live
  · exact live

/-- A block of the host is not opened by a splicing at another block, and not made by it. -/
theorem seam_spares (wf : host.scope.graph.WellFormed) (agrees : splicing.pass.Agrees σ)
    {id : BlockId} (owns : host.scope.graph.Owns id) (other : block ≠ id) :
    (splicing.seam σ).Spares id where
  site := other
  continuation := by
    rintro rfl
    exact splicing.not_owns_continuation wf owns
  images := by
    intro image member same
    rcases List.mem_map.mp member with ⟨before, listed, rfl⟩
    have ids : before.id ∈ (rule.blocks σ host.nextLiteral body.liveBlocks).1.map (·.id) :=
      List.mem_map_of_mem listed
    rw [Rule.map_id_blocks] at ids
    rcases List.mem_map.mp ids with ⟨source, live, sourceId⟩
    rw [← same, jumpingAt_id, ← sourceId] at owns
    exact splicing.not_owns_image wf agrees (List.mem_map_of_mem live) owns
  added := by
    intro edge member same
    rw [← same] at owns other
    rcases List.mem_append.mp member with image | link
    · rcases List.mem_map.mp image with ⟨old, held, rfl⟩
      have ends := of_decide_eq_true (List.mem_filter.mp held).2
      exact splicing.not_owns_image wf agrees ends.1 owns
    · rcases List.mem_cons.mp link with rfl | last
      · exact other rfl
      · rw [List.mem_singleton.mp last, splicing.exit_eq_block agrees] at owns
        exact splicing.not_owns_image wf agrees (List.mem_of_getElem? splicing.exit_at) owns

theorem exit_seam (σ : Substitution) :
    splicing.graph.exit = (splicing.seam σ).exit host.scope.graph.exit :=
  splicing.exit_graph

end Splicing

end FlowIR.Inlining
