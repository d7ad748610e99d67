import FlowIR.Proofs.Graph.Rewire

/-!
# Moving the edges of a block

The moved edges are inserted one after the other into a list that grows, but since they had
one source, none of them keeps another one out: an edge is dropped only for one that did not
move.  So moving edges is one change of the list, and what it does to the edges of each block
can be read off that change.
-/

namespace FlowIR.Graph

variable {g : Graph} {source target : BlockId}

/-! ## Moving as one change -/

/-- The edges of a block as they leave the target, those excepted whose link
an edge that stays has. -/
def arriving (g : Graph) (source target : BlockId) : List Edge :=
  (g.detached source).lacking ((g.outgoing source).map (·.leaving target))

/-- The graph in which the edges of a block have moved. -/
def retargeted (g : Graph) (source target : BlockId) : Graph :=
  { g with edges := g.edges.filter (·.source ≠ source) ++ g.arriving source target }

theorem WellFormed.retarget_eq_retargeted (wf : g.WellFormed) (sourceOwned : g.Owns source)
    (targetOwned : g.Owns target) :
    retarget source target g =
      .ok (g.arriving source target).length (g.retargeted source target) := by
  rw [retarget_eq_insertEdges sourceOwned targetOwned, wf.insertEdges_detached source targetOwned]
  rfl

theorem WellFormed.retargeted (wf : g.WellFormed) (sourceOwned : g.Owns source)
    (targetOwned : g.Owns target) : (g.retargeted source target).WellFormed := by
  have kept := wellFormed_lasting.retarget source target g wf
  unfold Ensures at kept
  rw [wf.retarget_eq_retargeted sourceOwned targetOwned] at kept
  exact kept

theorem source_of_mem_outgoing {edge : Edge} (leaves : edge ∈ g.outgoing source) :
    edge ∈ g.edges ∧ edge.source = source := by
  simpa [outgoing] using leaves

theorem source_of_mem_arriving {edge : Edge} (arrives : edge ∈ g.arriving source target) :
    edge.source = target := by
  rcases List.mem_map.mp (List.mem_filter.mp arrives).1 with ⟨old, -, rfl⟩
  rfl

/-- A moved edge is there afterwards, or an edge that stays has its link. -/
theorem mem_retargeted_or {old : Edge} (leaves : old ∈ g.outgoing source) :
    old.leaving target ∈ (g.retargeted source target).edges ∨
      ∃ kept ∈ g.edges, kept.source ≠ source ∧ kept.link = (old.leaving target).link := by
  cases known : (g.detached source).hasLink (old.leaving target).link with
  | true =>
      rcases List.mem_map.mp (hasLink_iff.mp known) with ⟨kept, stays, same⟩
      rcases List.mem_filter.mp stays with ⟨member, elsewhere⟩
      exact .inr ⟨kept, member, of_decide_eq_true elsewhere, same⟩
  | false =>
      apply Or.inl
      apply List.mem_append_right
      exact List.mem_filter.mpr ⟨List.mem_map_of_mem leaves, by rw [known]; rfl⟩

/-! ## Moving to another block -/

section Apart

variable (apart : source ≠ target)

include apart

/-- Whether a moved edge is known can be asked before the others are taken out. -/
theorem hasLink_detached (link : Link) (leaves : link.source = target) :
    (g.detached source).hasLink link = g.hasLink link := by
  rw [Bool.eq_iff_iff, hasLink_iff, hasLink_iff, detached, List.mem_map, List.mem_map]
  constructor
  · rintro ⟨edge, stays, rfl⟩
    exact ⟨edge, (List.mem_filter.mp stays).1, rfl⟩
  · rintro ⟨edge, member, rfl⟩
    have elsewhere : edge.source ≠ source := fun same => apart (same.symm.trans leaves)
    exact ⟨edge, List.mem_filter.mpr ⟨member, decide_eq_true elsewhere⟩, rfl⟩

theorem arriving_eq_lacking :
    g.arriving source target = g.lacking ((g.outgoing source).map (·.leaving target)) := by
  apply List.filter_congr
  intro edge moved
  rcases List.mem_map.mp moved with ⟨old, -, rfl⟩
  rw [hasLink_detached apart _ rfl]

theorem outgoing_retargeted_source : (g.retargeted source target).outgoing source = [] := by
  rw [outgoing, List.filter_eq_nil_iff]
  intro edge member
  rw [decide_eq_true_iff]
  rcases List.mem_append.mp member with stays | arrives
  · exact of_decide_eq_true (List.mem_filter.mp stays).2
  · exact fun same => apart (same.symm.trans (source_of_mem_arriving arrives))

theorem outgoing_retargeted_target :
    (g.retargeted source target).outgoing target =
      g.outgoing target ++ g.arriving source target := by
  rw [outgoing, retargeted, List.filter_append, List.filter_filter]
  congr 1
  · apply List.filter_congr
    intro edge _
    by_cases here : edge.source = target <;> simp [here, apart.symm]
  · apply List.filter_eq_self.mpr
    exact fun edge arrives => decide_eq_true (source_of_mem_arriving arrives)

end Apart

/-! ## Moving to the block itself -/

theorem arriving_self (g : Graph) (source : BlockId) :
    g.arriving source source = g.outgoing source := by
  have same : (g.outgoing source).map (·.leaving source) = g.outgoing source := by
    apply map_eq_self
    intro edge leaves
    rw [Edge.leaving, ← (source_of_mem_outgoing leaves).2]
  rw [arriving, same]
  apply lacking_eq_self
  intro edge leaves
  apply Bool.eq_false_iff.mpr
  intro known
  rcases List.mem_map.mp (hasLink_iff.mp known) with ⟨kept, stays, link⟩
  have elsewhere : kept.source ≠ source := of_decide_eq_true (List.mem_filter.mp stays).2
  exact elsewhere ((congrArg Link.source link).trans (source_of_mem_outgoing leaves).2)

theorem retargeted_self_perm (g : Graph) (source : BlockId) :
    (g.retargeted source source).edges.Perm g.edges := by
  rw [retargeted, arriving_self]
  exact g.filter_append_outgoing_perm source

/-! ## Moving said in full -/

/-- The second graph and the number come of moving the edges of a block of the first graph: behind
the edges that stay come the moved ones, those excepted whose links an edge that stays has. -/
structure Retargets (before : Graph) (source target : BlockId) (count : Nat)
    (after : Graph) : Prop where
  moves : after = before.retargeted source target
  counts : count = (before.arriving source target).length
  links_nodup : (after.edges.map Edge.link).Nodup
  /-- A moved edge is lost only where one has its link that did not move, which stays as it was. -/
  lossless : ∀ old ∈ before.outgoing source, old.leaving target ∈ after.edges ∨
    ∃ kept ∈ before.edges, kept.source ≠ source ∧ kept.link = (old.leaving target).link ∧
      kept ∈ after.edges

/-- What moving the edges of a block to another block does to the two. -/
structure HandsOver (before : Graph) (source target : BlockId) (count : Nat)
    (after : Graph) : Prop where
  /-- Exactly those edges are lost whose link the target had before. -/
  known : before.arriving source target =
    ((before.outgoing source).map (·.leaving target)).filter fun edge => !before.hasLink edge.link
  emptied : after.outgoing source = []
  grows : (after.outgoing target).length = (before.outgoing target).length + count
  /-- An edge from the block to itself leads from the target to the block. -/
  loops : ∀ loop ∈ before.outgoing source, loop.destination = source →
    after.hasLink ⟨target, source, loop.kind⟩ = true ∧
      (before.hasLink ⟨target, source, loop.kind⟩ = false →
        ⟨target, source, loop.kind, loop.data⟩ ∈ after.edges)

theorem WellFormed.retargets (wf : g.WellFormed) (sourceOwned : g.Owns source)
    (targetOwned : g.Owns target) :
    g.Retargets source target (g.arriving source target).length (g.retargeted source target) where
  moves := rfl
  counts := rfl
  links_nodup := (wf.retargeted sourceOwned targetOwned).links_nodup
  lossless := by
    intro old leaves
    rcases mem_retargeted_or leaves with arrives | ⟨kept, member, elsewhere, link⟩
    · exact .inl arrives
    · have stays : kept ∈ (g.retargeted source target).edges :=
        List.mem_append_left _ (List.mem_filter.mpr ⟨member, decide_eq_true elsewhere⟩)
      exact .inr ⟨kept, member, elsewhere, link, stays⟩

theorem handsOver (g : Graph) (apart : source ≠ target) :
    g.HandsOver source target (g.arriving source target).length (g.retargeted source target) where
  known := arriving_eq_lacking apart
  emptied := outgoing_retargeted_source apart
  grows := by rw [outgoing_retargeted_target apart, List.length_append]
  loops := by
    intro loop leaves back
    have moved : (⟨target, source, loop.kind, loop.data⟩ : Edge) = loop.leaving target := by
      rw [← back]
      rfl
    have link : (⟨target, source, loop.kind⟩ : Link) = (loop.leaving target).link := by
      rw [← back]
      rfl
    rw [moved, link]
    rcases mem_retargeted_or leaves with arrives | ⟨kept, member, elsewhere, same⟩
    · exact ⟨hasLink_iff.mpr (List.mem_map_of_mem arrives), fun _ => arrives⟩
    · have stays : kept ∈ (g.retargeted source target).edges :=
        List.mem_append_left _ (List.mem_filter.mpr ⟨member, decide_eq_true elsewhere⟩)
      rw [← same]
      refine ⟨hasLink_iff.mpr (List.mem_map_of_mem stays), fun absent => ?_⟩
      exact absurd (hasLink_iff.mpr (List.mem_map_of_mem member)) (Bool.eq_false_iff.mp absent)

/-- Moving the edges of a block neither loses an edge nor doubles one.  Moved to another
block, they are as many as the edges of that block grow by; moved to the block itself, they
only change their places. -/
theorem retarget_exact (wf : g.WellFormed) (sourceOwned : g.Owns source)
    (targetOwned : g.Owns target) :
    ∃ count after, retarget source target g = .ok count after ∧
      g.Retargets source target count after ∧
      (source ≠ target → g.HandsOver source target count after) ∧
      (source = target → after.edges.Perm g.edges ∧ count = (g.outgoing source).length) := by
  refine ⟨_, _, wf.retarget_eq_retargeted sourceOwned targetOwned,
    wf.retargets sourceOwned targetOwned, fun apart => g.handsOver apart, ?_⟩
  rintro rfl
  exact ⟨g.retargeted_self_perm source, by rw [g.arriving_self source]⟩

/-- A graph in which one block has an edge to itself and two edges to the other block, which has an
edge of the same kind as one of these. -/
def portalGraph : Graph :=
  { ({ id := 0 } : Graph).registerAll
      [{ id := ⟨0, 0⟩, label := ⟨"here"⟩ }, { id := ⟨0, 1⟩, label := ⟨"there"⟩ }] with
    edges :=
      [⟨⟨0, 0⟩, ⟨0, 0⟩, .exception, some (.var (.temporary 0))⟩,
       ⟨⟨0, 0⟩, ⟨0, 1⟩, .regular, none⟩,
       ⟨⟨0, 1⟩, ⟨0, 1⟩, .regular, some (.var (.temporary 1))⟩,
       ⟨⟨0, 0⟩, ⟨0, 1⟩, .exit, none⟩] }

/-- Two of the three edges move, and the one that is known already keeps its attachment. -/
theorem retarget_exact_sample :
    portalGraph.WellFormed ∧ portalGraph.Owns ⟨0, 0⟩ ∧ portalGraph.Owns ⟨0, 1⟩ ∧
      ∃ after, retarget ⟨0, 0⟩ ⟨0, 1⟩ portalGraph = .ok 2 after ∧
        portalGraph.HandsOver ⟨0, 0⟩ ⟨0, 1⟩ 2 after ∧
        ⟨⟨0, 1⟩, ⟨0, 1⟩, .regular, some (.var (.temporary 1))⟩ ∈ after.edges := by
  have wf : portalGraph.WellFormed := by decide +kernel
  have here : portalGraph.Owns ⟨0, 0⟩ := contains_iff_owns.mp (by decide +kernel)
  have there : portalGraph.Owns ⟨0, 1⟩ := contains_iff_owns.mp (by decide +kernel)
  obtain ⟨count, after, moved, retargets, handsOver, -⟩ := retarget_exact wf here there
  have two : count = 2 := retargets.counts.trans (by decide +kernel)
  subst two
  refine ⟨wf, here, there, after, moved, handsOver (by decide), ?_⟩
  rw [retargets.moves]
  decide +kernel

end FlowIR.Graph
