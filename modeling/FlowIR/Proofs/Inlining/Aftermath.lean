import FlowIR.Proofs.Inlining.Seam

/-!
# What a request leaves

The host after a body was spliced into it, as far as later requests depend on it: its counters,
its blocks and edges as the seam makes them of those before, its roles, and which blocks are
live.  New ids follow one another, first that of the continuation and then those of the images
in the order of the body.
-/

namespace FlowIR.Inlining

open FlowIR.Graph

theorem prunedBy_nextIndex {policy : Policy} {g : Graph} :
    (prunedBy policy g).nextIndex = g.nextIndex := by
  unfold prunedBy
  split
  · exact g.prune_fields.2.1
  · rfl

theorem prunedBy_id {policy : Policy} {g : Graph} : (prunedBy policy g).id = g.id := by
  unfold prunedBy
  split
  · exact g.prune_fields.1
  · rfl

namespace Splicing

variable {policy : Policy} {host : Host} {setting : Setting} {rule : Rule} {log : Bool}
  {body : Graph} {block : BlockId} {site : Instr} {report : Report} {after : Host}
  {σ : Substitution}
  (splicing : Splicing host policy setting rule log body block site report after)

include splicing

/-! ## Counters -/

theorem nextTemp_after : after.scope.nextTemp = splicing.pass.host.scope.nextTemp :=
  congrArg (·.scope.nextTemp) splicing.after_eq

theorem nextLabel_after : after.scope.nextLabel = splicing.pass.host.scope.nextLabel :=
  congrArg (·.scope.nextLabel) splicing.after_eq

theorem nextTemp_le : host.scope.nextTemp ≤ after.scope.nextTemp := by
  rw [splicing.nextTemp_after]
  exact splicing.carried.named.nextTemp_le

/-- The number of the continuation's label has been passed. -/
theorem labelNumber_lt : host.scope.labelNumber < after.scope.nextLabel := by
  rw [splicing.nextLabel_after]
  exact splicing.carried.named.nextLabel_le

theorem nextLabel_le : host.scope.nextLabel ≤ after.scope.nextLabel :=
  Nat.le_trans host.scope.nextLabel_le_labelNumber (Nat.le_of_lt splicing.labelNumber_lt)

theorem id_after : after.scope.graph.id = host.scope.graph.id := by
  have carried := (splicing.carried.image _ splicing.pass.agrees_substitution).1
  rw [splicing.graph_eq, prunedBy_id, show splicing.graph.id = splicing.pass.graph.id from rfl,
    carried]
  exact registerAll_id _

theorem nextIndex_after :
    after.scope.graph.nextIndex = host.scope.graph.nextIndex + (body.liveBlocks.length + 1) := by
  have carried := (splicing.carried.image _ splicing.pass.agrees_substitution).1
  have grown : splicing.pass.graph.nextIndex =
      splicing.opened.nextIndex + body.liveBlocks.length := by
    rw [carried]
    exact (registerAll_nextIndex _).trans (congrArg _ (Rule.length_blocks _ _))
  have opens : splicing.opened.nextIndex = host.scope.graph.nextIndex + 1 := rfl
  rw [splicing.graph_eq, prunedBy_nextIndex,
    show splicing.graph.nextIndex = splicing.pass.graph.nextIndex from rfl, grown, opens,
    Nat.add_assoc, Nat.add_comm 1]

/-- The ids that come after the splicing. -/
theorem idAt_after (i : Nat) :
    after.scope.graph.idAt i = host.scope.graph.idAt (body.liveBlocks.length + 1 + i) := by
  rw [idAt, idAt, splicing.id_after, splicing.nextIndex_after, Nat.add_assoc]

theorem continuation_eq_idAt : report.continuation = host.scope.graph.idAt 0 :=
  splicing.continuation_eq

/-- The images of the live blocks have the ids that follow that of the continuation. -/
theorem block_eq_idAt (agrees : splicing.pass.Agrees σ) {i : Nat} {id : BlockId}
    (at_i : body.liveIds[i]? = some id) : σ.block id = host.scope.graph.idAt (i + 1) := by
  rw [agrees.block _ _ (splicing.carried.carried i id at_i)]
  exact splicing.idAt_opened i

/-- All substitutions that the pass agrees with take a live block to the same image. -/
theorem block_eq_of_agrees {τ : Substitution} (agrees : splicing.pass.Agrees σ)
    (otherAgrees : splicing.pass.Agrees τ) {id : BlockId} (live : id ∈ body.liveIds) :
    σ.block id = τ.block id := by
  rcases List.mem_iff_getElem?.mp live with ⟨i, at_i⟩
  rw [splicing.block_eq_idAt agrees at_i, splicing.block_eq_idAt otherAgrees at_i]

/-! ## Blocks, edges and roles -/

/-- In the other blocks nothing has changed but marks. -/
theorem exists_other_after (wf : host.scope.graph.WellFormed) (bodyWf : body.WellFormed)
    {id : BlockId} {held : Block} (found : host.scope.graph.owned id = .ok held)
    (other : id ≠ block) :
    ∃ live, after.scope.graph.owned id = .ok (held.mark live) := by
  rw [splicing.owned_after wf bodyWf, splicing.other_spliced wf bodyWf found other]
  exact ⟨_, rfl⟩

/-- The blocks of the host are still there, under their labels. -/
theorem exists_owned_after (wf : host.scope.graph.WellFormed) (bodyWf : body.WellFormed)
    {id : BlockId} {held : Block} (found : host.scope.graph.owned id = .ok held) :
    ∃ there, after.scope.graph.owned id = .ok there ∧ there.label = held.label := by
  by_cases atSite : id = block
  · rw [atSite, splicing.found] at found
    obtain rfl := Except.ok.inj found
    rw [atSite, splicing.owned_after wf bodyWf, splicing.site_spliced wf bodyWf]
    exact ⟨_, rfl, rfl⟩
  · rcases splicing.exists_other_after wf bodyWf found atSite with ⟨live, kept⟩
    exact ⟨_, kept, rfl⟩

theorem owns_after (wf : host.scope.graph.WellFormed) (bodyWf : body.WellFormed) {id : BlockId}
    (owns : host.scope.graph.Owns id) : after.scope.graph.Owns id := by
  rcases owns with ⟨held, found⟩
  rcases splicing.exists_owned_after wf bodyWf found with ⟨there, thereFound, -⟩
  exact .of_owned thereFound

/-- Bound labels stay bound. -/
theorem binds_after (wf : host.scope.graph.WellFormed) (bodyWf : body.WellFormed) {label : Label}
    (bound : host.scope.graph.binds label = true) : after.scope.graph.binds label = true := by
  rcases Option.isSome_iff_exists.mp bound with ⟨id, carries⟩
  rcases (wf.labelled label id).mp carries with ⟨held, found, rfl⟩
  rcases splicing.exists_owned_after wf bodyWf found with ⟨there, thereFound, same⟩
  have stays :=
    ((splicing.wellFormed wf bodyWf).labelled held.label id).mpr ⟨there, thereFound, same⟩
  rw [binds, stays]
  rfl

theorem entry_after : after.scope.graph.entry = host.scope.graph.entry := by
  rw [splicing.graph_eq, prunedBy_entry, splicing.entry_graph]

/-- The edges afterwards are those that the seam makes of the edges before, in some order. -/
theorem edges_after (agrees : splicing.pass.Agrees σ) :
    after.scope.graph.edges.Perm ((splicing.seam σ).edges host.scope.graph.edges) := by
  rw [splicing.graph_eq, prunedBy_edges]
  exact splicing.edges_graph agrees

theorem exit_after (σ : Substitution) :
    after.scope.graph.exit = (splicing.seam σ).exit host.scope.graph.exit := by
  rw [splicing.graph_eq, prunedBy_exit]
  exact splicing.exit_seam σ

/-- The sketch afterwards is what the seam makes of the sketch before. -/
theorem sketch_after (wf : host.scope.graph.WellFormed) (bodyWf : body.WellFormed)
    (agrees : splicing.pass.Agrees σ) :
    after.scope.graph.sketch = (splicing.seam σ).blocks host.scope.graph.sketch := by
  have live := splicing.seam_live σ
  have unmarked : ∀ g : Graph, (prunedBy policy g).sketch = g.sketch := by
    intro g
    unfold prunedBy
    split
    · exact sketch_prune
    · rfl
  rw [splicing.graph_eq, unmarked, sketch, splicing.blocks_graph wf bodyWf agrees,
    Seam.blocks_map_mark live.1 live.2]
  rfl

/-- Where nothing is pruned, this holds of the blocks themselves. -/
theorem blocks_after (wf : host.scope.graph.WellFormed) (bodyWf : body.WellFormed)
    (agrees : splicing.pass.Agrees σ)
    (unpruned : policy.prune = false ∨ host.scope.graph.entry = none) :
    after.scope.graph.blocks = (splicing.seam σ).blocks host.scope.graph.blocks := by
  have same : prunedBy policy splicing.graph = splicing.graph := by
    unfold prunedBy
    rcases unpruned with off | absent
    · rw [if_neg (Bool.eq_false_iff.mp off)]
    · split
      · rw [← splicing.entry_graph] at absent
        simp [prune, absent]
      · rfl
  rw [splicing.graph_eq, same, splicing.blocks_graph wf bodyWf agrees]

/-! ## Live blocks -/

/-- The block with the site is among the live blocks of the host, if it is live. -/
theorem held_mem_liveBlocks (wf : host.scope.graph.WellFormed)
    (live : block ∈ host.scope.graph.liveIds) : splicing.held ∈ host.scope.graph.liveBlocks := by
  rcases wf.mem_liveIds_iff.mp live with ⟨held, found, alive⟩
  rw [splicing.found, Except.ok.injEq] at found
  rw [wf.mem_liveBlocks_iff, wf.id_of_owned splicing.found]
  exact ⟨splicing.found, found ▸ alive⟩

/-- Without pruning, the live blocks afterwards are what the seam makes of
the live blocks before. -/
theorem liveBlocks_after (wf : host.scope.graph.WellFormed) (bodyWf : body.WellFormed)
    (agrees : splicing.pass.Agrees σ) (unpruned : policy.prune = false) :
    after.scope.graph.liveBlocks = (splicing.seam σ).blocks host.scope.graph.liveBlocks := by
  have live := splicing.seam_live σ
  rw [liveBlocks, splicing.blocks_after wf bodyWf agrees (.inl unpruned),
    Seam.filter_blocks live.1 live.2]
  rfl

theorem liveIds_after (wf : host.scope.graph.WellFormed) (bodyWf : body.WellFormed)
    (agrees : splicing.pass.Agrees σ) (unpruned : policy.prune = false) :
    after.scope.graph.liveIds =
      host.scope.graph.liveIds ++ report.continuation :: body.liveIds.map σ.block := by
  rw [liveIds, splicing.liveBlocks_after wf bodyWf agrees unpruned, Seam.map_id_blocks,
    splicing.map_id_images]
  rfl

/-- The new blocks come after those that were live before, in the order of their ids. -/
theorem getElem?_liveIds_after (wf : host.scope.graph.WellFormed) (bodyWf : body.WellFormed)
    (unpruned : policy.prune = false) {i : Nat} (below : i < body.liveBlocks.length + 1) :
    after.scope.graph.liveIds[host.scope.graph.liveIds.length + i]? =
      some (host.scope.graph.idAt i) := by
  have agrees := splicing.pass.agrees_substitution
  rw [splicing.liveIds_after wf bodyWf agrees unpruned,
    List.getElem?_append_right (Nat.le_add_right _ _), Nat.add_sub_cancel_left]
  cases i with
  | zero => exact congrArg some splicing.continuation_eq_idAt
  | succ i =>
      have inBody : i < body.liveIds.length := by
        rw [liveIds, List.length_map]
        exact Nat.lt_of_succ_lt_succ below
      have at_i : body.liveIds[i]? = some body.liveIds[i] := List.getElem?_eq_getElem inBody
      rw [List.getElem?_cons_succ, List.getElem?_map, at_i]
      exact congrArg some (splicing.block_eq_idAt agrees at_i)

/-- A body with live ends keeps them when a method is inlined into it. -/
theorem ends_after (wf : host.scope.graph.WellFormed) (bodyWf : body.WellFormed)
    (unpruned : policy.prune = false)
    (bounded : Bounded host.scope.graph) (live : LiveEnds host.scope.graph) :
    Bounded after.scope.graph ∧ LiveEnds after.scope.graph := by
  have agrees := splicing.pass.agrees_substitution
  have ids := splicing.liveIds_after wf bodyWf agrees unpruned
  have stays : ∀ id ∈ host.scope.graph.liveIds, id ∈ after.scope.graph.liveIds := by
    intro id there
    rw [ids]
    exact List.mem_append_left _ there
  have exitAfter : after.scope.graph.exit = if host.scope.graph.exit = some block then
      some report.continuation else host.scope.graph.exit :=
    splicing.exit_after splicing.pass.substitution
  constructor
  · refine ⟨splicing.entry_after ▸ bounded.1, ?_⟩
    rw [exitAfter]
    split
    · rfl
    · exact bounded.2
  · rintro id (role | role)
    · exact stays id (live id (.inl (splicing.entry_after ▸ role)))
    · rw [exitAfter] at role
      split at role
      · obtain rfl := Option.some.inj role
        simp [ids]
      · exact stays id (live id (.inr role))

end Splicing

end FlowIR.Inlining
