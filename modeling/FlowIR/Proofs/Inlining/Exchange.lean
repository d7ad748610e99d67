import FlowIR.Proofs.Inlining.Decision
import FlowIR.Proofs.Inlining.FreshNames

/-!
# Independent requests commute

Two methods that are inlined at calls in different blocks of a host leave the same graph in either
order.  The seams are laid in another order, and what they make up comes from other stretches of the
counters; a relabeling exchanges the stretches.  Where the policy prunes, the first request may mark
blocks as dead that the second one would have kept, but no block is lost that can be reached in the
end: a path in the last graph is, outside of the body that was laid last, a path in the one before.
-/

namespace FlowIR.Inlining

open FlowIR.Graph
open scoped List

/-! ## Blocks that come alive -/

section Alive

variable {policy : Policy} {host : Host} {setting : Setting} {rule : Rule} {log : Bool}
  {body : Graph} {block : BlockId} {site : Instr} {report : Report} {after : Host}
  {σ : Substitution}
  (splicing : Splicing host policy setting rule log body block site report after)

include splicing

/-- A block of the spliced graph is live unless it was dead in the host. -/
theorem Splicing.mem_liveIds_of_alive (wf : host.scope.graph.WellFormed) (bodyWf : body.WellFormed)
    {id : BlockId} (owns : splicing.graph.Owns id)
    (alive : host.scope.graph.Owns id → id ∈ host.scope.graph.liveIds) :
    id ∈ splicing.graph.liveIds := by
  have agrees := splicing.pass.agrees_substitution
  rcases splicing.spliced_cases wf bodyWf agrees owns with
    rfl | rfl | ⟨-, old⟩ | ⟨image, member, rfl⟩
  · exact splicing.mem_liveIds_of_host wf bodyWf (alive (.of_owned splicing.found))
  · exact splicing.continuation_mem_liveIds wf bodyWf
  · exact splicing.mem_liveIds_of_host wf bodyWf (alive old)
  · have listed : image.id ∈ (rule.blocks splicing.pass.substitution host.nextLiteral
        body.liveBlocks).1.map (·.id) := List.mem_map_of_mem member
    rw [Rule.map_id_blocks] at listed
    rcases List.mem_map.mp listed with ⟨source, live, sourceId⟩
    rw [← sourceId]
    exact splicing.mem_liveIds_of_body wf bodyWf agrees (List.mem_map_of_mem live)

end Alive

section Pruned

variable {policy : Policy} {host : Host} {setting : Setting} {rule : Rule} {log : Bool}
  {body : Graph} {block : BlockId} {site : Instr} {report : Report} {after : Host}
  (splicing : Splicing host policy setting rule log body block site report after)

include splicing

/-- Where a host was pruned before, a step along an edge of the spliced graph from a reached block
meets no block that pruning has dropped. -/
theorem Splicing.mem_liveIds_of_step (bodyWf : body.WellFormed) {g : Graph} (wf : g.WellFormed)
    (pruned : host.scope.graph = g.prune.2) {id next : BlockId}
    (reaches : splicing.graph.Reaches id) (follows : next ∈ splicing.graph.successors id)
    (alive : g.Owns next → next ∈ g.liveIds) : next ∈ splicing.graph.liveIds := by
  have hostWf : host.scope.graph.WellFormed := pruned ▸ wf.prune
  have agrees := splicing.pass.agrees_substitution
  have owns : splicing.graph.Owns next := by
    rcases mem_successors_iff.mp follows with ⟨edge, member, -, rfl⟩
    exact ((splicing.graph_wellFormed hostWf bodyWf).linked edge member).2
  apply splicing.mem_liveIds_of_alive hostWf bodyWf owns
  intro old
  have gAlive : next ∈ g.liveIds := by
    apply alive
    rcases old with ⟨held, found⟩
    rw [pruned, wf.owned_prune] at found
    cases before : g.owned next with
    | ok block => exact .of_owned before
    | error fault =>
        rw [before] at found
        contradiction
  have kept : host.scope.graph.Reaches next → next ∈ host.scope.graph.liveIds := Reaches.live
  apply kept
  -- A block of the host that goes on to `next` in the spliced graph is reached in the host.
  have onward : ∀ source, host.scope.graph.Reaches source →
      next ∈ host.scope.graph.successors source →
      host.scope.graph.Reaches next := by
    intro source sourceReaches leads
    rw [pruned] at sourceReaches leads ⊢
    rw [wf.reaches_prune_iff] at sourceReaches ⊢
    rw [successors_prune] at leads
    exact .step sourceReaches leads gAlive
  have traced := (splicing.reaches_iff_traced hostWf bodyWf agrees).mp reaches
  rcases mem_successors_iff.mp follows with ⟨edge, member, rfl, rfl⟩
  rcases splicing.edge_cases agrees member with ⟨held, -⟩ | ⟨before, held, atSite, rfl⟩ |
    ⟨before, -, -, targetLive, rfl⟩ | ⟨-, enters⟩ | ⟨-, enters⟩
  · apply onward edge.source _ (mem_successors_of_mem held)
    rcases (splicing.traced_host_iff hostWf agrees (hostWf.linked edge held).1).mp traced with
      avoids | ⟨-, reached⟩
    · exact avoids.reaches
    · exact reached
  · apply onward block _ (mem_successors_iff.mpr ⟨before, held, atSite, rfl⟩)
    exact ((splicing.traced_continuation_iff hostWf agrees).mp traced).2
  · exact absurd old (splicing.not_owns_image hostWf agrees targetLive)
  · rw [enters, splicing.entry_eq_block agrees] at old
    exact absurd old (splicing.not_owns_image hostWf agrees
      (List.mem_of_getElem? splicing.entry_at))
  · rw [enters] at old
    exact absurd old (splicing.not_owns_continuation hostWf)

end Pruned

/-! ## Both orders -/

section Orders

variable {policy : Policy} {host middle last otherMiddle otherLast : Host}
  {setting otherSetting : Setting} {call otherCall : CallBinding} {log otherLog : Bool}
  {body other : Graph} {block otherBlock : BlockId} {site otherSite : Instr}
  {firstReport secondReport earlyReport lateReport : Report}
  (first : Splicing host policy setting call.rule log body block site firstReport middle)
  (second : Splicing middle policy otherSetting otherCall.rule otherLog other otherBlock otherSite
    secondReport last)
  (early : Splicing host policy otherSetting otherCall.rule otherLog other otherBlock otherSite
    earlyReport otherMiddle)
  (late : Splicing otherMiddle policy setting call.rule log body block site lateReport otherLast)

section Names

variable {floor : Nat} {σ τ σ' τ' : Substitution} {first second early late}

/-- The temporaries of both splicings can be exchanged. -/
theorem exists_vars_exchanging (spread : first.Spread floor 0 σ)
    (spread' : second.Spread floor 1 σ') (lateSpread : late.Spread floor 0 τ)
    (earlySpread : early.Spread floor 1 τ') (temps : last.scope.nextTemp ≤ floor)
    (otherTemps : otherLast.scope.nextTemp ≤ floor) :
    ∃ perm : Equiv.Perm Variable, (∀ v ∈ bodyVars body, perm (σ.var v) = τ.var v) ∧
      (∀ v ∈ bodyVars other, perm (σ'.var v) = τ'.var v) ∧
      ∀ v, perm v ≠ v → ∃ n, v = .temporary n ∧ host.scope.nextTemp ≤ n := by
  obtain ⟨perm, sends, otherSends, moves⟩ := exists_perm_of_families
    spread.var_injective lateSpread.var_injective spread'.var_injective earlySpread.var_injective
    (fun v (_ : v ∈ bodyVars body) w (_ : w ∈ bodyVars other) =>
      spread.var_ne spread' temps (by decide) v w)
    (fun v _ w _ => (earlySpread.var_ne lateSpread otherTemps (by decide) w v).symm)
  refine ⟨perm, sends, otherSends, ?_⟩
  intro v moved
  rcases moves v moved with ⟨source, -, rfl | rfl⟩ | ⟨source, -, rfl | rfl⟩
  · exact spread.var_new (Nat.le_trans second.nextTemp_le temps) source
  · exact early.var_new_before (lateSpread.var_new otherTemps source)
  · exact first.var_new_before (spread'.var_new temps source)
  · exact earlySpread.var_new (Nat.le_trans late.nextTemp_le otherTemps) source

/-- So can their labels. -/
theorem exists_labels_exchanging (wf : host.scope.graph.WellFormed) (bodyWf : body.WellFormed)
    (otherWf : other.WellFormed) (spread : first.Spread floor 0 σ)
    (spread' : second.Spread floor 1 σ') (lateSpread : late.Spread floor 0 τ)
    (earlySpread : early.Spread floor 1 τ') (labels : last.scope.nextLabel ≤ floor)
    (otherLabels : otherLast.scope.nextLabel ≤ floor) :
    ∃ perm : Equiv.Perm Label,
      (∀ label ∈ madeLabels body, perm (first.labelOf σ label) = late.labelOf τ label) ∧
      (∀ label ∈ madeLabels other, perm (second.labelOf σ' label) = early.labelOf τ' label) ∧
      ∀ label, perm label ≠ label →
        host.scope.graph.binds label = false ∧
          ∃ n, label = .numbered n ∧ host.scope.nextLabel ≤ n := by
  obtain ⟨perm, sends, otherSends, moves⟩ := exists_perm_of_families
    spread.label_injective lateSpread.label_injective spread'.label_injective
    earlySpread.label_injective
    (fun label (_ : label ∈ madeLabels body) target (_ : target ∈ madeLabels other) =>
      spread.label_ne spread' labels (by decide) label target)
    (fun label _ target _ =>
      (earlySpread.label_ne lateSpread otherLabels (by decide) target label).symm)
  refine ⟨perm, sends, otherSends, ?_⟩
  intro label moved
  rcases moves label moved with ⟨source, -, rfl | rfl⟩ | ⟨source, -, rfl | rfl⟩
  · exact spread.label_new (Nat.le_trans second.nextLabel_le labels) source
  · exact early.label_new_before wf otherWf (lateSpread.label_new otherLabels source)
  · exact first.label_new_before wf bodyWf (spread'.label_new labels source)
  · exact earlySpread.label_new (Nat.le_trans late.nextLabel_le otherLabels) source

end Names

/-- A relabeling that moves only new names exchanges what the two splicings
make up in either order. -/
theorem exists_exchanging (accounted : host.Accounted) (bodyWf : body.WellFormed)
    (otherWf : other.WellFormed) (nils : body.NilsBelow host.nextLiteral)
    (otherNils : other.NilsBelow host.nextLiteral) (bound : CallBinding.of? site = some call)
    (otherBound : CallBinding.of? otherSite = some otherCall)
    (method : setting.mode = .inlineMethod) (otherMethod : otherSetting.mode = .inlineMethod) :
    ∃ (ρ : Relabeling) (σ τ σ' τ' : Substitution), ρ.Bijective ∧ ρ.MovesOnlyNew host ∧
      Follows ρ σ τ first late ∧ Follows ρ σ' τ' second early := by
  let floor := max (max last.scope.nextTemp last.scope.nextLabel)
    (max otherLast.scope.nextTemp otherLast.scope.nextLabel)
  have temps : last.scope.nextTemp ≤ floor := by omega
  have labels : last.scope.nextLabel ≤ floor := by omega
  have otherTemps : otherLast.scope.nextTemp ≤ floor := by omega
  have otherLabels : otherLast.scope.nextLabel ≤ floor := by omega
  rcases first.exists_spread method 0 (Nat.le_trans second.nextTemp_le temps)
    (Nat.le_trans second.nextLabel_le labels) with ⟨σ, spread⟩
  rcases second.exists_spread otherMethod 1 temps labels with ⟨σ', spread'⟩
  rcases early.exists_spread otherMethod 1 (Nat.le_trans late.nextTemp_le otherTemps)
    (Nat.le_trans late.nextLabel_le otherLabels) with ⟨τ', earlySpread⟩
  rcases late.exists_spread method 0 otherTemps otherLabels with ⟨τ, lateSpread⟩
  obtain ⟨vars, sendsVars, otherVars, movesVars⟩ :=
    exists_vars_exchanging spread spread' lateSpread earlySpread temps otherTemps
  obtain ⟨labelPerm, sendsLabels, otherSendsLabels, movesLabels⟩ :=
    exists_labels_exchanging accounted.wellFormed bodyWf otherWf spread spread' lateSpread
      earlySpread labels otherLabels
  have ids : Function.Injective host.scope.graph.idAt := fun _ _ same => idAt_inj.mp same
  have numbers : Function.Injective (host.nextLiteral + ·) :=
    fun _ _ same => Nat.add_left_cancel same
  obtain ⟨blocks, sendsBlocks, otherBlocks, movesBlocks⟩ :=
    exists_perm_exchanging ids (body.liveBlocks.length + 1) (other.liveBlocks.length + 1)
  obtain ⟨literals, sendsLiterals, otherLiterals, movesLiterals⟩ :=
    exists_perm_exchanging numbers (call.nilsOf body.liveBlocks) (otherCall.nilsOf other.liveBlocks)
  let ρ : Relabeling := ⟨blocks, vars, labelPerm, literals⟩
  have new : ρ.MovesOnlyNew host := by
    refine ⟨?_, movesVars, movesLabels, ?_⟩
    · intro id moved
      rcases movesBlocks id moved with ⟨i, -, same⟩
      exact ⟨i, same⟩
    · intro id moved
      rcases movesLiterals id moved with ⟨k, -, rfl⟩
      exact Nat.le_add_right _ _
  have siteStays : ρ.instr site = site :=
    new.instr_eq accounted first.found (by simp [first.instrs_eq])
  have otherSiteStays : ρ.instr otherSite = otherSite :=
    new.instr_eq accounted early.found (by simp [early.instrs_eq])
  refine ⟨ρ, σ, τ, σ', τ', ⟨blocks.bijective, vars.bijective, labelPerm.bijective,
    literals.bijective⟩,
    new, ?_, ?_⟩
  · refine spread.follows lateSpread (CallBinding.relabel_eq_self bound siteStays) ?_ sendsVars
      sendsLabels ?_ ?_
    · intro i below
      rw [early.idAt_after]
      exact sendsBlocks i below
    · exact fun id mentioned => new.literal_eq (nils _ (mem_mentions_of_live mentioned) rfl)
    · intro k below
      rw [early.nextLiteral_after, Nat.add_assoc]
      exact sendsLiterals k below
  · refine spread'.follows earlySpread (CallBinding.relabel_eq_self otherBound otherSiteStays) ?_
      otherVars otherSendsLabels ?_ ?_
    · intro i below
      rw [first.idAt_after]
      exact otherBlocks i below
    · exact fun id mentioned => new.literal_eq (otherNils _ (mem_mentions_of_live mentioned) rfl)
    · intro k below
      rw [first.nextLiteral_after, Nat.add_assoc]
      exact otherLiterals k below

/-! ### What can be reached -/

include first in
/-- No block of the host comes alive on the way. -/
theorem mem_host_liveIds_of_second (wf : host.scope.graph.WellFormed) (bodyWf : body.WellFormed)
    (otherWf : other.WellFormed) {id : BlockId} (old : host.scope.graph.Owns id)
    (live : id ∈ second.graph.liveIds) : id ∈ host.scope.graph.liveIds := by
  have middleLive := second.mem_host_liveIds (first.wellFormed wf bodyWf) otherWf
    (first.owns_after wf bodyWf old) live
  rw [first.graph_eq, mem_liveIds_prunedBy_iff (first.graph_wellFormed wf bodyWf)] at middleLive
  exact first.mem_host_liveIds wf bodyWf old middleLive.1

include first early in
/-- Where edges lead from image to image and the host stays, paths in the one order lead to
paths in the other one. -/
theorem reaches_of_reaches (prunes : policy.prune = true) (wf : host.scope.graph.WellFormed)
    (bodyWf : body.WellFormed) (otherWf : other.WellFormed) {image : BlockId → BlockId}
    (stays : ∀ id, host.scope.graph.Owns id → image id = id)
    (old : ∀ id, host.scope.graph.Owns (image id) → image id = id)
    (leads : ∀ edge ∈ second.graph.edges,
      image edge.destination ∈ late.graph.successors (image edge.source))
    {id : BlockId} (reaches : second.graph.Reaches id) : late.graph.Reaches (image id) := by
  have pruned : otherMiddle.scope.graph = early.graph.prune.2 := by
    rw [early.graph_eq, prunedBy, if_pos prunes]
  have earlyWf := early.graph_wellFormed wf otherWf
  induction reaches with
  | @entry id role live =>
      have hostRole : host.scope.graph.entry = some id := by
        rw [← first.entry_after, ← second.entry_graph]
        exact role
      have owns := wf.entry_owned id hostRole
      have hostLive := mem_host_liveIds_of_second first second wf bodyWf otherWf owns live
      have reached : early.graph.Reaches id :=
        .entry (early.entry_graph.trans hostRole) (early.mem_liveIds_of_host wf otherWf hostLive)
      rw [stays id owns]
      apply Reaches.entry (late.entry_graph.trans (early.entry_after.trans hostRole))
      apply late.mem_liveIds_of_host (early.wellFormed wf otherWf) bodyWf
      rw [pruned]
      exact (earlyWf.reaches_prune_iff.mpr reached).live
  | @step id next _ follows live ih =>
      rcases mem_successors_iff.mp follows with ⟨edge, member, rfl, rfl⟩
      have onward := leads edge member
      refine .step ih onward ?_
      apply late.mem_liveIds_of_step bodyWf earlyWf pruned ih onward
      intro owns
      apply early.mem_liveIds_of_alive wf otherWf owns
      intro hostOwns
      have same := old _ hostOwns
      rw [same] at hostOwns ⊢
      exact mem_host_liveIds_of_second first second wf bodyWf otherWf hostOwns live

/-! ### The last graphs -/

/-- Two splicings at one site of blocks with the same instructions, which the relabeling
leaves alone, correspond. -/
theorem Follows.seam_eq_of_same {ρ : Relabeling} {σ τ : Substitution}
    {first : Splicing host policy setting call.rule log body block site firstReport middle}
    {again : Splicing otherMiddle policy setting call.rule log body block site lateReport otherLast}
    (follows : Follows ρ σ τ first again) (wf : host.scope.graph.WellFormed)
    (otherWf : otherMiddle.scope.graph.WellFormed) (bodyWf : body.WellFormed)
    (opened : ρ.block block = block) (same : again.held.instrs = first.held.instrs)
    (stays : ∀ instr ∈ first.held.instrs, ρ.instr instr = instr) :
    (first.seam σ).relabel ρ = again.seam τ := by
  obtain ⟨pre, post⟩ := first.map_parts again same stays
  exact follows.seam_eq wf otherWf bodyWf opened pre post

section Exchange

variable {ρ : Relabeling} {σ τ σ' τ' : Substitution} {first second early late}
  (follows : Follows ρ σ τ first late) (follows' : Follows ρ σ' τ' second early)
  (new : ρ.MovesOnlyNew host) (accounted : host.Accounted) (bodyWf : body.WellFormed)
  (otherWf : other.WellFormed) (apart : block ≠ otherBlock)

include follows follows' accounted otherWf apart

/-- The seams of the one order spare each other's blocks. -/
theorem exchange_spares :
    (late.seam τ).Spares (early.seam τ').site ∧ (early.seam τ').Spares (late.seam τ).site := by
  have wf := accounted.wellFormed
  constructor
  · apply late.seam_spares (early.wellFormed wf otherWf) follows.otherAgrees _ apart
    exact early.owns_after wf otherWf (.of_owned early.found)
  · exact early.seam_spares wf follows'.otherAgrees (.of_owned first.found) apart.symm

include new bodyWf

/-- The relabeling makes the seams of the one order those of the other one. -/
theorem exchange_seams :
    (first.seam σ).relabel ρ = late.seam τ ∧ (second.seam σ').relabel ρ = early.seam τ' := by
  have wf := accounted.wellFormed
  have middleWf := first.wellFormed wf bodyWf
  have otherMiddleWf := early.wellFormed wf otherWf
  constructor
  · obtain ⟨live, found⟩ := early.exists_other_after wf otherWf first.found apart
    rw [late.found, Except.ok.injEq] at found
    apply follows.seam_eq_of_same wf otherMiddleWf bodyWf (new.block_eq wf (.of_owned first.found))
    · rw [found]
      rfl
    · exact fun _ member => new.instr_eq accounted first.found member
  · obtain ⟨live, found⟩ := first.exists_other_after wf bodyWf early.found apart.symm
    rw [second.found, Except.ok.injEq] at found
    apply follows'.seam_eq_of_same middleWf wf otherWf (new.block_eq wf (.of_owned early.found))
    · rw [found]
      rfl
    · rw [found]
      exact fun _ member => new.instr_eq accounted early.found member

/-- The edges in the end are the same. -/
theorem exchange_edges (bijective : ρ.Bijective) :
    (last.scope.graph.edges.map ρ.edge).Perm otherLast.scope.graph.edges := by
  obtain ⟨seam, otherSeam⟩ := exchange_seams follows follows' new accounted bodyWf otherWf apart
  obtain ⟨spares, otherSpares⟩ := exchange_spares follows follows' accounted otherWf apart
  have injective := bijective.block.injective
  have stays : host.scope.graph.edges.map ρ.edge = host.scope.graph.edges :=
    map_eq_self fun _ member => new.edge_eq accounted member
  calc last.scope.graph.edges.map ρ.edge
    _ ~ ((second.seam σ').edges ((first.seam σ).edges host.scope.graph.edges)).map ρ.edge :=
        ((second.edges_after follows'.agrees).trans
          (Seam.edges_perm _ (first.edges_after follows.agrees))).map _
    _ = (early.seam τ').edges ((late.seam τ).edges host.scope.graph.edges) := by
        rw [← Seam.relabel_edges injective, ← Seam.relabel_edges injective, seam, otherSeam, stays]
    _ ~ (late.seam τ).edges ((early.seam τ').edges host.scope.graph.edges) :=
        Seam.edges_exchange spares otherSpares _
    _ ~ otherLast.scope.graph.edges :=
        ((late.edges_after follows.otherAgrees).trans
          (Seam.edges_perm _ (early.edges_after follows'.otherAgrees))).symm

/-- The exit in the end is the same. -/
theorem exchange_exit (bijective : ρ.Bijective) :
    otherLast.scope.graph.exit = last.scope.graph.exit.map ρ.block := by
  obtain ⟨seam, otherSeam⟩ := exchange_seams follows follows' new accounted bodyWf otherWf apart
  obtain ⟨spares, otherSpares⟩ := exchange_spares follows follows' accounted otherWf apart
  have injective := bijective.block.injective
  have stays : host.scope.graph.exit.map ρ.block = host.scope.graph.exit := by
    cases role : host.scope.graph.exit with
    | none => rfl
    | some id =>
      exact congrArg some (new.block_eq accounted.wellFormed
        (accounted.wellFormed.exit_owned id role))
  rw [late.exit_after τ, early.exit_after τ', ← Seam.exit_exchange spares otherSpares, ← seam,
    ← otherSeam, second.exit_after σ', first.exit_after σ, ← stays, Seam.relabel_exit injective,
    Seam.relabel_exit injective, stays]

/-- So are the blocks that the seams make of those of the host, or of their sketches. -/
theorem exchange_blocks (bijective : ρ.Bijective) {blocks : List Block}
    (stays : blocks.map ρ.ofBlock = blocks) :
    (((second.seam σ').blocks ((first.seam σ).blocks blocks)).map ρ.ofBlock).Perm
      ((late.seam τ).blocks ((early.seam τ').blocks blocks)) := by
  obtain ⟨seam, otherSeam⟩ := exchange_seams follows follows' new accounted bodyWf otherWf apart
  obtain ⟨spares, otherSpares⟩ := exchange_spares follows follows' accounted otherWf apart
  have injective := bijective.block.injective
  rw [← Seam.relabel_blocks injective, ← Seam.relabel_blocks injective, seam, otherSeam, stays]
  exact Seam.blocks_exchange spares otherSpares _

/-- A block is reached in the one order when what it becomes is in the other one. -/
theorem exchange_reaches (bijective : ρ.Bijective) (prunes : policy.prune = true) (id : BlockId) :
    late.graph.Reaches (ρ.block id) ↔ second.graph.Reaches id := by
  have wf := accounted.wellFormed
  have injective := bijective.block.injective
  have edges : (second.graph.edges.map ρ.edge).Perm late.graph.edges := by
    have whole := exchange_edges follows follows' new accounted bodyWf otherWf apart bijective
    rwa [second.graph_eq, late.graph_eq, prunedBy_edges, prunedBy_edges] at whole
  have fixed : ∀ id, host.scope.graph.Owns id → ρ.block id = id :=
    fun _ owns => new.block_eq wf owns
  let image := Equiv.ofBijective ρ.block bijective.block
  constructor
  · intro reaches
    rw [← image.symm_apply_apply id]
    apply reaches_of_reaches early late first second prunes wf otherWf bodyWf _ _ _ reaches
    · intro id owns
      exact image.symm_apply_eq.mpr (fixed id owns).symm
    · intro id owns
      exact (fixed _ owns).symm.trans (image.apply_symm_apply id)
    · intro edge member
      rcases List.mem_map.mp (edges.mem_iff.mpr member) with ⟨before, held, rfl⟩
      have ends : ∀ id, image.symm (ρ.block id) = id := image.symm_apply_apply
      simp only [Relabeling.edge, ends]
      exact mem_successors_of_mem held
  · intro reaches
    apply reaches_of_reaches first second early late prunes wf bodyWf otherWf fixed _ _ reaches
    · exact fun id owns => injective (fixed _ owns)
    · exact fun edge member => mem_successors_of_mem (edges.mem_iff.mp (List.mem_map_of_mem member))

/-- The last graph of the one order, with its names replaced, is that of the other one. -/
theorem exchange_matches (bijective : ρ.Bijective) :
    ρ.Matches last.scope.graph otherLast.scope.graph := by
  have wf := accounted.wellFormed
  have middleWf := first.wellFormed wf bodyWf
  have otherMiddleWf := early.wellFormed wf otherWf
  have lastWf := second.wellFormed middleWf otherWf
  have otherLastWf := late.wellFormed otherMiddleWf bodyWf
  have fixed : ∀ block ∈ host.scope.graph.blocks, ρ.ofBlock block = block :=
    fun _ member => new.ofBlock_eq accounted member
  have blocks : (last.scope.graph.blocks.map ρ.ofBlock).Perm otherLast.scope.graph.blocks := by
    by_cases unpruned : policy.prune = false ∨ host.scope.graph.entry = none
    · have afterwards : policy.prune = false ∨ middle.scope.graph.entry = none :=
        first.entry_after ▸ unpruned
      have otherAfterwards : policy.prune = false ∨ otherMiddle.scope.graph.entry = none :=
        early.entry_after ▸ unpruned
      rw [second.blocks_after middleWf otherWf follows'.agrees afterwards,
        first.blocks_after wf bodyWf follows.agrees unpruned,
        late.blocks_after otherMiddleWf bodyWf follows.otherAgrees otherAfterwards,
        early.blocks_after wf otherWf follows'.otherAgrees unpruned]
      exact exchange_blocks follows follows' new accounted bodyWf otherWf apart bijective
        (map_eq_self fixed)
    · obtain ⟨pruning, entry⟩ := not_or.mp unpruned
      have prunes : policy.prune = true := by simpa using pruning
      apply Relabeling.blocks_of_sketches lastWf otherLastWf
      · rw [second.sketch_after middleWf otherWf follows'.agrees,
          first.sketch_after wf bodyWf follows.agrees,
          late.sketch_after otherMiddleWf bodyWf follows.otherAgrees,
          early.sketch_after wf otherWf follows'.otherAgrees]
        apply exchange_blocks follows follows' new accounted bodyWf otherWf apart bijective
        rw [sketch, List.map_map]
        apply List.map_congr_left
        intro block member
        exact congrArg (·.mark true) (fixed block member)
      · intro id _
        have reached : id ∈ last.scope.graph.liveIds ↔ second.graph.Reaches id := by
          rw [second.graph_eq]
          apply mem_liveIds_prunedBy_of_prune (second.graph_wellFormed middleWf otherWf) prunes
          rwa [second.entry_graph, first.entry_after]
        have otherReached : ρ.block id ∈ otherLast.scope.graph.liveIds ↔
            late.graph.Reaches (ρ.block id) := by
          rw [late.graph_eq]
          apply mem_liveIds_prunedBy_of_prune (late.graph_wellFormed otherMiddleWf bodyWf) prunes
          rwa [late.entry_graph, early.entry_after]
        rw [reached, otherReached]
        exact exchange_reaches follows follows' new accounted bodyWf otherWf apart bijective
          prunes id
  refine ⟨?_, ?_, blocks, ?_, ?_, ?_, ?_⟩
  · rw [late.id_after, early.id_after, second.id_after, first.id_after]
  · rw [late.nextIndex_after, early.nextIndex_after, second.nextIndex_after, first.nextIndex_after]
    omega
  · exact Relabeling.byLabel?_of_blocks lastWf otherLastWf bijective.label.injective blocks
  · exact exchange_edges follows follows' new accounted bodyWf otherWf apart bijective
  · rw [late.entry_after, early.entry_after, second.entry_after, first.entry_after]
    cases role : host.scope.graph.entry with
    | none => rfl
    | some id => exact congrArg some (new.block_eq wf (wf.entry_owned id role)).symm
  · exact exchange_exit follows follows' new accounted bodyWf otherWf apart bijective

end Exchange

end Orders

/-! ## Two requests -/

section Requests

variable {policy : Policy} {host last : Host} {body other : Graph} {block otherBlock : BlockId}
  {site otherSite : Instr}

/-- Two methods are inlined, one after the other. -/
def InlinesBoth (policy : Policy) (body : Graph) (block : BlockId) (site : Instr) (other : Graph)
    (otherBlock : BlockId) (otherSite : Instr) (host last : Host) : Prop :=
  ∃ report middle otherReport,
    inlineMethod policy body block site host = .ok (.inlined report) middle ∧
    inlineMethod policy other otherBlock otherSite middle = .ok (.inlined otherReport) last

/-- A request that could be carried out still can after one at another block. -/
theorem exists_inlinesBoth (wf : host.scope.graph.WellFormed) (bodyWf : body.WellFormed)
    (otherWf : other.WellFormed) (apart : block ≠ otherBlock)
    (inlines : ∃ report after,
      inlineMethod policy body block site host = .ok (.inlined report) after)
    (otherInlines : ∃ report after,
      inlineMethod policy other otherBlock otherSite host = .ok (.inlined report) after) :
    ∃ last, InlinesBoth policy body block site other otherBlock otherSite host last := by
  rcases inlines with ⟨report, middle, run⟩
  rcases (ensures_inlineMethod wf bodyWf).of_ok run with ⟨-, call, -, ⟨splicing⟩⟩
  obtain ⟨bound, admitted, live⟩ := (exists_inlineMethod_inlined_iff wf otherWf).mp otherInlines
  rcases admitted.offers with ⟨held, found, holds⟩
  obtain ⟨mark, kept⟩ := splicing.exists_other_after wf bodyWf found apart.symm
  have still : Admitted policy middle other otherBlock otherSite :=
    ⟨admitted.bounded, admitted.fits, _, kept, holds⟩
  have middleWf := splicing.wellFormed wf bodyWf
  obtain ⟨otherReport, last, otherRun⟩ :=
    (exists_inlineMethod_inlined_iff middleWf otherWf).mpr ⟨bound, still, live⟩
  exact ⟨last, report, middle, otherReport, run, otherRun⟩

/-- Methods that can be inlined at calls in different blocks of a host can be inlined one after
the other in either order.  The last graphs differ in the order of blocks and edges and in names
that are new to the host. -/
theorem inlineMethod_exchange (accounted : host.Accounted) (bodyWf : body.WellFormed)
    (otherWf : other.WellFormed) (nils : body.NilsBelow host.nextLiteral)
    (otherNils : other.NilsBelow host.nextLiteral) (apart : block ≠ otherBlock)
    (inlines : ∃ report after,
      inlineMethod policy body block site host = .ok (.inlined report) after)
    (otherInlines : ∃ report after,
      inlineMethod policy other otherBlock otherSite host = .ok (.inlined report) after) :
    ∃ last otherLast, ∃ ρ : Relabeling,
      InlinesBoth policy body block site other otherBlock otherSite host last ∧
      InlinesBoth policy other otherBlock otherSite body block site host otherLast ∧
      ρ.Bijective ∧ ρ.MovesOnlyNew host ∧ ρ.Matches last.scope.graph otherLast.scope.graph := by
  have wf := accounted.wellFormed
  obtain ⟨last, both⟩ := exists_inlinesBoth wf bodyWf otherWf apart inlines otherInlines
  obtain ⟨otherLast, otherBoth⟩ :=
    exists_inlinesBoth wf otherWf bodyWf apart.symm otherInlines inlines
  obtain ⟨firstReport, middle, secondReport, run, runSecond⟩ := id both
  obtain ⟨earlyReport, otherMiddle, lateReport, runEarly, runLate⟩ := id otherBoth
  rcases (ensures_inlineMethod wf bodyWf).of_ok run with ⟨-, call, bound, ⟨first⟩⟩
  rcases (ensures_inlineMethod wf otherWf).of_ok runEarly with ⟨-, otherCall, otherBound, ⟨early⟩⟩
  rcases (ensures_inlineMethod (first.wellFormed wf bodyWf) otherWf).of_ok runSecond with
    ⟨-, _, again, ⟨second⟩⟩
  rcases (ensures_inlineMethod (early.wellFormed wf otherWf) bodyWf).of_ok runLate with
    ⟨-, _, otherAgain, ⟨late⟩⟩
  rw [otherBound, Option.some.injEq] at again
  rw [bound, Option.some.injEq] at otherAgain
  subst again otherAgain
  obtain ⟨ρ, σ, τ, σ', τ', bijective, new, follows, follows'⟩ :=
    exists_exchanging first second early late accounted bodyWf otherWf nils otherNils bound
      otherBound rfl rfl
  exact ⟨last, otherLast, ρ, both, otherBoth, bijective, new,
    exchange_matches follows follows' new accounted bodyWf otherWf apart bijective⟩

/-- A host with a call in each of its two blocks. -/
def twoCallsHost : Host where
  nextLiteral := 5
  scope :=
    { name := "caller", kind := .method, nextTemp := 3
      graph :=
        { ({ id := 0 } : Graph).registerAll
            [{ id := ⟨0, 0⟩, label := ⟨"start"⟩, instrs := [.nop, sampleCall] },
             { id := ⟨0, 1⟩, label := ⟨"again"⟩, instrs := [sampleCall, sampleYield] }] with
          edges := [⟨⟨0, 0⟩, ⟨0, 1⟩, .regular, none⟩, ⟨⟨0, 1⟩, ⟨0, 0⟩, .regular, none⟩]
          entry := some ⟨0, 0⟩
          exit := some ⟨0, 1⟩ } }

theorem inlineMethod_exchange_sample :
    ∃ last otherLast, ∃ ρ : Relabeling,
      InlinesBoth { samplePolicy with prune := true } sampleMethod ⟨0, 0⟩ sampleCall sampleMethod
        ⟨0, 1⟩ sampleCall twoCallsHost last ∧
      InlinesBoth { samplePolicy with prune := true } sampleMethod ⟨0, 1⟩ sampleCall sampleMethod
        ⟨0, 0⟩ sampleCall twoCallsHost otherLast ∧
      ρ.Bijective ∧ ρ.MovesOnlyNew twoCallsHost ∧
      ρ.Matches last.scope.graph otherLast.scope.graph := by
  have accounted : twoCallsHost.Accounted :=
    ⟨by decide +kernel, by decide +kernel, by decide +kernel, by unfold NilsBelow; decide +kernel⟩
  have methodWf : sampleMethod.WellFormed := by decide +kernel
  have nils : sampleMethod.NilsBelow twoCallsHost.nextLiteral := by
    unfold NilsBelow
    decide +kernel
  obtain ⟨report, inlined⟩ := HostStep.exists_report
    (inlineMethod { samplePolicy with prune := true } sampleMethod ⟨0, 0⟩ sampleCall) twoCallsHost
    (by decide +kernel)
  obtain ⟨otherReport, otherInlined⟩ := HostStep.exists_report
    (inlineMethod { samplePolicy with prune := true } sampleMethod ⟨0, 1⟩ sampleCall) twoCallsHost
    (by decide +kernel)
  exact inlineMethod_exchange accounted methodWf methodWf nils nils (by decide) ⟨_, _, inlined⟩
    ⟨_, _, otherInlined⟩

end Requests

end FlowIR.Inlining
