import FlowIR.Proofs.Inlining.Decision
import FlowIR.Proofs.Inlining.Outcome

/-!
# Inlining keeps blocks reachable

In the spliced graph every path through the block of the site goes through the body.  A path of
the host is rebuilt by putting a way from the entry of the body to its exit wherever it goes on
from that block; conversely a path of the spliced graph is a path of the host that has been in
the body where it is not in the host.  What is reached afterwards is therefore read off the
host and the body alone.
-/

namespace FlowIR.Inlining

open FlowIR.Graph

/-- The body leads from its entry to its exit. -/
def PassesThrough (body : Graph) : Prop :=
  ∃ exit, body.exit = some exit ∧ exit ∈ body.reachable

/-- The graph has an entry and an exit, and both are reachable. -/
structure ReachableEnds (g : Graph) : Prop where
  entry : ∃ entry, g.entry = some entry ∧ entry ∈ g.reachable
  exit : ∃ exit, g.exit = some exit ∧ exit ∈ g.reachable

theorem mem_reachable_prunedBy_iff {policy : Policy} {g : Graph} (wf : g.WellFormed)
    {id : BlockId} :
    id ∈ (prunedBy policy g).reachable ↔ g.Reaches id := by
  rw [mem_reachable_iff]
  unfold prunedBy
  split
  · exact wf.reaches_prune_iff
  · rfl

namespace Splicing

variable {policy : Policy} {host : Host} {setting : Setting} {rule : Rule} {log : Bool}
  {body : Graph} {block : BlockId} {site : Instr} {report : Report} {after : Host}
  {σ : Substitution}
  (splicing : Splicing host policy setting rule log body block site report after)

include splicing

/-! ## Which blocks are live -/

theorem mem_liveIds_of_host (wf : host.scope.graph.WellFormed) (bodyWf : body.WellFormed)
    {id : BlockId} (live : id ∈ host.scope.graph.liveIds) : id ∈ splicing.graph.liveIds := by
  rcases List.mem_map.mp live with ⟨target, member, rfl⟩
  rcases splicing.exists_live_of_host wf bodyWf member with ⟨held, heldLive, -, same⟩
  exact List.mem_map.mpr ⟨held, heldLive, same⟩

/-- No block of the host comes alive. -/
theorem mem_host_liveIds (wf : host.scope.graph.WellFormed) (bodyWf : body.WellFormed)
    {id : BlockId} (old : host.scope.graph.Owns id) (live : id ∈ splicing.graph.liveIds) :
    id ∈ host.scope.graph.liveIds := by
  rcases old with ⟨before, beforeFound⟩
  rcases (splicing.graph_wellFormed wf bodyWf).mem_liveIds_iff.mp live with ⟨held, found, alive⟩
  apply wf.mem_liveIds_iff.mpr
  refine ⟨before, beforeFound, ?_⟩
  by_cases atSite : id = block
  · subst atSite
    rw [splicing.found] at beforeFound
    obtain rfl := Except.ok.inj beforeFound
    rw [splicing.site_spliced wf bodyWf] at found
    obtain rfl := Except.ok.inj found
    exact alive
  · rw [splicing.other_spliced wf bodyWf beforeFound atSite] at found
    obtain rfl := Except.ok.inj found
    exact alive

theorem mem_liveIds_of_body (wf : host.scope.graph.WellFormed) (bodyWf : body.WellFormed)
    (agrees : splicing.pass.Agrees σ) {id : BlockId} (live : id ∈ body.liveIds) :
    σ.block id ∈ splicing.graph.liveIds := by
  rcases List.mem_map.mp live with ⟨target, member, rfl⟩
  rcases splicing.exists_live_of_body wf bodyWf agrees member with ⟨held, heldLive, -, same⟩
  exact List.mem_map.mpr ⟨held, heldLive, same⟩

theorem continuation_mem_liveIds (wf : host.scope.graph.WellFormed) (bodyWf : body.WellFormed) :
    report.continuation ∈ splicing.graph.liveIds :=
  (splicing.graph_wellFormed wf bodyWf).mem_liveIds_iff.mpr
    ⟨_, splicing.continuation_spliced wf bodyWf, rfl⟩

/-! ## The three kinds of blocks are apart -/

/-- The continuation is none of the blocks that the host had. -/
theorem not_owns_continuation (wf : host.scope.graph.WellFormed) :
    ¬ host.scope.graph.Owns report.continuation := by
  rw [splicing.continuation_eq]
  exact fun old => wf.ne_freshId old rfl

theorem image_mem_blocks (agrees : splicing.pass.Agrees σ) {id : BlockId}
    (live : id ∈ body.liveIds) :
    σ.block id ∈ report.blocks := by
  rw [splicing.blocks_eq_map agrees]
  exact List.mem_map_of_mem live

/-- Neither is the image of a live block of the body. -/
theorem not_owns_image (wf : host.scope.graph.WellFormed) (agrees : splicing.pass.Agrees σ)
    {id : BlockId} (live : id ∈ body.liveIds) : ¬ host.scope.graph.Owns (σ.block id) := by
  rintro ⟨held, found⟩
  have opened : splicing.opened.Owns (σ.block id) := by
    by_cases atSite : σ.block id = block
    · exact ⟨_, (congrArg splicing.opened.owned atSite).trans (splicing.site_opened wf)⟩
    · exact .of_owned (splicing.other_opened wf found atSite)
  exact splicing.not_mem_blocks wf opened (splicing.image_mem_blocks agrees live)

theorem continuation_ne_image (wf : host.scope.graph.WellFormed) (agrees : splicing.pass.Agrees σ)
    {id : BlockId} (live : id ∈ body.liveIds) : σ.block id ≠ report.continuation := by
  intro same
  have member := splicing.image_mem_blocks agrees live
  rw [same] at member
  exact splicing.not_mem_blocks wf (.of_owned (splicing.continuation_opened wf)) member

/-! ## From the host and the body into the spliced graph -/

/-- Paths that do not go on from the block of the site are still there. -/
theorem reaches_of_avoiding (wf : host.scope.graph.WellFormed) (bodyWf : body.WellFormed)
    {id : BlockId} (avoids : host.scope.graph.ReachesAvoiding block id) :
    splicing.graph.Reaches id := by
  induction avoids with
  | entry role live =>
      exact .entry (splicing.entry_graph.trans role) (splicing.mem_liveIds_of_host wf bodyWf live)
  | step _ onward follows live ih =>
      exact .step ih (splicing.mem_successors_other onward follows)
        (splicing.mem_liveIds_of_host wf bodyWf live)

/-- From the block of the site the images of the paths of the body are open. -/
theorem reaches_image (wf : host.scope.graph.WellFormed) (bodyWf : body.WellFormed)
    (agrees : splicing.pass.Agrees σ) (atSite : host.scope.graph.Reaches block) {id : BlockId}
    (inside : body.Reaches id) : splicing.graph.Reaches (σ.block id) := by
  have opened : splicing.graph.Reaches block :=
    splicing.reaches_of_avoiding wf bodyWf (reachesAvoiding_self_iff.mpr atSite)
  induction inside with
  | @entry id role live =>
      have entryEq : report.entry = σ.block id := by
        rw [splicing.entry_role] at role
        rw [← Option.some.inj role]
        exact splicing.entry_eq_block agrees
      rw [← entryEq]
      apply Reaches.step opened splicing.entry_mem_successors
      rw [entryEq]
      exact splicing.mem_liveIds_of_body wf bodyWf agrees live
  | step before follows live ih =>
      exact .step ih (splicing.mem_successors_image agrees before.live live follows)
        (splicing.mem_liveIds_of_body wf bodyWf agrees live)

/-- Where the body leads through, so does the spliced graph. -/
theorem reaches_continuation (wf : host.scope.graph.WellFormed) (bodyWf : body.WellFormed)
    (through : PassesThrough body) (atSite : host.scope.graph.Reaches block) :
    splicing.graph.Reaches report.continuation := by
  rcases through with ⟨exit, role, inside⟩
  rw [mem_reachable_iff] at inside
  have agrees := splicing.pass.agrees_substitution
  rw [splicing.exit_role] at role
  obtain rfl := Option.some.inj role
  have left := splicing.reaches_image wf bodyWf agrees atSite inside
  rw [← splicing.exit_eq_block agrees] at left
  exact .step left splicing.continuation_mem_successors
    (splicing.continuation_mem_liveIds wf bodyWf)

/-- Where the body leads through, the paths of the host are still there. -/
theorem reaches_of_host (wf : host.scope.graph.WellFormed) (bodyWf : body.WellFormed)
    (through : PassesThrough body) {id : BlockId} (reaches : host.scope.graph.Reaches id) :
    splicing.graph.Reaches id := by
  induction reaches with
  | entry role live => exact splicing.reaches_of_avoiding wf bodyWf (.entry role live)
  | @step id next before follows live ih =>
      have nextLive := splicing.mem_liveIds_of_host wf bodyWf live
      by_cases atSite : id = block
      · subst atSite
        exact .step (splicing.reaches_continuation wf bodyWf through before)
          (splicing.mem_successors_continuation follows) nextLive
      · exact .step ih (splicing.mem_successors_other atSite follows) nextLive

end Splicing

/-! ## From the spliced graph back -/

/-- How a block is reached in a graph that comes from a host by putting a body in the place
of a site in `block`. -/
inductive Traced (host body : Graph) (block continuation : BlockId) (σ : Substitution) :
    BlockId → Prop where
  | avoiding {id : BlockId} (avoids : host.ReachesAvoiding block id) :
      Traced host body block continuation σ id
  | through {id : BlockId} (through : PassesThrough body) (reaches : host.Reaches id) :
      Traced host body block continuation σ id
  | continuation (through : PassesThrough body) (atSite : host.Reaches block) :
      Traced host body block continuation σ continuation
  | image {id : BlockId} (atSite : host.Reaches block) (inside : body.Reaches id) :
      Traced host body block continuation σ (σ.block id)

namespace Splicing

variable {policy : Policy} {host : Host} {setting : Setting} {rule : Rule} {log : Bool}
  {body : Graph} {block : BlockId} {site : Instr} {report : Report} {after : Host}
  {σ : Substitution}
  (splicing : Splicing host policy setting rule log body block site report after)

include splicing

/-- A block of the host is reached along the edges of the host. -/
theorem traced_host_iff (wf : host.scope.graph.WellFormed) (agrees : splicing.pass.Agrees σ)
    {id : BlockId} (old : host.scope.graph.Owns id) :
    Traced host.scope.graph body block report.continuation σ id ↔
      host.scope.graph.ReachesAvoiding block id ∨
        PassesThrough body ∧ host.scope.graph.Reaches id := by
  constructor
  · intro traced
    cases traced with
    | avoiding avoids => exact .inl avoids
    | through through reaches => exact .inr ⟨through, reaches⟩
    | continuation => exact absurd old (splicing.not_owns_continuation wf)
    | image _ inside => exact absurd old (splicing.not_owns_image wf agrees inside.live)
  · rintro (avoids | ⟨through, reaches⟩)
    · exact .avoiding avoids
    · exact .through through reaches

theorem traced_continuation_iff (wf : host.scope.graph.WellFormed)
    (agrees : splicing.pass.Agrees σ) :
    Traced host.scope.graph body block report.continuation σ report.continuation ↔
      PassesThrough body ∧ host.scope.graph.Reaches block := by
  have new := splicing.not_owns_continuation wf
  constructor
  · generalize same : report.continuation = id
    intro traced
    rw [same] at new
    cases traced with
    | avoiding avoids => exact absurd (wf.owns_of_mem_liveIds avoids.reaches.live) new
    | through _ reaches => exact absurd (wf.owns_of_mem_liveIds reaches.live) new
    | continuation through atSite => exact ⟨through, atSite⟩
    | image _ inside =>
        exact absurd same.symm (splicing.continuation_ne_image wf agrees inside.live)
  · exact fun ⟨through, atSite⟩ => .continuation through atSite

theorem traced_image_iff (wf : host.scope.graph.WellFormed) (agrees : splicing.pass.Agrees σ)
    {source : BlockId} (live : source ∈ body.liveIds) :
    Traced host.scope.graph body block report.continuation σ (σ.block source) ↔
      host.scope.graph.Reaches block ∧ body.Reaches source := by
  have new := splicing.not_owns_image wf agrees live
  have apart := splicing.continuation_ne_image wf agrees live
  constructor
  · generalize same : σ.block source = id at new apart
    intro traced
    cases traced with
    | avoiding avoids => exact absurd (wf.owns_of_mem_liveIds avoids.reaches.live) new
    | through _ reaches => exact absurd (wf.owns_of_mem_liveIds reaches.live) new
    | continuation => exact absurd rfl apart
    | image atSite inside =>
        rw [splicing.carried.block_inj agrees live inside.live same]
        exact ⟨atSite, inside⟩
  · exact fun ⟨atSite, inside⟩ => .image atSite inside

/-- Where an edge of the spliced graph comes from. -/
theorem edge_cases (agrees : splicing.pass.Agrees σ) {edge : Edge}
    (member : edge ∈ splicing.graph.edges) :
    (edge ∈ host.scope.graph.edges ∧ edge.source ≠ block) ∨
      (∃ old ∈ host.scope.graph.edges, old.source = block ∧
        edge = old.leaving report.continuation) ∨
      (∃ old ∈ body.edges, old.source ∈ body.liveIds ∧ old.destination ∈ body.liveIds ∧
        edge = σ.edge old) ∨
      (edge.source = block ∧ edge.destination = report.entry) ∨
      (edge.source = report.exit ∧ edge.destination = report.continuation) := by
  rw [splicing.edges_eq agrees] at member
  simp only [edgeImages, liveEdges, outgoing, List.mem_append, List.mem_filter, List.mem_map,
    List.mem_cons, List.not_mem_nil, or_false, decide_eq_true_eq] at member
  rcases member with ((kept | ⟨old, ⟨held, atSite⟩, rfl⟩) | ⟨old, ⟨held, live⟩, rfl⟩) | rfl | rfl
  · exact .inl kept
  · exact .inr (.inl ⟨old, held, atSite, rfl⟩)
  · exact .inr (.inr (.inl ⟨old, held, live.1, live.2, rfl⟩))
  · exact .inr (.inr (.inr (.inl ⟨rfl, rfl⟩)))
  · exact .inr (.inr (.inr (.inr ⟨rfl, rfl⟩)))

/-- One step further along an edge of the spliced graph. -/
theorem traced_step (wf : host.scope.graph.WellFormed) (bodyWf : body.WellFormed)
    (agrees : splicing.pass.Agrees σ) {id next : BlockId}
    (before : Traced host.scope.graph body block report.continuation σ id)
    (follows : next ∈ splicing.graph.successors id) (live : next ∈ splicing.graph.liveIds) :
    Traced host.scope.graph body block report.continuation σ next := by
  rcases mem_successors_iff.mp follows with ⟨edge, member, rfl, rfl⟩
  rcases splicing.edge_cases agrees member with ⟨held, onward⟩ | ⟨old, held, atSite, rfl⟩ |
    ⟨old, held, sourceLive, targetLive, rfl⟩ | ⟨leaves, enters⟩ | ⟨leaves, enters⟩
  · -- An edge of another block of the host, which still leaves that block.
    rcases wf.linked edge held with ⟨sourceOld, targetOld⟩
    have hostLive := splicing.mem_host_liveIds wf bodyWf targetOld live
    rcases (splicing.traced_host_iff wf agrees sourceOld).mp before with avoids | ⟨through, reaches⟩
    · exact .avoiding (.step avoids onward (mem_successors_of_mem held) hostLive)
    · exact .through through (.step reaches (mem_successors_of_mem held) hostLive)
  · -- An edge that left the block of the site, and leaves the continuation now.
    have hostLive := splicing.mem_host_liveIds wf bodyWf (wf.linked old held).2 live
    rcases (splicing.traced_continuation_iff wf agrees).mp before with ⟨through, reaches⟩
    exact .through through
      (.step reaches (mem_successors_iff.mpr ⟨old, held, atSite, rfl⟩) hostLive)
  · rcases (splicing.traced_image_iff wf agrees sourceLive).mp before with ⟨atSite, inside⟩
    exact .image atSite (.step inside (mem_successors_of_mem held) targetLive)
  · -- The edge into the body.
    have atSite : host.scope.graph.Reaches block := by
      rw [leaves] at before
      rcases (splicing.traced_host_iff wf agrees (.of_owned splicing.found)).mp before with
        avoids | ⟨-, reaches⟩
      · exact avoids.reaches
      · exact reaches
    rw [enters, splicing.entry_eq_block agrees]
    exact .image atSite (.entry splicing.entry_role (List.mem_of_getElem? splicing.entry_at))
  · -- The edge out of the body.
    rw [leaves, splicing.exit_eq_block agrees] at before
    rcases (splicing.traced_image_iff wf agrees (List.mem_of_getElem? splicing.exit_at)).mp
      before with ⟨atSite, inside⟩
    rw [enters]
    exact .continuation ⟨splicing.exit, splicing.exit_role, mem_reachable_iff.mpr inside⟩ atSite

/-- What is reached in the spliced graph, in terms of the host and the body. -/
theorem reaches_iff_traced (wf : host.scope.graph.WellFormed) (bodyWf : body.WellFormed)
    (agrees : splicing.pass.Agrees σ) {id : BlockId} :
    splicing.graph.Reaches id ↔ Traced host.scope.graph body block report.continuation σ id := by
  constructor
  · intro reaches
    induction reaches with
    | @entry id role live =>
        have hostRole : host.scope.graph.entry = some id := splicing.entry_graph.symm.trans role
        have hostLive := splicing.mem_host_liveIds wf bodyWf (wf.entry_owned id hostRole) live
        exact .avoiding (.entry hostRole hostLive)
    | step _ follows live ih => exact splicing.traced_step wf bodyWf agrees ih follows live
  · intro traced
    cases traced with
    | avoiding avoids => exact splicing.reaches_of_avoiding wf bodyWf avoids
    | through through reaches => exact splicing.reaches_of_host wf bodyWf through reaches
    | continuation through atSite => exact splicing.reaches_continuation wf bodyWf through atSite
    | image atSite inside => exact splicing.reaches_image wf bodyWf agrees atSite inside

theorem mem_reachable_after_iff (wf : host.scope.graph.WellFormed) (bodyWf : body.WellFormed)
    (agrees : splicing.pass.Agrees σ) {id : BlockId} :
    id ∈ after.scope.graph.reachable ↔
      Traced host.scope.graph body block report.continuation σ id := by
  rw [splicing.graph_eq, mem_reachable_prunedBy_iff (splicing.graph_wellFormed wf bodyWf),
    splicing.reaches_iff_traced wf bodyWf agrees]

end Splicing

/-! ## What is reachable after inlining -/

/-- What is reachable in a host after a body was inlined that leads from its entry to its exit: the
blocks that were, the continuation where the block of the site was, and with it the images of the
reachable blocks of the body. -/
structure ReachedThrough (host body : Graph) (block : BlockId) (report : Report) (after : Graph)
    (σ : Substitution) : Prop where
  old_iff : ∀ id, host.Owns id → (id ∈ after.reachable ↔ id ∈ host.reachable)
  continuation_iff : report.continuation ∈ after.reachable ↔ block ∈ host.reachable
  image_iff : ∀ source ∈ body.liveIds,
    (σ.block source ∈ after.reachable ↔ block ∈ host.reachable ∧ source ∈ body.reachable)

section Inlined

variable {policy : Policy} {host : Host} {setting : Setting} {rule : Rule} {log : Bool}
  {body : Graph} {block : BlockId} {site : Instr} {report : Report} {after : Host}
  {σ : Substitution}

theorem Splicing.reachedThrough
    (splicing : Splicing host policy setting rule log body block site report after)
    (wf : host.scope.graph.WellFormed) (bodyWf : body.WellFormed)
    (agrees : splicing.pass.Agrees σ) (through : PassesThrough body) :
    ReachedThrough host.scope.graph body block report after.scope.graph σ where
  old_iff := by
    intro id old
    rw [splicing.mem_reachable_after_iff wf bodyWf agrees, splicing.traced_host_iff wf agrees old,
      mem_reachable_iff]
    constructor
    · rintro (avoids | ⟨-, reaches⟩)
      · exact avoids.reaches
      · exact reaches
    · exact fun reaches => .inr ⟨through, reaches⟩
  continuation_iff := by
    rw [splicing.mem_reachable_after_iff wf bodyWf agrees,
      splicing.traced_continuation_iff wf agrees, mem_reachable_iff]
    exact and_iff_right through
  image_iff := by
    intro source live
    rw [splicing.mem_reachable_after_iff wf bodyWf agrees, splicing.traced_image_iff wf agrees live,
      mem_reachable_iff, mem_reachable_iff]

/-- A host whose ends are reachable keeps them so. -/
theorem Splicing.reachableEnds
    (splicing : Splicing host policy setting rule log body block site report after)
    (wf : host.scope.graph.WellFormed) (bodyWf : body.WellFormed) (through : PassesThrough body)
    (ends : ReachableEnds host.scope.graph) : ReachableEnds after.scope.graph := by
  have reached := splicing.reachedThrough wf bodyWf splicing.pass.agrees_substitution through
  rcases ends with ⟨⟨entry, entryRole, entryReached⟩, exit, exitRole, exitReached⟩
  constructor
  · refine ⟨entry, ?_, (reached.old_iff entry (wf.entry_owned entry entryRole)).mpr entryReached⟩
    rw [splicing.graph_eq, prunedBy_entry, splicing.entry_graph]
    exact entryRole
  · rw [splicing.graph_eq, prunedBy_exit, splicing.exit_graph, ← splicing.graph_eq]
    split
    next atSite =>
      rw [exitRole] at atSite
      rw [Option.some.inj atSite] at exitReached
      exact ⟨report.continuation, rfl, reached.continuation_iff.mpr exitReached⟩
    next =>
      exact ⟨exit, exitRole, (reached.old_iff exit (wf.exit_owned exit exitRole)).mpr exitReached⟩

/-- Reachable ends are live. -/
theorem ReachableEnds.liveEnds {g : Graph} (ends : ReachableEnds g) : LiveEnds g := by
  rcases ends with ⟨⟨entry, entryRole, entryReached⟩, exit, exitRole, exitReached⟩
  rintro id (role | role)
  · rw [entryRole] at role
    exact Option.some.inj role ▸ (mem_reachable_iff.mp entryReached).live
  · rw [exitRole] at role
    exact Option.some.inj role ▸ (mem_reachable_iff.mp exitReached).live

/-- Inlining a body that leads from its entry to its exit keeps what is reachable in the host and
makes the images of the reachable blocks of the body reachable where the block of the site was; a
host with reachable ends keeps them, so that it can be inlined in turn.  Where the body does not
lead through, the blocks of the host that stay reachable are those to which a path leads that does
not go on from the block of the site. -/
theorem inlining_reachability (wf : host.scope.graph.WellFormed) (bodyWf : body.WellFormed)
    (inlined : Inlines policy body block site report host after) :
    ∃ rule σ, Rule.ofSite? site = some rule ∧ BodyImage rule host body report after σ ∧
      (PassesThrough body →
        ReachedThrough host.scope.graph body block report after.scope.graph σ ∧
          (ReachableEnds host.scope.graph →
            ReachableEnds after.scope.graph ∧ InlinedWhereAdmitted after.scope.graph)) ∧
      (¬ PassesThrough body → ∀ id, host.scope.graph.Owns id →
        (id ∈ after.scope.graph.reachable ↔ host.scope.graph.ReachesAvoiding block id)) := by
  rcases inlined.exists_splicing wf bodyWf with ⟨setting, rule, log, ruleEq, ⟨splicing⟩⟩
  have agrees := splicing.pass.agrees_substitution
  refine ⟨rule, _, ruleEq, splicing.bodyImage wf bodyWf agrees, ?_, ?_⟩
  · intro through
    refine ⟨splicing.reachedThrough wf bodyWf agrees through, fun ends => ?_⟩
    have kept := splicing.reachableEnds wf bodyWf through ends
    exact ⟨kept, inlinedWhereAdmitted_of_liveEnds (splicing.wellFormed wf bodyWf) kept.liveEnds⟩
  · intro blocked id old
    rw [splicing.mem_reachable_after_iff wf bodyWf agrees, splicing.traced_host_iff wf agrees old]
    exact or_iff_left fun through => blocked through.1

end Inlined

/-- The sample method leads from its entry to its exit, and the ends of the
sample host are reachable. -/
theorem inlining_reachability_sample :
    sampleHost.scope.graph.WellFormed ∧ sampleMethod.WellFormed ∧ PassesThrough sampleMethod ∧
      ∃ report after σ,
        Inlines samplePolicy sampleMethod ⟨0, 0⟩ sampleCall report sampleHost after ∧
        ReachedThrough sampleHost.scope.graph sampleMethod ⟨0, 0⟩ report after.scope.graph σ ∧
        ReachableEnds after.scope.graph ∧ InlinedWhereAdmitted after.scope.graph := by
  have wf : sampleHost.scope.graph.WellFormed := by decide +kernel
  have methodWf : sampleMethod.WellFormed := by decide +kernel
  have entered : sampleMethod.Reaches ⟨1, 0⟩ := .entry rfl (by decide)
  have passed : sampleMethod.Reaches ⟨1, 1⟩ := .step entered (by decide) (by decide)
  have through : PassesThrough sampleMethod := ⟨⟨1, 1⟩, rfl, mem_reachable_iff.mpr passed⟩
  have started : ⟨0, 0⟩ ∈ sampleHost.scope.graph.reachable :=
    mem_reachable_iff.mpr (.entry rfl (by decide))
  have ends : ReachableEnds sampleHost.scope.graph :=
    ⟨⟨⟨0, 0⟩, rfl, started⟩, ⟨0, 0⟩, rfl, started⟩
  obtain ⟨report, inlined⟩ := HostStep.exists_report
    (inlineMethod samplePolicy sampleMethod ⟨0, 0⟩ sampleCall) sampleHost (by decide +kernel)
  obtain ⟨rule, σ, -, -, whole, -⟩ := inlining_reachability wf methodWf (.inl inlined)
  rcases whole through with ⟨reached, kept⟩
  exact ⟨wf, methodWf, through, report, _, σ, .inl inlined, reached, kept ends⟩

end FlowIR.Inlining
