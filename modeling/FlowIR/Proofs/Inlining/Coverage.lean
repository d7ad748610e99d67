import FlowIR.Proofs.Inlining.HostFrame

/-!
# Exception edges around a site

Opening a block at a site hands every edge that leaves the block to the continuation, exception
edges included, and the block is left with the way into the body alone.  So what follows the site
stays covered by the handlers of the block, and what precedes it does not.
-/

namespace FlowIR.Inlining

open FlowIR.Graph

/-! ## The edges of the two halves -/

section Halves

variable {policy : Policy} {host : Host} {setting : Setting} {rule : Rule} {log : Bool}
  {body : Graph} {block : BlockId} {site : Instr} {report : Report} {after : Host}

namespace Splicing

variable (splicing : Splicing host policy setting rule log body block site report after)

include splicing

/-- The edges that leave a block of the opened host are none of those that were carried over. -/
theorem filter_edgeImages_eq_nil (wf : host.scope.graph.WellFormed) {id : BlockId}
    (owns : splicing.opened.Owns id) :
    (edgeImages splicing.pass.substitution body).filter (·.source = id) = [] := by
  rw [List.filter_eq_nil_iff]
  intro edge member leaves
  rcases splicing.carried.exists_idAt_of_mem splicing.pass.agrees_substitution member with
    ⟨⟨i, -, sourceEq⟩, -⟩
  rw [← of_decide_eq_true leaves, sourceEq] at owns
  exact (splicing.opened_wellFormed wf).not_owns_idAt i owns

/-- The edges that left the block leave the continuation, in their order, and no others do. -/
theorem outgoing_continuation (wf : host.scope.graph.WellFormed) :
    after.scope.graph.outgoing report.continuation =
      (host.scope.graph.outgoing block).map (·.leaving report.continuation) := by
  have owns : splicing.opened.Owns report.continuation :=
    .of_owned (splicing.continuation_opened wf)
  have old : (host.scope.graph.edges.filter (·.source ≠ block)).filter
      (·.source = report.continuation) = [] := by
    rw [List.filter_eq_nil_iff]
    intro edge member leaves
    have source := (wf.linked edge (List.mem_filter.mp member).1).1
    rw [of_decide_eq_true leaves, splicing.continuation_eq] at source
    exact wf.ne_freshId source rfl
  have moved : ((host.scope.graph.outgoing block).map (·.leaving report.continuation)).filter
      (·.source = report.continuation) =
        (host.scope.graph.outgoing block).map (·.leaving report.continuation) := by
    rw [List.filter_eq_self]
    intro edge member
    rcases List.mem_map.mp member with ⟨before, -, rfl⟩
    exact decide_eq_true rfl
  rw [outgoing, splicing.graph_eq, prunedBy_edges,
    splicing.edges_eq splicing.pass.agrees_substitution, List.filter_append, List.filter_append,
    List.filter_append, old, moved, splicing.filter_edgeImages_eq_nil wf owns]
  simp [splicing.block_ne_continuation wf, (splicing.ne_exit wf owns).symm]

/-- The only edge that still leaves the block is the one into the body. -/
theorem outgoing_block (wf : host.scope.graph.WellFormed) :
    after.scope.graph.outgoing block = [⟨block, report.entry, .regular, none⟩] := by
  have owns : splicing.opened.Owns block := .of_owned (splicing.site_opened wf)
  have old : (host.scope.graph.edges.filter (·.source ≠ block)).filter (·.source = block) = [] := by
    rw [List.filter_eq_nil_iff]
    intro edge member
    simpa using (List.mem_filter.mp member).2
  have moved : ((host.scope.graph.outgoing block).map (·.leaving report.continuation)).filter
      (·.source = block) = [] := by
    rw [List.filter_eq_nil_iff]
    intro edge member leaves
    rcases List.mem_map.mp member with ⟨before, -, rfl⟩
    exact splicing.block_ne_continuation wf (of_decide_eq_true leaves).symm
  rw [outgoing, splicing.graph_eq, prunedBy_edges,
    splicing.edges_eq splicing.pass.agrees_substitution, List.filter_append, List.filter_append,
    List.filter_append, old, moved, splicing.filter_edgeImages_eq_nil wf owns]
  simp [(splicing.ne_exit wf owns).symm]

end Splicing

end Halves

/-! ## Coverage -/

/-- The instruction lies in the block `place`, which has all the exception edges that the block had
before, with what was attached to them. -/
def CoveredAt (before : Graph) (block : BlockId) (after : Graph) (place : BlockId)
    (instr : Instr) : Prop :=
  (∃ held, after.owned place = .ok held ∧ instr ∈ held.instrs) ∧
    ∀ edge ∈ before.outgoing block, edge.kind = .exception →
    edge.leaving place ∈ after.outgoing place

/-- All instructions of the block but the site are still covered as the block was, be it there
or in the continuation. -/
def KeepsCoverage (host : Host) (block : BlockId) (site : Instr) (report : Report) (after : Host) :
    Prop :=
  ∀ held, host.scope.graph.owned block = .ok held → ∀ instr ∈ held.instrs, instr ≠ site →
    ∃ place ∈ [block, report.continuation],
      CoveredAt host.scope.graph block after.scope.graph place instr

/-- A host whose only call is covered by a handler, together with the instruction before it. -/
def guardedHost : Host where
  nextLiteral := 0
  scope :=
    { name := "caller", kind := .method, nextTemp := 3
      graph :=
        { ({ id := 0 } : Graph).registerAll
            [{ id := ⟨0, 0⟩, label := ⟨"guarded"⟩
               instrs := [.receiveSelf (.temporary 0), sampleCall, .nop] },
             { id := ⟨0, 1⟩, label := ⟨"handler"⟩ }] with
          edges :=
            [⟨⟨0, 0⟩, ⟨0, 1⟩, .exception, some (.var (.temporary 1))⟩,
             ⟨⟨0, 0⟩, ⟨0, 0⟩, .regular, none⟩]
          entry := some ⟨0, 0⟩
          exit := some ⟨0, 0⟩ } }

/-- The instruction before the call loses its handler. -/
theorem guardedHost_not_keepsCoverage :
    guardedHost.scope.graph.WellFormed ∧ sampleMethod.WellFormed ∧ ∃ report after,
      Inlines samplePolicy sampleMethod ⟨0, 0⟩ sampleCall report guardedHost after ∧
      ¬ KeepsCoverage guardedHost ⟨0, 0⟩ sampleCall report after := by
  have wf : guardedHost.scope.graph.WellFormed := by decide +kernel
  have bodyWf : sampleMethod.WellFormed := by decide +kernel
  obtain ⟨report, inlined⟩ := HostStep.exists_report
    (inlineMethod samplePolicy sampleMethod ⟨0, 0⟩ sampleCall) guardedHost (by decide +kernel)
  rcases Inlines.exists_splicing (.inl inlined) wf bodyWf with ⟨_, _, _, -, ⟨splicing⟩⟩
  refine ⟨wf, bodyWf, report, _, .inl inlined, fun keeps => ?_⟩
  rcases keeps _ rfl (.receiveSelf (.temporary 0)) (by decide) (by decide) with
    ⟨place, member, ⟨held, found, holds⟩, handled⟩
  have handler := handled ⟨⟨0, 0⟩, ⟨0, 1⟩, .exception, some (.var (.temporary 1))⟩ (by decide) rfl
  rcases List.mem_pair.mp member with rfl | rfl
  · -- The block has lost the edge to the handler.
    rw [splicing.outgoing_block wf] at handler
    have kinds : EdgeKind.exception = .regular := congrArg Edge.kind (List.mem_singleton.mp handler)
    exact absurd kinds (by decide)
  · -- The continuation has the edge, but not the instruction.
    have rest : (((HostStep.result (inlineMethod samplePolicy sampleMethod ⟨0, 0⟩ sampleCall)
        guardedHost).1.scope.graph.owned ⟨0, 2⟩).toOption.all
          fun held => .receiveSelf (.temporary 0) ∉ held.instrs) = true := by decide +kernel
    rw [splicing.continuation_eq] at found
    rw [show guardedHost.scope.graph.freshId = ⟨0, 2⟩ from rfl] at found
    rw [found] at rest
    exact of_decide_eq_true rest holds

/-- What inlining makes of the coverage of a block: all that followed the site is covered in the
continuation as the block was, and all that preceded it stays in the block, from which only the
way into the body leads. -/
structure MovesCoverage (host : Host) (block : BlockId) (site : Instr) (report : Report)
    (after : Host) : Prop where
  opened : ∃ held left label pre post, host.scope.graph.owned block = .ok held ∧
    held.instrs = pre ++ [site] ++ post ∧ site ∉ pre ∧
    (∀ instr ∈ post,
      CoveredAt host.scope.graph block after.scope.graph report.continuation instr) ∧
    after.scope.graph.owned block = .ok left ∧ left.instrs = pre ++ [.jump label]
  continuation_edges : after.scope.graph.outgoing report.continuation =
    (host.scope.graph.outgoing block).map (·.leaving report.continuation)
  block_edges : after.scope.graph.outgoing block = [⟨block, report.entry, .regular, none⟩]

/-- Inlining keeps the coverage of what follows the site, whatever edges leave its block and in
whichever way the body is spliced in, and leaves what precedes the site without exception edges. -/
theorem inlining_movesCoverage {policy : Policy} {host : Host} {body : Graph} {block : BlockId}
    {site : Instr} {report : Report} {after : Host} (wf : host.scope.graph.WellFormed)
    (bodyWf : body.WellFormed) (inlined : Inlines policy body block site report host after) :
    MovesCoverage host block site report after := by
  rcases inlined.exists_splicing wf bodyWf with ⟨_, _, _, -, ⟨splicing⟩⟩
  have continuationEdges := splicing.outgoing_continuation wf
  have instrsEq : splicing.held.instrs = splicing.pre ++ [site] ++ splicing.post := by
    rw [splicing.instrs_eq, List.append_assoc]
    rfl
  have covered : ∀ instr ∈ splicing.post,
      CoveredAt host.scope.graph block after.scope.graph report.continuation instr := by
    intro instr member
    refine ⟨⟨_, splicing.continuation_found wf bodyWf, member⟩, fun edge leaves _ => ?_⟩
    rw [continuationEdges]
    exact List.mem_map_of_mem leaves
  have left : after.scope.graph.owned block = .ok
      ((splicing.held.withInstrs (splicing.pre ++ [.jump splicing.entryBlock.label])).mark
        (splicing.held.live && keeps policy splicing.graph block)) := by
    rw [splicing.owned_after wf bodyWf, splicing.site_spliced wf bodyWf]
    rfl
  exact ⟨⟨splicing.held, _, splicing.entryBlock.label, splicing.pre, splicing.post, splicing.found,
    instrsEq, splicing.first, covered, left, rfl⟩, continuationEdges, splicing.outgoing_block wf⟩

theorem inlining_movesCoverage_sample :
    guardedHost.scope.graph.WellFormed ∧ sampleMethod.WellFormed ∧ ∃ report after,
      Inlines samplePolicy sampleMethod ⟨0, 0⟩ sampleCall report guardedHost after ∧
      MovesCoverage guardedHost ⟨0, 0⟩ sampleCall report after := by
  have wf : guardedHost.scope.graph.WellFormed := by decide +kernel
  have bodyWf : sampleMethod.WellFormed := by decide +kernel
  obtain ⟨report, inlined⟩ := HostStep.exists_report
    (inlineMethod samplePolicy sampleMethod ⟨0, 0⟩ sampleCall) guardedHost (by decide +kernel)
  exact ⟨wf, bodyWf, report, _, .inl inlined, inlining_movesCoverage wf bodyWf (.inl inlined)⟩

end FlowIR.Inlining
