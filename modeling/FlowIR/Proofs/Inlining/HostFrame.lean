import FlowIR.Proofs.Inlining.Outcome
import FlowIR.Proofs.Inlining.Transformations

/-!
# What inlining leaves of the host

Inlining replaces one occurrence of the site by a way through the body.  The instructions on both
sides of it, all other blocks and all edges stay, each in its place; the edges that left the block
of the site leave the continuation.
-/

namespace FlowIR.Inlining

/-- A block stands in a graph as given, and after the pruning that a policy asks for it is the same
but for being dead where the pruning drops it. -/
structure Remains (policy : Policy) (spliced : Graph) (block : Block) : Prop where
  before : spliced.owned block.id = .ok block
  after : (prunedBy policy spliced).owned block.id =
    .ok (block.mark (block.live && keeps policy spliced block.id))

/-- What inlining a body at a site leaves of a host and adds to its edges and roles, before and
after the pruning at the end. -/
structure HostFrame (policy : Policy) (host : Host) (body : Graph) (block : BlockId) (site : Instr)
    (report : Report) (spliced : Graph) (σ : Substitution) : Prop where
  /-- The block keeps what precedes the first occurrence of the site and jumps to the entry of the
  body; the continuation holds what follows the site. -/
  opened : ∃ held entry continuation pre post,
    host.scope.graph.owned block = .ok held ∧ held.instrs = pre ++ [site] ++ post ∧ site ∉ pre ∧
    spliced.owned report.entry = .ok entry ∧
    Remains policy spliced (held.withInstrs (pre ++ [.jump entry.label])) ∧
    continuation.id = report.continuation ∧ continuation.instrs = post ∧
    Remains policy spliced continuation
  /-- The other blocks of the host are as before. -/
  others : ∀ id held, host.scope.graph.owned id = .ok held → id ≠ block →
    Remains policy spliced held
  edges_eq : (prunedBy policy spliced).edges =
    host.scope.graph.edges.filter (·.source ≠ block) ++
    (host.scope.graph.outgoing block).map (·.leaving report.continuation) ++
    edgeImages σ body ++
    [⟨block, report.entry, .regular, none⟩, ⟨report.exit, report.continuation, .regular, none⟩]
  entry_eq : (prunedBy policy spliced).entry = host.scope.graph.entry
  exit_eq : (prunedBy policy spliced).exit =
    if host.scope.graph.exit = some block then some report.continuation
    else host.scope.graph.exit

section Frame

variable {policy : Policy} {host : Host} {setting : Setting} {rule : Rule} {log : Bool}
  {body : Graph} {block : BlockId} {site : Instr} {report : Report} {after : Host}
  {σ : Substitution}

/-- A block of the spliced graph remains when the policy has it pruned. -/
theorem Splicing.remains
    (splicing : Splicing host policy setting rule log body block site report after)
    (wf : host.scope.graph.WellFormed) (bodyWf : body.WellFormed) {held : Block}
    (found : splicing.graph.owned held.id = .ok held) : Remains policy splicing.graph held where
  before := found
  after := by
    rw [owned_prunedBy (splicing.graph_wellFormed wf bodyWf), found]
    rfl

theorem Splicing.hostFrame
    (splicing : Splicing host policy setting rule log body block site report after)
    (wf : host.scope.graph.WellFormed) (bodyWf : body.WellFormed)
    (agrees : splicing.pass.Agrees σ) :
    HostFrame policy host body block site report splicing.graph σ where
  opened := by
    have heldId : splicing.held.id = block := wf.id_of_owned splicing.found
    obtain ⟨entry, entryFound, labelEq⟩ : ∃ entry,
        splicing.graph.owned report.entry = .ok entry ∧
          entry.label = splicing.entryBlock.label := by
      rw [splicing.owned_graph wf bodyWf, splicing.entry_owned]
      exact ⟨_, rfl, rfl⟩
    refine ⟨splicing.held, entry,
      { id := report.continuation, label := splicing.continuationLabel, instrs := splicing.post },
      splicing.pre, splicing.post, splicing.found, ?_, splicing.first, entryFound, ?_, rfl, rfl, ?_⟩
    · rw [splicing.instrs_eq, List.append_assoc]
      rfl
    · rw [labelEq]
      apply splicing.remains wf bodyWf
      rw [Block.withInstrs_id, heldId]
      exact splicing.site_spliced wf bodyWf
    · apply splicing.remains wf bodyWf
      exact splicing.continuation_spliced wf bodyWf
  others := by
    intro id held found other
    apply splicing.remains wf bodyWf
    rw [wf.id_of_owned found]
    exact splicing.other_spliced wf bodyWf found other
  edges_eq := by
    rw [prunedBy_edges]
    exact splicing.edges_eq agrees
  entry_eq := by
    rw [prunedBy_entry]
    exact splicing.entry_graph
  exit_eq := by
    rw [prunedBy_exit]
    exact splicing.exit_graph

/-- Inlining a method or a closure ends with the pruning that the policy asks for.  Before, the host
is as it was around the site, and the body stands in it as its image under the substitution that
carried the edges of the body over. -/
theorem inlining_hostFrame (wf : host.scope.graph.WellFormed) (bodyWf : body.WellFormed)
    (inlined : Inlines policy body block site report host after) :
    ∃ rule σ spliced, Rule.ofSite? site = some rule ∧
      after.scope.graph = prunedBy policy spliced ∧
      HostFrame policy host body block site report spliced σ ∧
      BodyImage rule host body report after σ := by
  rcases inlined.exists_splicing wf bodyWf with ⟨setting, rule, log, ruleEq, ⟨splicing⟩⟩
  have agrees := splicing.pass.agrees_substitution
  exact ⟨rule, _, splicing.graph, ruleEq, splicing.graph_eq, splicing.hostFrame wf bodyWf agrees,
    splicing.bodyImage wf bodyWf agrees⟩

end Frame

/-- The closure of the sample, in the continuation of a call that was inlined before. -/
theorem inlining_hostFrame_sample :
    sampleHostAfterCall.scope.graph.WellFormed ∧ sampleClosure.WellFormed ∧ ∃ report after,
      Inlines samplePolicy sampleClosure ⟨0, 1⟩ sampleYield report sampleHostAfterCall after ∧
      ∃ rule σ spliced, Rule.ofSite? sampleYield = some rule ∧
        after.scope.graph = prunedBy samplePolicy spliced ∧
        HostFrame samplePolicy sampleHostAfterCall sampleClosure ⟨0, 1⟩ sampleYield report
          spliced σ ∧
        BodyImage rule sampleHostAfterCall sampleClosure report after σ := by
  have wf : sampleHostAfterCall.scope.graph.WellFormed := by decide +kernel
  have closureWf : sampleClosure.WellFormed := by decide +kernel
  obtain ⟨report, inlined⟩ := HostStep.exists_report
    (inlineClosure samplePolicy sampleClosure ⟨0, 1⟩ sampleYield) sampleHostAfterCall
    (by decide +kernel)
  exact ⟨wf, closureWf, report, _, .inr inlined, inlining_hostFrame wf closureWf (.inr inlined)⟩

end FlowIR.Inlining
