import FlowIR.Proofs.Graph.Coherence
import FlowIR.Proofs.Inlining.Outcome
import FlowIR.Proofs.Inlining.Transformations
import Mathlib.Logic.Relation

/-!
# Inlining keeps a graph coherent

A jump of the body follows the renaming of labels and its edge that of blocks.  Both are read off
one substitution, so the images meet again in the host.  The jumps of the host move with the block
that they end, and the two jumps that are added come with their edges.
-/

namespace FlowIR.Inlining

open FlowIR.Graph

/-! ## Jumps under a rule -/

/-- The image of a jump is a jump to the image of its target, and nothing else becomes a jump. -/
def Rule.KeepsJumps (rule : Rule) : Prop :=
  ∀ σ next instr, (rule σ next instr).1.bind Instr.jumpTarget? = instr.jumpTarget?.map σ.label

theorem CallBinding.keepsJumps (call : CallBinding) : call.rule.KeepsJumps := by
  intro σ next instr
  cases instr with
  | methodReturn value => cases result : call.result <;> simp [rule, result, Instr.jumpTarget?]
  | _ => simp [rule, Substitution.instr, Instr.mapNames, Instr.jumpTarget?]

theorem YieldBinding.keepsJumps (yielded : YieldBinding) : yielded.rule.KeepsJumps := by
  intro σ next instr
  cases instr with
  | closureReturn value => cases result : yielded.result <;> simp [rule, result, Instr.jumpTarget?]
  | _ => simp [rule, Substitution.instr, Instr.mapNames, Instr.jumpTarget?]

/-- Jumps are kept in the place of every site. -/
theorem Rule.ofSite?_keepsJumps {site : Instr} {rule : Rule}
    (ruleEq : Rule.ofSite? site = some rule) :
    rule.KeepsJumps := by
  unfold ofSite? at ruleEq
  rcases Option.or_eq_some_iff.mp ruleEq with called | ⟨-, yielding⟩
  · rcases Option.map_eq_some_iff.mp called with ⟨call, -, rfl⟩
    exact call.keepsJumps
  · rcases Option.map_eq_some_iff.mp yielding with ⟨yielded, -, rfl⟩
    exact yielded.keepsJumps

namespace Rule.KeepsJumps

variable {rule : Rule} {σ : Substitution} {instrs : List Instr}

/-- Where nothing jumps, no image does. -/
theorem plain (keeps : rule.KeepsJumps) (next : Nat)
    (plain : ∀ instr ∈ instrs, instr.jumpTarget? = none) :
    ∀ image ∈ (rule.instrs σ next instrs).1, image.jumpTarget? = none := by
  apply Rule.forall_mem_instrs
  intro instr member literal image imageEq
  have target := keeps σ literal instr
  rw [imageEq, plain instr member] at target
  exact target

/-- The images jump only at the end, to the images of the targets. -/
theorem jumpsLast (keeps : rule.KeepsJumps) (next : Nat) {leads others : Label → Prop}
    (jumps : JumpsLast leads instrs) (images : ∀ label, leads label → others (σ.label label)) :
    JumpsLast others (rule.instrs σ next instrs).1 := by
  rcases List.eq_nil_or_concat instrs with rfl | ⟨front, last, rfl⟩
  · exact jumpsLast_of_plain (by simp [Rule.instrs])
  · rw [List.concat_eq_append] at jumps ⊢
    rcases jumpsLast_concat.mp jumps with ⟨frontPlain, allowed⟩
    obtain ⟨literal, same⟩ : ∃ literal, (rule.instrs σ next (front ++ [last])).1 =
        (rule.instrs σ next front).1 ++ (rule σ literal last).1.toList :=
      Rule.exists_instrs_concat next front last
    have imagesPlain := keeps.plain (σ := σ) next frontPlain
    have target := keeps σ literal last
    rw [same]
    cases image : (rule σ literal last).1 with
    | none =>
        rw [Option.toList_none, List.append_nil]
        exact jumpsLast_of_plain imagesPlain
    | some instr =>
        rw [image, Option.bind_some] at target
        rw [Option.toList_some]
        apply jumpsLast_concat.mpr
        constructor
        · exact imagesPlain
        · intro label member
          rw [target] at member
          obtain ⟨source, known, rfl⟩ := Option.map_eq_some_iff.mp member
          exact images source (allowed source known)

end Rule.KeepsJumps

/-! ## After splicing -/

namespace Splicing

variable {policy : Policy} {host : Host} {setting : Setting} {rule : Rule} {log : Bool}
  {body : Graph} {block : BlockId} {site : Instr} {report : Report} {after : Host}
  {σ : Substitution}
  (splicing : Splicing host policy setting rule log body block site report after)

include splicing

/-! ### Where jumps lead -/

/-- What a jump of the host leads to, it still leads to along an edge that was kept. -/
theorem leads_of_host (wf : host.scope.graph.WellFormed) (bodyWf : body.WellFormed)
    {source holder : BlockId} {label : Label} (leads : host.scope.graph.Leads source label)
    (kept : ∀ target ∈ host.scope.graph.successors source,
      target ∈ splicing.graph.successors holder) : splicing.graph.Leads holder label := by
  rcases wf.leads_iff.mp leads with ⟨target, live, labelEq, follows⟩
  rcases splicing.exists_live_of_host wf bodyWf live with ⟨held, heldLive, heldLabel, heldId⟩
  have heldFollows := kept _ follows
  rw [← heldId] at heldFollows
  apply (splicing.graph_wellFormed wf bodyWf).leads_iff.mpr
  exact ⟨held, heldLive, heldLabel.trans labelEq, heldFollows⟩

/-- The image of a jump of the body leads to the image of what it led to. -/
theorem leads_of_body (wf : host.scope.graph.WellFormed) (bodyWf : body.WellFormed)
    (agrees : splicing.pass.Agrees σ) {source : BlockId} {label : Label}
    (live : source ∈ body.liveIds) (leads : body.Leads source label) :
    splicing.graph.Leads (σ.block source) (σ.label label) := by
  rcases bodyWf.leads_iff.mp leads with ⟨target, targetLive, rfl, follows⟩
  rcases splicing.exists_live_of_body wf bodyWf agrees targetLive with
    ⟨held, heldLive, heldLabel, heldId⟩
  have heldFollows := splicing.mem_successors_image agrees live (List.mem_map_of_mem targetLive)
    follows
  rw [← heldId] at heldFollows
  apply (splicing.graph_wellFormed wf bodyWf).leads_iff.mpr
  exact ⟨held, heldLive, heldLabel, heldFollows⟩

/-- The block that was opened leads into the body. -/
theorem leads_entry (wf : host.scope.graph.WellFormed) (bodyWf : body.WellFormed) :
    splicing.graph.Leads block splicing.entryBlock.label := by
  have agrees := splicing.pass.agrees_substitution
  have graphWf := splicing.graph_wellFormed wf bodyWf
  obtain ⟨target, targetLive, targetId⟩ := List.mem_map.mp (List.mem_of_getElem? splicing.entry_at)
  rcases splicing.exists_live_of_body wf bodyWf agrees targetLive with ⟨held, heldLive, -, heldId⟩
  have entryId : held.id = report.entry := by
    rw [heldId, targetId, splicing.entry_eq_block agrees]
  have sameLabel : held.label = splicing.entryBlock.label := by
    have found := (graphWf.mem_liveBlocks_iff.mp heldLive).1
    rw [entryId, splicing.owned_graph wf bodyWf, splicing.entry_owned] at found
    have same := congrArg Block.label (Except.ok.inj found)
    exact same.symm
  have enters := splicing.entry_mem_successors
  rw [← entryId] at enters
  exact graphWf.leads_iff.mpr ⟨held, heldLive, sameLabel, enters⟩

/-- The exit of the body leads to the continuation. -/
theorem leads_continuation (wf : host.scope.graph.WellFormed) (bodyWf : body.WellFormed) :
    splicing.graph.Leads report.exit splicing.continuationLabel := by
  have graphWf := splicing.graph_wellFormed wf bodyWf
  have live := graphWf.mem_liveBlocks_of_owned (splicing.continuation_spliced wf bodyWf) rfl
  exact graphWf.leads_iff.mpr ⟨_, live, rfl, splicing.continuation_mem_successors⟩

/-! ### The blocks of the spliced graph -/

/-- The block that was opened jumps into the body and nowhere else. -/
theorem jumpsLast_site (wf : host.scope.graph.WellFormed) (bodyWf : body.WellFormed)
    (coherent : host.scope.graph.Coherent) (live : splicing.held.live = true) :
    JumpsLast (splicing.graph.Leads block)
      (splicing.pre ++ [.jump splicing.entryBlock.label]) := by
  have jumps := coherent _ (wf.mem_liveBlocks_of_owned splicing.found live)
  rw [splicing.instrs_eq] at jumps
  apply jumpsLast_concat.mpr
  constructor
  · exact jumps.of_append.1
  · rintro label ⟨⟩
    exact splicing.leads_entry wf bodyWf

/-- The continuation jumps where the block that was opened jumped. -/
theorem jumpsLast_continuation (wf : host.scope.graph.WellFormed) (bodyWf : body.WellFormed)
    (coherent : host.scope.graph.Coherent) (live : splicing.held.live = true) :
    JumpsLast (splicing.graph.Leads report.continuation) splicing.post := by
  have jumps := coherent _ (wf.mem_liveBlocks_of_owned splicing.found live)
  rw [splicing.instrs_eq, wf.id_of_owned splicing.found] at jumps
  apply jumps.of_append.2.mono
  intro label leads
  apply splicing.leads_of_host wf bodyWf leads
  intro target follows
  exact splicing.mem_successors_continuation follows

/-- The other blocks of the host jump where they jumped. -/
theorem jumpsLast_other (wf : host.scope.graph.WellFormed) (bodyWf : body.WellFormed)
    (coherent : host.scope.graph.Coherent) {held : Block}
    (live : held ∈ host.scope.graph.liveBlocks) (other : held.id ≠ block) :
    JumpsLast (splicing.graph.Leads held.id) held.instrs := by
  apply (coherent held live).mono
  intro label leads
  apply splicing.leads_of_host wf bodyWf leads
  intro target follows
  exact splicing.mem_successors_other other follows

/-- The images jump to the images of the targets, and that of the exit to the continuation. -/
theorem jumpsLast_image (wf : host.scope.graph.WellFormed) (bodyWf : body.WellFormed)
    (agrees : splicing.pass.Agrees σ) (keeps : rule.KeepsJumps) (coherent : body.Coherent)
    (exitPlain : ∀ source ∈ body.liveBlocks, body.exit = some source.id →
      ∀ instr ∈ source.instrs, instr.jumpTarget? = none)
    {image : Block} (member : image ∈ (rule.blocks σ host.nextLiteral body.liveBlocks).1) :
    JumpsLast (splicing.graph.Leads image.id) (image.instrs ++
      if image.id = report.exit then [.jump splicing.continuationLabel] else []) := by
  rcases List.mem_iff_getElem?.mp member with ⟨i, at_i⟩
  rcases Rule.exists_source_of_getElem? host.nextLiteral at_i with ⟨source, literal, sourceAt, rfl⟩
  have sourceLive : source ∈ body.liveBlocks := List.mem_of_getElem? sourceAt
  split
  next atExit =>
    have role : body.exit = some source.id := by
      rw [splicing.exit_role]
      apply congrArg some
      apply splicing.carried.block_inj agrees (List.mem_of_getElem? splicing.exit_at)
        (List.mem_map_of_mem sourceLive)
      rw [← splicing.exit_eq_block agrees, ← atExit]
      rfl
    apply jumpsLast_concat.mpr
    constructor
    · exact keeps.plain literal (exitPlain source sourceLive role)
    · rintro label ⟨⟩
      rw [atExit]
      exact splicing.leads_continuation wf bodyWf
  next =>
    rw [List.append_nil]
    apply keeps.jumpsLast literal (coherent source sourceLive)
    intro label leads
    exact splicing.leads_of_body wf bodyWf agrees (List.mem_map_of_mem sourceLive) leads

/-- Splicing a coherent body into a coherent host makes a coherent graph. -/
theorem coherent (wf : host.scope.graph.WellFormed) (bodyWf : body.WellFormed)
    (keeps : rule.KeepsJumps)
    (hostCoherent : host.scope.graph.Coherent) (live : splicing.held.live = true)
    (bodyCoherent : body.Coherent)
    (exitPlain : ∀ source ∈ body.liveBlocks, body.exit = some source.id →
      ∀ instr ∈ source.instrs, instr.jumpTarget? = none) : splicing.graph.Coherent := by
  have agrees := splicing.pass.agrees_substitution
  intro held member
  rcases (splicing.graph_wellFormed wf bodyWf).mem_liveBlocks_iff.mp member with ⟨found, alive⟩
  rcases splicing.spliced_cases wf bodyWf agrees (.of_owned found) with
    atSite | atContinuation | ⟨other, old, oldFound⟩ | ⟨image, imageMember, imageId⟩
  · rw [atSite] at found ⊢
    rw [splicing.site_spliced wf bodyWf] at found
    obtain rfl := Except.ok.inj found
    exact splicing.jumpsLast_site wf bodyWf hostCoherent live
  · rw [atContinuation] at found ⊢
    rw [splicing.continuation_spliced wf bodyWf] at found
    obtain rfl := Except.ok.inj found
    exact splicing.jumpsLast_continuation wf bodyWf hostCoherent live
  · rw [splicing.other_spliced wf bodyWf oldFound other] at found
    obtain rfl := Except.ok.inj found
    have oldLive := wf.mem_liveBlocks_of_owned oldFound alive
    exact splicing.jumpsLast_other wf bodyWf hostCoherent oldLive other
  · rw [← imageId] at found ⊢
    rw [splicing.image_spliced wf bodyWf agrees imageMember] at found
    obtain rfl := Except.ok.inj found
    exact splicing.jumpsLast_image wf bodyWf agrees keeps bodyCoherent exitPlain imageMember

end Splicing

/-! ## Coherence along a run -/

/-- A coherent body that does not jump out of its exit, to which the jump to the continuation will
be added. -/
structure Inlinable (body : Graph) : Prop where
  wellFormed : body.WellFormed
  coherent : body.Coherent
  exit_plain : ∀ exit block, body.exit = some exit → body.owned exit = .ok block →
    ∀ instr ∈ block.instrs, instr.jumpTarget? = none

/-- A method or a closure was inlined at a site in a live block. -/
def InliningStep (host after : Host) : Prop :=
  ∃ policy body block site report, Inlinable body ∧ block ∈ host.scope.graph.liveIds ∧
    Inlines policy body block site report host after

/-- One inlining keeps the host well formed and coherent. -/
theorem InliningStep.preserves {host after : Host} (step : InliningStep host after)
    (wf : host.scope.graph.WellFormed) (coherent : host.scope.graph.Coherent) :
    after.scope.graph.WellFormed ∧ after.scope.graph.Coherent := by
  rcases step with ⟨policy, body, block, site, report, inlinable, siteLive, inlined⟩
  obtain ⟨setting, rule, log, ruleEq, ⟨splicing⟩⟩ := inlined.exists_splicing wf inlinable.wellFormed
  have heldLive : splicing.held.live = true := by
    rcases wf.mem_liveIds_iff.mp siteLive with ⟨held, found, live⟩
    rw [splicing.found] at found
    exact Except.ok.inj found ▸ live
  have exitPlain : ∀ source ∈ body.liveBlocks, body.exit = some source.id →
      ∀ instr ∈ source.instrs, instr.jumpTarget? = none := by
    intro source member role
    have found := (inlinable.wellFormed.mem_liveBlocks_iff.mp member).1
    exact inlinable.exit_plain source.id source role found
  have spliced : splicing.graph.Coherent := splicing.coherent wf inlinable.wellFormed
    (Rule.ofSite?_keepsJumps ruleEq) coherent heldLive inlinable.coherent exitPlain
  constructor
  · exact splicing.wellFormed wf inlinable.wellFormed
  · rw [splicing.graph_eq]
    unfold prunedBy
    split
    · exact spliced.prune (splicing.graph_wellFormed wf inlinable.wellFormed)
    · exact spliced

/-- A coherent host is coherent after any sequence of inlinings of coherent bodies, whether the
policies ask for pruning or not. -/
theorem coherent_of_inlinings {host after : Host} (wf : host.scope.graph.WellFormed)
    (coherent : host.scope.graph.Coherent) (run : Relation.ReflTransGen InliningStep host after) :
    after.scope.graph.Coherent := by
  have both : after.scope.graph.WellFormed ∧ after.scope.graph.Coherent := by
    induction run with
    | refl => exact ⟨wf, coherent⟩
    | tail _ step ih => exact step.preserves ih.1 ih.2
  exact both.2

theorem sampleMethod_inlinable : Inlinable sampleMethod where
  wellFormed := by decide +kernel
  coherent := by decide +kernel
  exit_plain := by
    rintro _ _ ⟨⟩ ⟨⟩
    decide

theorem sampleClosure_inlinable : Inlinable sampleClosure where
  wellFormed := by decide +kernel
  coherent := by decide +kernel
  exit_plain := by
    rintro _ _ ⟨⟩ ⟨⟩
    decide

/-- The sample host stays coherent when its first call is inlined and then its yield. -/
theorem coherent_of_inlinings_sample :
    sampleHost.scope.graph.WellFormed ∧ sampleHost.scope.graph.Coherent ∧
      ∃ after, Relation.ReflTransGen InliningStep sampleHost after ∧ sampleHost ≠ after ∧
        after.scope.graph.Coherent := by
  have wf : sampleHost.scope.graph.WellFormed := by decide +kernel
  have coherent : sampleHost.scope.graph.Coherent := by decide +kernel
  obtain ⟨callReport, called⟩ := HostStep.exists_report
    (inlineMethod samplePolicy sampleMethod ⟨0, 0⟩ sampleCall) sampleHost (by decide +kernel)
  obtain ⟨yieldReport, yielded⟩ := HostStep.exists_report
    (inlineClosure samplePolicy sampleClosure ⟨0, 1⟩ sampleYield) sampleHostAfterCall
    (by decide +kernel)
  have first : InliningStep sampleHost sampleHostAfterCall :=
    ⟨samplePolicy, sampleMethod, ⟨0, 0⟩, sampleCall, callReport, sampleMethod_inlinable,
      by decide +kernel, .inl called⟩
  have second : InliningStep sampleHostAfterCall _ :=
    ⟨samplePolicy, sampleClosure, ⟨0, 1⟩, sampleYield, yieldReport, sampleClosure_inlinable,
      by decide +kernel, .inr yielded⟩
  have run := (Relation.ReflTransGen.single first).tail second
  exact ⟨wf, coherent, _, run, by decide +kernel, coherent_of_inlinings wf coherent run⟩

end FlowIR.Inlining
