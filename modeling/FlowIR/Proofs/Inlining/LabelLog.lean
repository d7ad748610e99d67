import FlowIR.Proofs.Inlining.Hygiene
import FlowIR.Proofs.Inlining.Lasting
import FlowIR.Proofs.LabelSearch

/-!
# Labels handed out in a pass

A transformation has its host hand out labels: one for the continuation, if there is a site, and one
for each label of the body that the pass meets.  The latter are the targets in the pass's table of
labels, in the order in which they were handed out, also where the pass fails.

Seen from the label counter of the host, a transformation is therefore a history like any other:
labels are handed out, and in between the graph changes.
-/

namespace FlowIR.Inlining

/-! ## Within a pass -/

/-- The labels that the pass has taken from its host, in order. -/
def Pass.labelsTaken (pass : Pass) : List Label :=
  pass.labels.pairs.map (·.2)

/-- The host of the pass has come of a scope by handing out earlier labels and then those
that the pass has taken. -/
structure Pass.LogsFrom (start : Scope) (earlier : List Label) (pass : Pass) : Prop where
  history : start.Issues (earlier ++ pass.labelsTaken) pass.host.scope
  inverse_eq : pass.labels.inverse.map (·.1) = pass.labelsTaken

section Pass

variable {α : Type} {start : Scope} {earlier : List Label} {pass after : Pass}

/-- A step that takes no label may change the host's scope in any way but the counter. -/
theorem Pass.LogsFrom.of_same_labels (logs : pass.LogsFrom start earlier)
    (sameLabels : after.labels = pass.labels)
    (sameCounter : after.host.scope.nextLabel = pass.host.scope.nextLabel) :
    after.LogsFrom start earlier where
  history := by
    rw [Pass.labelsTaken, sameLabels]
    exact logs.history.change sameCounter
  inverse_eq := by
    rw [Pass.labelsTaken, sameLabels]
    exact logs.inverse_eq

theorem logsFrom_onGraph (edit : Graph.Edit α) :
    Preserves (Pass.LogsFrom start earlier) (onGraph edit) := by
  intro pass logs
  apply Ensures.focus
  apply (Ensures.outcome edit (Pass.graphFocus.get pass)).mono
  · exact fun _ _ _ => logs.of_same_labels rfl rfl
  · exact fun _ _ _ => logs.of_same_labels rfl rfl

theorem logsFrom_allocate {take : Scope → α × Scope}
    (sameCounter : ∀ scope, (take scope).2.nextLabel = scope.nextLabel) :
    Preserves (Pass.LogsFrom start earlier) (allocate take) :=
  fun _ logs => logs.of_same_labels rfl (sameCounter _)

/-- A label that the host hands out next is not a target yet, so it is recorded. -/
theorem Pass.LogsFrom.renameLabel_of_absent (logs : pass.LogsFrom start earlier) {label : Label}
    (absent : pass.labels.target? label = none) :
    ∃ after, Inlining.renameLabel label pass = .ok pass.host.scope.freshLabel.1 after ∧
      after.LogsFrom start earlier := by
  let fresh := pass.host.scope.freshLabel
  have unused : pass.labels.source? fresh.1 = none := by
    apply Table.find?_eq_none_iff.mpr
    rintro pair held same
    apply logs.history.freshLabel_not_mem
    apply List.mem_append_right
    rw [← logs.inverse_eq]
    exact List.mem_map.mpr ⟨pair, held, same⟩
  let labels : Renaming Label Label :=
    ⟨pass.labels.pairs ++ [(label, fresh.1)], pass.labels.inverse ++ [(fresh.1, label)]⟩
  have inserted : pass.labels.insert Label.name Label.name label fresh.1 = .ok labels :=
    Renaming.insert_eq_ok_iff.mpr (.inr ⟨absent, unused, rfl⟩)
  refine ⟨{ pass with host := { pass.host with scope := fresh.2 }, labels := labels }, ?_, ?_, ?_⟩
  · simp [Inlining.renameLabel, absent, allocate, recordLabel, inserted, fresh, bind_apply]
  · rw [Pass.labelsTaken, List.map_append, ← List.append_assoc]
    exact logs.history.label
  · simpa [Pass.labelsTaken, labels] using logs.inverse_eq

theorem logsFrom_renameLabel (label : Label) :
    Preserves (Pass.LogsFrom start earlier) (renameLabel label) := by
  intro pass logs
  cases found : pass.labels.target? label with
  | some target =>
      have known : renameLabel label pass = .ok target pass := by simp [renameLabel, found]
      exact Ensures.of_eq_ok known logs
  | none =>
      rcases logs.renameLabel_of_absent found with ⟨after, taken, afterLogs⟩
      exact Ensures.of_eq_ok taken afterLogs

/-- Nothing in a pass but renaming takes labels. -/
theorem enduring_logsFrom (start : Scope) (earlier : List Label) :
    Enduring (Pass.LogsFrom start earlier) where
  freshNil := fun _ logs => logs.of_same_labels rfl rfl
  addressLocal := fun name depth => logsFrom_allocate fun scope =>
    scope.addressLocal_nextLabel name depth
  freshTemp := logsFrom_allocate fun _ => rfl
  renameLabel := logsFrom_renameLabel
  recordBlock := by
    intro source target pass logs
    unfold Ensures recordBlock
    cases pass.blocks.insert BlockId.render BlockId.render source target <;>
      exact logs.of_same_labels rfl rfl
  recordVariable := by
    intro source target pass logs
    unfold Ensures recordVariable
    cases pass.vars.insert Variable.render Variable.render source target <;>
      exact logs.of_same_labels rfl rfl
  logSite := by
    intro block instr
    apply Preserves.of_modify
    intro pass logs
    split
    · exact logs.of_same_labels rfl rfl
    · exact logs
  createBlock := fun label => logsFrom_onGraph (Graph.createBlock label)
  adoptBlock := fun block => logsFrom_onGraph (Graph.adoptBlock block)
  editBlock := fun id change _ => logsFrom_onGraph (Graph.editBlock id change)
  insertEdge := fun edge => logsFrom_onGraph (Graph.insertEdge edge)

theorem durable_logsFrom (start : Scope) (earlier : List Label) :
    Durable (Pass.LogsFrom start earlier) :=
  (enduring_logsFrom start earlier).durable

end Pass

/-! ## In a transformation -/

/-- The label that opening a host hands out, if the host holds the site. -/
def siteLabels (block : BlockId) (site : Instr) (host : Host) : List Label :=
  match host.scope.graph.owned block with
  | .ok held => if held.holds site then [host.scope.freshLabel.1] else []
  | .error _ => []

/-- The labels that putting a body in the place of a site hands out. -/
def splicedLabels (policy : Policy) (start : Host → Pass) (lay : Step (List BlockId)) (body : Graph)
    (block : BlockId) (site : Instr) (host : Host) : List Label :=
  match boundary body, excess? policy body with
  | .ok (entry, exit), none =>
      siteLabels block site host ++
        match splitAtSite block site host with
        | .ok _ opened => (left (layBody lay body entry exit) (start opened)).labelsTaken
        | .error _ _ => []
  | _, _ => []

/-- The labels that a transformation has its host hand out, in order, whether it ends or fails. -/
def Transformation.labels (policy : Policy) (host : Host) : Transformation → List Label
  | inlineMethod callee block call =>
      (CallBinding.of? call).elim [] fun binding =>
        splicedLabels policy (Pass.forMethod binding policy.logYields)
          (carryBlocks cloneBlockForCall callee.liveBlocks) callee block call host
  | cloneClosure source => (left (copyBody source) (Pass.forClone host)).labelsTaken
  | inlineClosure closure block yielding =>
      (YieldBinding.of? yielding).elim [] fun binding =>
        splicedLabels policy (Pass.forClosure binding)
          (do return (← migrateBlocks closure closure.liveIds).1) closure block yielding host

section Transformation

variable {α : Type} {scope : Scope} {log : List Label} {host : Host}

/-- Edits of the graph hand out no label. -/
theorem issues_editHost (edit : Graph.Edit α) :
    Preserves (fun host : Host => scope.Issues log host.scope) (editHost edit) := by
  intro host history
  apply Ensures.focus
  apply (Ensures.outcome edit (Host.graphFocus.get host)).mono
  · exact fun _ _ _ => history.change rfl
  · exact fun _ _ _ => history.change rfl

/-- Opening a host hands out the label of the continuation. -/
theorem issues_splitAtSite (block : BlockId) (site : Instr) (host : Host) :
    Ensures (splitAtSite block site) host
      (fun _ after => host.scope.Issues (siteLabels block site host) after.scope)
      (fun _ after => host.scope.Issues (siteLabels block site host) after.scope) := by
  unfold siteLabels
  apply Ensures.get_bind
  cases host.scope.graph.owned block with
  | error fault => exact Ensures.of_error_bind rfl .start
  | ok held =>
      have found : (MonadExcept.ofExcept (.ok held) : HostStep Block) host = .ok held host := rfl
      apply Ensures.of_ok_bind found
      dsimp only
      by_cases holds : held.holds site
      · simp only [holds]
        apply Ensures.set_bind
        exact issues_editHost _ _ (Scope.Issues.start.label)
      · simp only [holds]
        exact Ensures.throw_bind .start

/-- A pass hands out the labels that it takes. -/
theorem issues_runPass {start : Host → Pass} {step : Step α} (history : scope.Issues log host.scope)
    (atHost : (start host).host = host) (noLabels : (start host).labels = {})
    (kept : Preserves (Pass.LogsFrom scope log) step) :
    Ensures (runPass start step) host
      (fun _ after => scope.Issues (log ++ (left step (start host)).labelsTaken) after.scope)
      (fun _ after => scope.Issues (log ++ (left step (start host)).labelsTaken) after.scope) := by
  have begun : (start host).LogsFrom scope log := by
    constructor
    · rw [Pass.labelsTaken, noLabels, atHost]
      exact (List.append_nil log).symm ▸ history
    · rw [Pass.labelsTaken, noLabels]
      rfl
  have finished := (kept.left begun).history
  apply (ensures_runPass_left start step host).mono
  · rintro ⟨value, pass⟩ _ ⟨rfl, rfl⟩
    exact finished
  · rintro fault _ rfl
    exact finished

theorem issues_splice (policy : Policy) {start : Host → Pass} {lay : Step (List BlockId)}
    (body : Graph) (block : BlockId) (site : Instr) (host : Host) {setting : Setting}
    (starts : Starts start setting)
    (laying : ∀ scope earlier, Preserves (Pass.LogsFrom scope earlier) lay) :
    host.scope.Issues (splicedLabels policy start lay body block site host)
      (left (splice policy start lay body block site) host).scope := by
  let Issued (after : Host) : Prop :=
    host.scope.Issues (splicedLabels policy start lay body block site host) after.scope
  suffices issued : Ensures (splice policy start lay body block site) host (fun _ => Issued)
      (fun _ => Issued) from issued.left
  unfold Issued splice splicedLabels
  cases boundary body with
  | error fault => exact Ensures.of_error_bind rfl .start
  | ok ends =>
      have bounded : (MonadExcept.ofExcept (.ok ends) : HostStep (BlockId × BlockId)) host =
          .ok ends host := rfl
      apply Ensures.of_ok_bind bounded
      obtain ⟨entry, exit⟩ := ends
      cases excess? policy body with
      | some excess => exact Ensures.of_pure .start
      | none =>
          dsimp only
          have opened := issues_splitAtSite block site host
          cases opening : splitAtSite block site host with
          | error fault after =>
              apply Ensures.of_error_bind opening
              rw [List.append_nil]
              exact opened.of_error opening
          | ok continuation middle =>
              apply Ensures.of_ok_bind opening
              have inside : Preserves
                  (Pass.LogsFrom host.scope (siteLabels block site host))
                  (layBody lay body entry exit) :=
                (laying _ _).bind fun _ =>
                  (keeps_copyEdges (durable_logsFrom _ _) body.edges).bind fun _ =>
                    (keeps_carried entry).bind fun _ =>
                      (keeps_carried exit).bind fun _ => .of_pure _
              apply (issues_runPass (opened.of_ok opening) (starts.host_eq middle)
                (starts.labels_eq middle) inside).bind
              rintro ⟨⟨blocks, entryId, exitId⟩, pass⟩ after issued
              apply (issues_editHost _ after issued).bind
              intro _ linked linkedIssued
              exact ((issues_editHost (pruneBy policy)).bind fun _ => .of_pure _)
                linked linkedIssued

/-- Whatever becomes of it, a transformation hands out its labels. -/
theorem Transformation.issues (policy : Policy) (t : Transformation) (host : Host) :
    host.scope.Issues (t.labels policy host) (t.leaves policy host).scope := by
  cases t with
  | inlineMethod callee block call =>
      simp only [labels, leaves, Inlining.inlineMethod]
      cases CallBinding.of? call with
      | none => exact .start
      | some binding =>
          exact issues_splice policy callee block call host
            (forMethod_starts binding policy.logYields)
            fun scope earlier =>
              keeps_carryBlocks fun source _ =>
                keeps_cloneBlockForCall (durable_logsFrom scope earlier) source
  | cloneClosure source =>
      have copying : Preserves (Pass.LogsFrom host.scope []) (copyBody source) :=
        (keeps_carryBlocks fun block _ => keeps_cloneBlockForCopy (durable_logsFrom _ _) block).bind
          fun _ => (keeps_copyEdges (durable_logsFrom _ _) source.edges).bind fun _ => .of_pure _
      have begun : host.scope.Issues [] (Pass.forClone host).host.scope := .start
      let Issued (after : Host) : Prop :=
        host.scope.Issues ((cloneClosure source).labels policy host) after.scope
      suffices issued : Ensures (Inlining.cloneClosure policy source) host (fun _ => Issued)
          (fun _ => Issued) from issued.left
      apply (issues_runPass begun (forClone_starts.host_eq host) (forClone_starts.labels_eq host)
        copying).bind
      rintro ⟨blocks, pass⟩ after issued
      exact keeps_takeRoles (fun id => issues_editHost (Graph.setEntry id))
        (fun id => issues_editHost (Graph.setExit id)) (issues_editHost (pruneBy policy))
        _ _ _ after issued
  | inlineClosure closure block yielding =>
      simp only [labels, leaves, Inlining.inlineClosure]
      cases YieldBinding.of? yielding with
      | none => exact .start
      | some binding =>
          exact issues_splice policy closure block yielding host (forClosure_starts binding)
            fun scope earlier =>
              (keeps_migrateBlocks (durable_logsFrom scope earlier) closure _).bind
                fun _ => .of_pure _

end Transformation

end FlowIR.Inlining
