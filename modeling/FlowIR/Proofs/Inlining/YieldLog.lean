import FlowIR.Proofs.Inlining.Aftermath
import FlowIR.Proofs.Inlining.Provenance

/-!
# The log of yields

While a method is carried over, each yield of its live blocks is logged with the host block that
gets it.  What happens to these blocks afterwards, when the edges are copied, the ends linked and
the host pruned, neither adds nor drops a yield, so the log lists what the blocks hold in the end.
Only yields become yields, hence the log is also what the yields of the method have become.
-/

namespace FlowIR

/-- The operand is a literal, or a name that the scope has handed out since it was in an earlier
state; a label was free then. -/
def Scope.HandedOutSince (scope earlier : Scope) : Operand → Prop
  | .var v => ∃ n, v = .temporary n ∧ earlier.nextTemp ≤ n ∧ n < scope.nextTemp
  | .label label => (∃ n, label = .numbered n ∧ earlier.nextLabel ≤ n ∧ n < scope.nextLabel) ∧
      earlier.graph.binds label = false
  | .lit _ => True

namespace Inlining

open FlowIR.Graph

/-- The yields that the blocks of a graph with the given ids hold, live or not, block by block. -/
def yieldsAt (g : Graph) (ids : List BlockId) : List (BlockId × Instr) :=
  ids.flatMap fun id =>
    match g.owned id with
    | .ok block => yieldsIn id block.instrs
    | .error _ => []

/-- The yields of the live blocks of a body. -/
def liveYields (body : Graph) : List (BlockId × Instr) :=
  body.liveBlocks.flatMap fun block => yieldsIn block.id block.instrs

/-- What a yield of a body and the block that holds it become. -/
def Substitution.site (σ : Substitution) (site : BlockId × Instr) : BlockId × Instr :=
  (σ.block site.1, σ.instr site.2)

theorem length_liveYields (body : Graph) :
    (liveYields body).length = (body.liveBlocks.flatMap (·.instrs)).countP (·.isYield) := by
  rw [liveYields, List.length_flatMap, List.countP_flatMap]
  apply congrArg List.sum
  apply List.map_congr_left
  intro block _
  rw [yieldsIn, List.length_map, Function.comp_apply, List.countP_eq_length_filter]

/-! ## Rules that keep yields -/

/-- A yield becomes itself in other names, and nothing else becomes a yield. -/
def Rule.KeepsYields (rule : Rule) : Prop :=
  ∀ σ next instr,
    (rule σ next instr).1.toList.filter (·.isYield) = ([instr].filter (·.isYield)).map σ.instr

theorem CallBinding.keepsYields (call : CallBinding) : call.rule.KeepsYields := by
  intro σ next instr
  cases instr with
  | methodReturn value => cases result : call.result <;> simp [rule, result, Instr.isYield]
  | _ => simp [rule, Substitution.instr, Instr.mapNames, Instr.isYield]

namespace Rule.KeepsYields

variable {rule : Rule} {σ : Substitution} (keeps : rule.KeepsYields)

include keeps

theorem filter_instrs (next : Nat) (instrs : List Instr) :
    (rule.instrs σ next instrs).1.filter (·.isYield) = (instrs.filter (·.isYield)).map σ.instr := by
  induction instrs generalizing next with
  | nil => rfl
  | cons instr rest ih =>
      rw [instrs_cons, List.filter_append, keeps, ih, ← List.map_append, ← List.filter_append]
      rfl

theorem yieldsIn_block (next : Nat) (block : Block) :
    yieldsIn (rule.block σ next block).1.id (rule.block σ next block).1.instrs =
      (yieldsIn block.id block.instrs).map σ.site := by
  have filtered := keeps.filter_instrs (σ := σ) next block.instrs
  unfold yieldsIn
  rw [List.map_map]
  change ((rule.instrs σ next block.instrs).1.filter _).map _ = _
  rw [filtered, List.map_map]
  rfl

theorem flatMap_blocks (next : Nat) (blocks : List Block) :
    ((rule.blocks σ next blocks).1.flatMap fun image => yieldsIn image.id image.instrs) =
      (blocks.flatMap fun block => yieldsIn block.id block.instrs).map σ.site := by
  induction blocks generalizing next with
  | nil => rfl
  | cons block rest ih =>
      rw [blocks_cons, List.flatMap_cons, ih, keeps.yieldsIn_block, ← List.map_append,
        List.flatMap_cons]

end Rule.KeepsYields

/-! ## The log of a splicing -/

namespace Splicing

variable {policy : Policy} {host : Host} {setting : Setting} {rule : Rule} {log : Bool}
  {body : Graph} {block : BlockId} {site : Instr} {report : Report} {after : Host}
  {σ : Substitution}
  (splicing : Splicing host policy setting rule log body block site report after)

include splicing

theorem blocks_eq_images (agrees : splicing.pass.Agrees σ) :
    report.blocks = (rule.blocks σ host.nextLiteral body.liveBlocks).1.map (·.id) := by
  rw [splicing.blocks_eq_map agrees, Rule.map_id_blocks, liveIds, List.map_map]
  rfl

/-- In the end the blocks of the report hold the yields among the images. -/
theorem yieldsAt_blocks (wf : host.scope.graph.WellFormed) (bodyWf : body.WellFormed)
    (agrees : splicing.pass.Agrees σ) :
    yieldsAt after.scope.graph report.blocks =
      (rule.blocks σ host.nextLiteral body.liveBlocks).1.flatMap fun image =>
        yieldsIn image.id image.instrs := by
  rw [splicing.blocks_eq_images agrees, yieldsAt, List.flatMap_map]
  apply List.flatMap_congr
  intro image member
  obtain ⟨continuation, -, found⟩ := (splicing.bodyImage wf bodyWf agrees).found
  obtain ⟨live, imageFound⟩ := found image member
  -- The exit alone holds more than its image, and that is a jump.
  have noYield : yieldsIn image.id
      (if image.id = report.exit then [.jump continuation.label] else []) = [] := by
    split <;> rfl
  rw [imageFound]
  simp only [yieldsIn_append, noYield, List.append_nil]

theorem owns_of_mem_blocks (wf : host.scope.graph.WellFormed) (bodyWf : body.WellFormed)
    {id : BlockId} (member : id ∈ report.blocks) : after.scope.graph.Owns id := by
  have agrees := splicing.pass.agrees_substitution
  rw [splicing.blocks_eq_images agrees] at member
  obtain ⟨image, listed, rfl⟩ := List.mem_map.mp member
  obtain ⟨_, -, found⟩ := (splicing.bodyImage wf bodyWf agrees).found
  obtain ⟨_, imageFound⟩ := found image listed
  exact .of_owned imageFound

section Logged

variable (logs : (log && setting.logging) = true)

include logs

/-- The log lists the yields among the images. -/
theorem sites_eq_images (agrees : splicing.pass.Agrees σ) :
    report.yieldSites = (rule.blocks σ host.nextLiteral body.liveBlocks).1.flatMap fun image =>
      yieldsIn image.id image.instrs := by
  rw [splicing.sites_eq, (splicing.carried.image σ agrees).2.2, if_pos logs]
  rfl

/-- The log lists what the yields of the body have become. -/
theorem sites_eq_map (keeps : rule.KeepsYields) (agrees : splicing.pass.Agrees σ) :
    report.yieldSites = (liveYields body).map σ.site := by
  rw [splicing.sites_eq_images logs agrees]
  exact keeps.flatMap_blocks _ _

/-- What a logged yield mentions was made by the pass, as it is what something in the body has
become under whatever substitution the pass agrees with. -/
theorem emits_of_mem_sites (keeps : rule.KeepsYields) {logged : BlockId × Instr}
    (member : logged ∈ report.yieldSites) {operand : Operand}
    (mentioned : operand ∈ logged.2.mentions) :
    splicing.pass.Emits operand := by
  apply Pass.emits_of_image
  intro σ agrees
  rw [splicing.sites_eq_map logs keeps agrees] at member
  obtain ⟨source, -, rfl⟩ := List.mem_map.mp member
  rw [Substitution.site, Substitution.instr, Instr.mentions_mapNames] at mentioned
  obtain ⟨original, -, rfl⟩ := List.mem_map.mp mentioned
  exact ⟨original, rfl⟩

end Logged

/-- All that the pass of an inlined method has made of names was handed out
by the host meanwhile. -/
theorem handedOutSince_of_emits (method : setting.mode = .inlineMethod) {operand : Operand}
    (emitted : splicing.pass.Emits operand) : after.scope.HandedOutSince host.scope operand := by
  have named := splicing.carried.named
  have mode : splicing.pass.mode = .inlineMethod :=
    (congrArg Setting.mode splicing.carried.setting_eq).trans method
  cases operand with
  | var v =>
      obtain ⟨source, found⟩ := emitted
      rcases named.var_target source v found with settled | ⟨-, n, same, least, below⟩
      · rw [mode] at settled
        cases source <;> contradiction
      · exact ⟨n, same, least, splicing.nextTemp_after ▸ below⟩
  | label label =>
      obtain ⟨source, found⟩ := emitted
      obtain ⟨⟨n, same, least, below⟩, free⟩ := named.label_target source label found
      refine ⟨⟨n, same, ?_, splicing.nextLabel_after ▸ below⟩, ?_⟩
      · have numbered : host.scope.labelNumber < n := least
        exact Nat.le_trans host.scope.nextLabel_le_labelNumber (Nat.le_of_lt numbered)
      · apply Bool.eq_false_iff.mpr
        intro bound
        exact Bool.eq_false_iff.mp free ((binds_opened _ splicing.pre splicing.post block label).mpr
          (.inl bound))
  | lit _ => trivial

end Splicing

/-! ## Inlining a method -/

/-- The report on an inlined method logs its yields. -/
structure LogsYields (host : Host) (callee : Graph) (call : Instr) (report : Report)
    (after : Host) : Prop where
  /-- The blocks of the report are there, also those that were pruned. -/
  owns : ∀ id ∈ report.blocks, after.scope.graph.Owns id
  /-- The log lists the yields that these blocks hold in the end, each as
  often as it stands there. -/
  sites_eq : report.yieldSites = yieldsAt after.scope.graph report.blocks
  /-- The log lists what the yields of the live blocks of the method have become. -/
  sites_image : ∃ binding σ, CallBinding.of? call = some binding ∧
    BodyImage binding.rule host callee report after σ ∧
    report.yieldSites = (liveYields callee).map σ.site
  length_eq : report.yieldSites.length = (callee.liveBlocks.flatMap (·.instrs)).countP (·.isYield)
  /-- The logged yields mention nothing but literals and what the host has handed out for them. -/
  names : ∀ site ∈ report.yieldSites, ∀ operand ∈ site.2.mentions,
    after.scope.HandedOutSince host.scope operand

variable {policy : Policy} {host after : Host} {callee : Graph} {block : BlockId} {call : Instr}
  {report : Report}

theorem CallBinding.logsYields {binding : CallBinding} (wf : host.scope.graph.WellFormed)
    (calleeWf : callee.WellFormed) (bound : CallBinding.of? call = some binding)
    (splicing : Splicing host policy (binding.setting true) binding.rule true callee block call
      report after) :
    LogsYields host callee call report after := by
  have agrees := splicing.pass.agrees_substitution
  have sites := splicing.sites_eq_map rfl binding.keepsYields agrees
  refine ⟨fun id member => splicing.owns_of_mem_blocks wf calleeWf member, ?_,
    ⟨binding, _, bound, splicing.bodyImage wf calleeWf agrees, sites⟩, ?_, ?_⟩
  · rw [splicing.sites_eq_images rfl agrees, splicing.yieldsAt_blocks wf calleeWf agrees]
  · rw [sites, List.length_map, length_liveYields]
  · intro site member operand mentioned
    exact splicing.handedOutSince_of_emits rfl
      (splicing.emits_of_mem_sites rfl binding.keepsYields member mentioned)

/-- Where a policy asks for it, the report on an inlined method logs exactly the yields
that the method has brought into the host, in the order in which they stand there.
Otherwise the log is empty. -/
theorem inlineMethod_logsYields (wf : host.scope.graph.WellFormed) (calleeWf : callee.WellFormed)
    (inlined : inlineMethod policy callee block call host = .ok (.inlined report) after) :
    (policy.logYields = true → LogsYields host callee call report after) ∧
    (policy.logYields = false → report.yieldSites = []) := by
  rcases (ensures_inlineMethod wf calleeWf).of_ok inlined with ⟨-, binding, bound, ⟨splicing⟩⟩
  constructor
  · intro logging
    rw [logging] at splicing
    exact binding.logsYields wf calleeWf bound splicing
  · intro silent
    have sites := (splicing.carried.image _ splicing.pass.agrees_substitution).2.2
    rw [splicing.sites_eq, sites]
    simp [CallBinding.setting, silent]

/-- A method that yields once where it begins, and twice in the same way where it never gets. -/
def sampleYielder : Graph :=
  { ({ id := 1 } : Graph).registerAll
      [{ id := ⟨1, 0⟩, label := ⟨"start"⟩
         instrs :=
          [.receiveClosure (.temporary 0), .yield (some (.temporary 1)) (.var (.temporary 0)) none,
           .methodReturn (.var (.temporary 1))] },
       { id := ⟨1, 1⟩, label := ⟨"aside"⟩
         instrs :=
          [.yield none (.var (.temporary 0)) none, .yield none (.var (.temporary 0)) none] }] with
    entry := some ⟨1, 0⟩
    exit := some ⟨1, 0⟩ }

/-- The block that is never reached is pruned, and its two yields are logged with the other one. -/
theorem inlineMethod_logsYields_sample :
    sampleHost.scope.graph.WellFormed ∧ sampleYielder.WellFormed ∧ ∃ report after,
      inlineMethod { samplePolicy with prune := true } sampleYielder ⟨0, 0⟩ sampleCall sampleHost =
        .ok (.inlined report) after ∧
      LogsYields sampleHost sampleYielder sampleCall report after ∧
        report.yieldSites.length = 3 := by
  have wf : sampleHost.scope.graph.WellFormed := by decide +kernel
  have yielderWf : sampleYielder.WellFormed := by decide +kernel
  obtain ⟨report, inlined⟩ := HostStep.exists_report
    (inlineMethod { samplePolicy with prune := true } sampleYielder ⟨0, 0⟩ sampleCall) sampleHost
    (by decide +kernel)
  have logs := (inlineMethod_logsYields wf yielderWf inlined).1 rfl
  exact ⟨wf, yielderWf, report, _, inlined, logs, logs.length_eq.trans (by decide +kernel)⟩

end Inlining

end FlowIR
