import FlowIR.Proofs.Inlining.Seam

/-!
# Images under relabelings

The rule of a call does not look at names.  Where a relabeling leads from what one substitution
makes of a body to what another one makes of it, it leads from the one image to the other, provided
that it also leads from the literals that are made for the one to those made for the other.
-/

namespace FlowIR.Inlining

open FlowIR.Graph

/-! ## Substitutions as relabelings -/

namespace Substitution

/-- A substitution leaves all literals as they are. -/
def relabeling (σ : Substitution) : Relabeling :=
  ⟨σ.block, σ.var, σ.label, id⟩

theorem relabeling_operand (σ : Substitution) : σ.relabeling.operand = σ.operand := by
  funext operand
  rcases operand with v | label | ⟨id, constant⟩
  · rfl
  · rfl
  · cases constant <;> rfl

theorem relabeling_instr (σ : Substitution) : σ.relabeling.instr = σ.instr := by
  funext instr
  rw [Relabeling.instr, relabeling_operand, Substitution.instr, Instr.mapNames_eq_mapParts]
  rfl

theorem relabeling_edge (σ : Substitution) : σ.relabeling.edge = σ.edge := by
  funext edge
  rw [Relabeling.edge, relabeling_operand]
  rfl

end Substitution

variable {μ : Relabeling} {σ τ : Substitution}

/-- A relabeling that leads from image to image on the mentions of an instruction does so on the
instruction. -/
theorem relabel_instr {instr : Instr}
    (leads : ∀ operand ∈ instr.mentions, μ.operand (σ.operand operand) = τ.operand operand) :
    μ.instr (σ.instr instr) = τ.instr instr := by
  rw [← τ.relabeling_instr, ← σ.relabeling_instr, ← Relabeling.instr_comp]
  apply Relabeling.instr_congr
  intro operand mentioned
  rw [Relabeling.operand_comp, σ.relabeling_operand, τ.relabeling_operand]
  exact leads operand mentioned

/-! ## New literals -/

namespace CallBinding

/-- The operands of a call with their names replaced. -/
def relabel (call : CallBinding) (μ : Relabeling) : CallBinding where
  receiver := μ.operand call.receiver
  args := call.args.map μ.operand
  closure := call.closure.map μ.operand
  result := call.result.map μ.var

/-- The number of new literals that an instruction takes in the place of a call. -/
def nils (call : CallBinding) : Instr → Nat
  | .receiveArgument _ index => if index < call.args.length then 0 else 1
  | .receiveClosure _ => if call.closure.isSome then 0 else 1
  | _ => 0

/-- The number of new literals that instructions take. -/
def nilsIn (call : CallBinding) : List Instr → Nat
  | [] => 0
  | instr :: rest => call.nils instr + call.nilsIn rest

variable {call : CallBinding}

@[simp] theorem nilsIn_nil : call.nilsIn [] = 0 :=
  rfl

@[simp] theorem nilsIn_cons (instr : Instr) (rest : List Instr) :
    call.nilsIn (instr :: rest) = call.nils instr + call.nilsIn rest :=
  rfl

@[simp] theorem nilsIn_append (first second : List Instr) :
    call.nilsIn (first ++ second) = call.nilsIn first + call.nilsIn second := by
  induction first with
  | nil => exact (Nat.zero_add _).symm
  | cons instr rest ih => rw [List.cons_append, nilsIn_cons, ih, nilsIn_cons, Nat.add_assoc]

/-- The number of new literals that the instructions of blocks take. -/
def nilsOf (call : CallBinding) (blocks : List Block) : Nat :=
  call.nilsIn (blocks.flatMap (·.instrs))

@[simp] theorem nilsOf_cons (block : Block) (rest : List Block) :
    call.nilsOf (block :: rest) = call.nilsIn block.instrs + call.nilsOf rest := by
  simp [nilsOf]

@[simp] theorem nilsOf_append (first second : List Block) :
    call.nilsOf (first ++ second) = call.nilsOf first + call.nilsOf second := by
  simp [nilsOf]

@[simp] theorem nils_relabel (instr : Instr) : (call.relabel μ).nils instr = call.nils instr := by
  cases instr <;> simp [nils, relabel]

@[simp] theorem nilsIn_relabel (instrs : List Instr) :
    (call.relabel μ).nilsIn instrs = call.nilsIn instrs := by
  induction instrs with
  | nil => rfl
  | cons instr rest ih => rw [nilsIn_cons, nils_relabel, ih, nilsIn_cons]

theorem rule_next (next : Nat) (instr : Instr) :
    (call.rule σ next instr).2 = next + call.nils instr := by
  cases instr with
  | receiveArgument result index =>
      by_cases given : index < call.args.length
      · simp [rule, nils, supply, given]
      · simp [rule, nils, supply, given]
  | receiveClosure result => cases given : call.closure <;> simp [rule, nils, supply, given]
  | _ => rfl

theorem instrs_next (next : Nat) (instrs : List Instr) :
    (call.rule.instrs σ next instrs).2 = next + call.nilsIn instrs := by
  induction instrs generalizing next with
  | nil => rfl
  | cons instr rest ih =>
      have tail : (call.rule.instrs σ next (instr :: rest)).2 =
          (call.rule.instrs σ (call.rule σ next instr).2 rest).2 := rfl
      rw [tail, ih, rule_next, nilsIn_cons, Nat.add_assoc]

theorem block_next (next : Nat) (block : Block) :
    (call.rule.block σ next block).2 = next + call.nilsIn block.instrs :=
  instrs_next next block.instrs

theorem blocks_next (next : Nat) (blocks : List Block) :
    (call.rule.blocks σ next blocks).2 = next + call.nilsOf blocks := by
  induction blocks generalizing next with
  | nil => rfl
  | cons block rest ih => rw [Rule.blocks_cons, ih, block_next, nilsOf_cons, Nat.add_assoc]

/-- The images of two sequences follow one another, and so do their literals. -/
theorem instrs_append (next : Nat) (first second : List Instr) :
    (call.rule.instrs σ next (first ++ second)).1 =
      (call.rule.instrs σ next first).1 ++
        (call.rule.instrs σ (next + call.nilsIn first) second).1 := by
  induction first generalizing next with
  | nil => rfl
  | cons instr rest ih =>
      rw [List.cons_append, Rule.instrs_cons, ih, Rule.instrs_cons, rule_next, nilsIn_cons,
        Nat.add_assoc, List.append_assoc]

theorem blocks_append (next : Nat) (first second : List Block) :
    (call.rule.blocks σ next (first ++ second)).1 =
      (call.rule.blocks σ next first).1 ++
        (call.rule.blocks σ (next + call.nilsOf first) second).1 := by
  induction first generalizing next with
  | nil => rfl
  | cons block rest ih =>
      rw [List.cons_append, Rule.blocks_cons, ih, Rule.blocks_cons, block_next, nilsOf_cons,
        Nat.add_assoc, List.cons_append]

/-- How many instructions are left does not depend on names. -/
theorem length_instrs (call : CallBinding) (σ τ : Substitution) (next other : Nat)
    (instrs : List Instr) :
    (call.rule.instrs σ next instrs).1.length = (call.rule.instrs τ other instrs).1.length := by
  induction instrs generalizing next other with
  | nil => rfl
  | cons instr rest ih =>
      have here : (call.rule σ next instr).1.toList.length =
          (call.rule τ other instr).1.toList.length := by
        cases instr with
        | methodReturn value => cases given : call.result <;> simp [rule, given]
        | _ => rfl
      rw [Rule.instrs_cons, Rule.instrs_cons, List.length_append, List.length_append, here,
        ih _ (call.rule τ other instr).2]

/-! ## Images -/

/-- What a call supplies, or a new `nil`, with its names replaced. -/
theorem supply_relabel {next otherNext : Nat} (given : Option Operand)
    (literal : given = none → μ.literal next = otherNext) :
    (supply otherNext (given.map μ.operand)).1 = μ.operand (supply next given).1 := by
  cases given with
  | none => exact congrArg (fun id => Operand.lit ⟨id, .nil⟩) (literal rfl).symm
  | some operand => rfl

/-- The image of an instruction, with its names replaced, is its image under the other substitution
in the place of the relabeled call. -/
theorem rule_relabel {next otherNext : Nat} {instr : Instr}
    (leads : ∀ operand ∈ instr.mentions, μ.operand (σ.operand operand) = τ.operand operand)
    (literal : 0 < call.nils instr → μ.literal next = otherNext) :
    ((call.relabel μ).rule τ otherNext instr).1 = (call.rule σ next instr).1.map μ.instr := by
  have written : ∀ v, instr.result? = some v → μ.var (σ.var v) = τ.var v := by
    intro v result
    exact Operand.var.inj (leads (.var v) (List.mem_append_right _ (by simp [result])))
  cases instr with
  | receiveSelf result =>
      exact congrArg (fun v => some (Instr.copy v (μ.operand call.receiver))) (written _ rfl).symm
  | receiveArgument result index =>
      have supplied : (supply otherNext (call.args[index]?.map μ.operand)).1 =
          μ.operand (supply next call.args[index]?).1 := by
        apply supply_relabel
        intro missing
        have beyond := Nat.not_lt_of_le (List.getElem?_eq_none_iff.mp missing)
        exact literal (by simp [nils, beyond])
      rw [← List.getElem?_map] at supplied
      exact congrArg₂ (fun v source => some (Instr.copy v source)) (written _ rfl).symm supplied
  | receiveClosure result =>
      have supplied : (supply otherNext (call.closure.map μ.operand)).1 =
          μ.operand (supply next call.closure).1 :=
        supply_relabel _ fun missing => literal (by simp [nils, missing])
      exact congrArg₂ (fun v source => some (Instr.copy v source)) (written _ rfl).symm supplied
  | methodReturn value =>
      have returned := leads value (List.mem_append_left _ List.mem_cons_self)
      show (call.result.map μ.var).map _ = (call.result.map _).map μ.instr
      rw [Option.map_map, Option.map_map, ← returned]
      rfl
  | nop => rfl
  | copy | call | yield | closureReturn | jump | branch =>
      exact congrArg some (relabel_instr leads).symm

theorem instrs_relabel {next otherNext : Nat} {instrs : List Instr}
    (leads : ∀ instr ∈ instrs, ∀ operand ∈ instr.mentions,
      μ.operand (σ.operand operand) = τ.operand operand)
    (literals : ∀ k < call.nilsIn instrs, μ.literal (next + k) = otherNext + k) :
    ((call.relabel μ).rule.instrs τ otherNext instrs).1 =
      (call.rule.instrs σ next instrs).1.map μ.instr := by
  induction instrs generalizing next otherNext with
  | nil => rfl
  | cons instr rest ih =>
      rw [nilsIn_cons] at literals
      have first : ((call.relabel μ).rule τ otherNext instr).1 =
          (call.rule σ next instr).1.map μ.instr := by
        apply rule_relabel (leads instr List.mem_cons_self)
        exact fun draws => literals 0 (Nat.add_pos_left draws _)
      have others : ((call.relabel μ).rule.instrs τ (otherNext + call.nils instr) rest).1 =
          (call.rule.instrs σ (next + call.nils instr) rest).1.map μ.instr := by
        apply ih fun other member => leads other (List.mem_cons_of_mem _ member)
        intro k below
        have here := literals (call.nils instr + k) (Nat.add_lt_add_left below _)
        rwa [← Nat.add_assoc, ← Nat.add_assoc] at here
      rw [Rule.instrs_cons, Rule.instrs_cons, rule_next, rule_next, nils_relabel, first, others,
        List.map_append]
      cases (call.rule σ next instr).1 <;> rfl

end CallBinding

/-- The relabeling leads from what one substitution makes of the names in a block to what the
other one makes of them. -/
structure LeadsAt (μ : Relabeling) (σ τ : Substitution) (block : Block) : Prop where
  id : μ.block (σ.block block.id) = τ.block block.id
  label : μ.label (σ.label block.label) = τ.label block.label
  operand : ∀ instr ∈ block.instrs, ∀ operand ∈ instr.mentions,
    μ.operand (σ.operand operand) = τ.operand operand

theorem CallBinding.blocks_relabel {call : CallBinding} {next otherNext : Nat} {blocks : List Block}
    (leads : ∀ block ∈ blocks, LeadsAt μ σ τ block)
    (literals : ∀ k < call.nilsOf blocks, μ.literal (next + k) = otherNext + k) :
    ((call.relabel μ).rule.blocks τ otherNext blocks).1 =
      (call.rule.blocks σ next blocks).1.map μ.ofBlock := by
  induction blocks generalizing next otherNext with
  | nil => rfl
  | cons block rest ih =>
      rw [nilsOf_cons] at literals
      have here := leads block List.mem_cons_self
      have instrs : ((call.relabel μ).rule.instrs τ otherNext block.instrs).1 =
          (call.rule.instrs σ next block.instrs).1.map μ.instr :=
        instrs_relabel here.operand fun k below => literals k (Nat.lt_add_right _ below)
      have first : ((call.relabel μ).rule.block τ otherNext block).1 =
          μ.ofBlock (call.rule.block σ next block).1 := by
        simp only [Rule.block, Relabeling.ofBlock, instrs, here.id, here.label]
      have others : ((call.relabel μ).rule.blocks τ (otherNext + call.nilsIn block.instrs) rest).1 =
          (call.rule.blocks σ (next + call.nilsIn block.instrs) rest).1.map μ.ofBlock := by
        apply ih fun other member => leads other (List.mem_cons_of_mem _ member)
        intro k below
        have later := literals (call.nilsIn block.instrs + k) (Nat.add_lt_add_left below _)
        rwa [← Nat.add_assoc, ← Nat.add_assoc] at later
      rw [Rule.blocks_cons, Rule.blocks_cons, block_next, nilsIn_relabel, block_next, first, others,
        List.map_cons]

/-! ## Bodies -/

/-- The relabeling leads from what one substitution makes of the names in the live part of a body to
what the other one makes of them. -/
structure Leads (μ : Relabeling) (σ τ : Substitution) (body : Graph) : Prop where
  blocks : ∀ block ∈ body.liveBlocks, LeadsAt μ σ τ block
  edges : ∀ edge ∈ liveEdges body, ∀ operand, edge.data = some operand →
    μ.operand (σ.operand operand) = τ.operand operand

/-- The labels of the live blocks of a body and those that its live part mentions. -/
def bodyLabels (body : Graph) : List Label :=
  body.liveBlocks.map (·.label) ++ (liveMentions body).filterMap fun
    | .label label => some label
    | _ => none

theorem mem_bodyLabels_of_mention {body : Graph} {label : Label}
    (mentioned : .label label ∈ liveMentions body) : label ∈ bodyLabels body :=
  List.mem_append_right _ (List.mem_filterMap.mpr ⟨_, mentioned, rfl⟩)

/-- It is enough to follow each kind of name. -/
theorem Leads.of_names {body : Graph}
    (blocks : ∀ id ∈ body.liveIds, μ.block (σ.block id) = τ.block id)
    (vars : ∀ v, .var v ∈ liveMentions body → μ.var (σ.var v) = τ.var v)
    (labels : ∀ label ∈ bodyLabels body, μ.label (σ.label label) = τ.label label)
    (nils : ∀ id, .lit ⟨id, .nil⟩ ∈ liveMentions body → μ.literal id = id) : Leads μ σ τ body := by
  have operands : ∀ operand ∈ liveMentions body,
      μ.operand (σ.operand operand) = τ.operand operand := by
    intro operand mentioned
    rcases operand with v | label | ⟨id, constant⟩
    · exact congrArg Operand.var (vars v mentioned)
    · exact congrArg Operand.label (labels label (mem_bodyLabels_of_mention mentioned))
    · cases constant with
      | nil => exact congrArg (fun id => Operand.lit ⟨id, .nil⟩) (nils id mentioned)
      | _ => rfl
  constructor
  · intro block member
    refine ⟨blocks _ (List.mem_map_of_mem member), ?_, ?_⟩
    · exact labels _ (List.mem_append_left _ (List.mem_map_of_mem member))
    · intro instr here operand mentioned
      apply operands
      exact List.mem_append_left _ (List.mem_flatMap.mpr
        ⟨block, member, List.mem_flatMap.mpr ⟨instr, here, mentioned⟩⟩)
  · intro edge member operand attached
    apply operands
    exact List.mem_append_right _ (List.mem_filterMap.mpr ⟨edge, member, attached⟩)

variable {body : Graph}

theorem Leads.block_eq (leads : Leads μ σ τ body) {id : BlockId} (live : id ∈ body.liveIds) :
    μ.block (σ.block id) = τ.block id := by
  rcases List.mem_map.mp live with ⟨block, member, rfl⟩
  exact (leads.blocks block member).id

/-- The images of the edges of a body, with their names replaced, are the images under the other
substitution. -/
theorem Leads.map_edgeImages (leads : Leads μ σ τ body) :
    (edgeImages σ body).map μ.edge = edgeImages τ body := by
  rw [edgeImages, List.map_map]
  apply List.map_congr_left
  intro edge member
  have ends := of_decide_eq_true (List.mem_filter.mp member).2
  have data : (edge.data.map σ.operand).map μ.operand = edge.data.map τ.operand := by
    rw [Option.map_map]
    exact Option.map_congr (leads.edges edge member)
  simp only [Function.comp, Relabeling.edge, Substitution.edge, leads.block_eq ends.1,
    leads.block_eq ends.2, data]

/-! ## Two splicings of one body -/

section Follows

variable {policy otherPolicy : Policy} {host other : Host} {setting otherSetting : Setting}
  {call otherCall : CallBinding} {log otherLog : Bool} {block otherBlock : BlockId}
  {site otherSite : Instr} {report otherReport : Report} {after otherAfter : Host}

/-- Where a relabeling leaves the instructions of a block alone, it leads from what one splicing at
a site of that block finds before and after the site to what another one finds. -/
theorem Splicing.map_parts {rule otherRule : Rule} {otherBody : Graph}
    (first : Splicing host policy setting rule log body block site report after)
    (again : Splicing other otherPolicy otherSetting otherRule otherLog otherBody otherBlock site
      otherReport otherAfter) (same : again.held.instrs = first.held.instrs)
    (stays : ∀ instr ∈ first.held.instrs, μ.instr instr = instr) :
    first.pre.map μ.instr = again.pre ∧ first.post.map μ.instr = again.post := by
  have cuts := first.cut_eq
  rw [← same, again.cut_eq, Option.some.injEq, Prod.mk.injEq, List.cons.injEq] at cuts
  rw [first.instrs_eq] at stays
  constructor
  · rw [cuts.1]
    exact map_eq_self fun instr member => stays instr (List.mem_append_left _ member)
  · rw [cuts.2.2]
    exact map_eq_self fun instr member =>
      stays instr (List.mem_append_right _ (List.mem_cons_of_mem _ member))

/-- The relabeling leads from what one splicing of a body makes up to what another one makes up. -/
structure Follows (μ : Relabeling) (σ τ : Substitution)
    (first : Splicing host policy setting call.rule log body block site report after)
    (second : Splicing other otherPolicy otherSetting otherCall.rule otherLog body otherBlock
      otherSite otherReport otherAfter) : Prop where
  agrees : first.pass.Agrees σ
  otherAgrees : second.pass.Agrees τ
  call_eq : call.relabel μ = otherCall
  leads : Leads μ σ τ body
  continuation : μ.block report.continuation = otherReport.continuation
  label : μ.label first.continuationLabel = second.continuationLabel
  literals : ∀ k < call.nilsOf body.liveBlocks,
    μ.literal (host.nextLiteral + k) = other.nextLiteral + k

namespace Follows

variable {first : Splicing host policy setting call.rule log body block site report after}
  {second : Splicing other otherPolicy otherSetting otherCall.rule otherLog body otherBlock
    otherSite otherReport otherAfter}
  (follows : Follows μ σ τ first second)

include follows

/-- The ends of the body are the same. -/
theorem entry_eq : μ.block report.entry = otherReport.entry := by
  have same : first.entry = second.entry :=
    Option.some.inj (first.entry_role.symm.trans second.entry_role)
  rw [first.entry_eq_block follows.agrees, second.entry_eq_block follows.otherAgrees, ← same]
  exact follows.leads.block_eq (List.mem_of_getElem? first.entry_at)

theorem exit_eq : μ.block report.exit = otherReport.exit := by
  have same : first.exit = second.exit :=
    Option.some.inj (first.exit_role.symm.trans second.exit_role)
  rw [first.exit_eq_block follows.agrees, second.exit_eq_block follows.otherAgrees, ← same]
  exact follows.leads.block_eq (List.mem_of_getElem? first.exit_at)

theorem entryLabel_eq (wf : host.scope.graph.WellFormed) (otherWf : other.scope.graph.WellFormed)
    (bodyWf : body.WellFormed) : μ.label first.entryBlock.label = second.entryBlock.label := by
  obtain ⟨source, member, sourceId, labelEq⟩ :=
    first.exists_entryBlock_label wf bodyWf follows.agrees
  obtain ⟨otherSource, otherMember, otherId, otherLabelEq⟩ :=
    second.exists_entryBlock_label otherWf bodyWf follows.otherAgrees
  have found := (bodyWf.mem_liveBlocks_iff.mp member).1
  have otherFound := (bodyWf.mem_liveBlocks_iff.mp otherMember).1
  rw [sourceId, Option.some.inj (first.entry_role.symm.trans second.entry_role), ← otherId,
    otherFound] at found
  obtain rfl := Except.ok.inj found
  rw [labelEq, otherLabelEq]
  exact (follows.leads.blocks _ member).label

/-- The images of the blocks, of which that of the exit jumps to the continuation. -/
theorem images_eq : (first.seam σ).images.map μ.ofBlock = (second.seam τ).images := by
  have images : (otherCall.rule.blocks τ other.nextLiteral body.liveBlocks).1 =
      (call.rule.blocks σ host.nextLiteral body.liveBlocks).1.map μ.ofBlock := by
    rw [← follows.call_eq]
    exact CallBinding.blocks_relabel follows.leads.blocks follows.literals
  simp only [Splicing.seam, images, List.map_map]
  apply List.map_congr_left
  intro image member
  have listed : image.id ∈ body.liveIds.map σ.block := by
    have ids : image.id ∈ (call.rule.blocks σ host.nextLiteral body.liveBlocks).1.map (·.id) :=
      List.mem_map_of_mem member
    rw [Rule.map_id_blocks] at ids
    rw [liveIds, List.map_map]
    exact ids
  rcases List.mem_map.mp listed with ⟨source, live, imageId⟩
  have exitLive := List.mem_of_getElem? first.exit_at
  -- Different blocks of the body become different blocks on either side.
  have atExit : image.id = report.exit ↔ μ.block image.id = otherReport.exit := by
    rw [← follows.exit_eq]
    refine ⟨congrArg μ.block, fun same => ?_⟩
    rw [← imageId, first.exit_eq_block follows.agrees, follows.leads.block_eq live,
      follows.leads.block_eq exitLive] at same
    rw [← imageId, first.exit_eq_block follows.agrees,
      second.carried.block_inj follows.otherAgrees live exitLive same]
  have jump : μ.instr (.jump first.continuationLabel) = .jump second.continuationLabel :=
    congrArg Instr.jump follows.label
  by_cases here : image.id = report.exit
  · simp [jumpingAt, here, Relabeling.ofBlock, Block.append, jump, follows.exit_eq]
  · have notThere : (μ.ofBlock image).id ≠ otherReport.exit := fun same => here (atExit.mpr same)
    simp [jumpingAt, here, notThere]

theorem added_eq (opened : μ.block block = otherBlock) :
    (first.seam σ).added.map μ.edge = (second.seam τ).added := by
  simp only [Splicing.seam, List.map_append, follows.leads.map_edgeImages, List.map_cons,
    List.map_nil, Relabeling.edge, opened, follows.entry_eq, follows.exit_eq, follows.continuation,
    Option.map_none]

/-- Where also the opened blocks correspond, the seams do. -/
theorem seam_eq (wf : host.scope.graph.WellFormed) (otherWf : other.scope.graph.WellFormed)
    (bodyWf : body.WellFormed) (opened : μ.block block = otherBlock)
    (pre : first.pre.map μ.instr = second.pre) (post : first.post.map μ.instr = second.post) :
    (first.seam σ).relabel μ = second.seam τ := by
  have jump : μ.instr (.jump first.entryBlock.label) = .jump second.entryBlock.label :=
    congrArg Instr.jump (follows.entryLabel_eq wf otherWf bodyWf)
  have heads : (first.seam σ).head.map μ.instr = (second.seam τ).head := by
    simp only [Splicing.seam, List.map_append, pre, List.map_cons, List.map_nil, jump]
  have continuations : μ.ofBlock (first.seam σ).continuation = (second.seam τ).continuation := by
    simp only [Splicing.seam, Relabeling.ofBlock, follows.continuation, follows.label, post]
  have sites : μ.block (first.seam σ).site = (second.seam τ).site := opened
  rw [Seam.relabel, sites, heads, continuations, follows.images_eq, follows.added_eq opened]

end Follows

end Follows

end FlowIR.Inlining
