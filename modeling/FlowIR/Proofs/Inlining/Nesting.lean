import FlowIR.Proofs.Inlining.Decision
import FlowIR.Proofs.Inlining.Exchange

/-!
# Nested requests

A method with a call in its body is inlined in two orders.  Bottom up, the splicing `nested` puts
the inner method in the place of the call, in the body, and `whole` puts what came of the body in
the host.  Top down, `shell` puts the body as it was in the host, and `core` the inner method in the
place of the clone of the call.  In the end the host holds the same blocks in the same order, under
the same ids: those of the host, the continuation of the method, the images of its blocks, the
continuation of the call, and the images of the blocks of the inner method.

So the seam of `whole`, once its names are replaced, is that of `shell` with the seam of `core`
grafted onto it (`Nests.relabel_seam`).  The images of the method need care at one block alone: the
clone of the block with the call is cut by `core`, and by `nested` before it was cloned.  Where that
block is the exit of the method, the jump to the continuation of the method stands in both orders at
the end of what follows the call.
-/

namespace FlowIR.Inlining

open FlowIR.Graph
open scoped List

/-! ## Calls -/

/-- A call takes no new literals, and is only renamed. -/
theorem CallBinding.rule_of_call {call inner : CallBinding} {σ : Substitution} {site : Instr}
    (bound : CallBinding.of? site = some inner) (next : Nat) :
    call.rule σ next site = (some (σ.instr site), next) := by
  cases site with
  | call => rfl
  | _ => contradiction

theorem CallBinding.nils_of_call {call inner : CallBinding} {site : Instr}
    (bound : CallBinding.of? site = some inner) : call.nils site = 0 := by
  cases site with
  | call => rfl
  | _ => contradiction

/-- No other instruction becomes the image of a call. -/
theorem CallBinding.eq_of_rule_eq_call {call inner : CallBinding} {σ : Substitution}
    {site source : Instr} {next : Nat} (injective : Function.Injective σ.instr)
    (bound : CallBinding.of? site = some inner)
    (becomes : σ.instr site ∈ (call.rule σ next source).1) : source = site := by
  cases site with
  | call result receiver method args closure =>
      cases source with
      | methodReturn value =>
          rcases Option.map_eq_some_iff.mp becomes with ⟨result, -, same⟩
          contradiction
      | nop => contradiction
      | receiveSelf | receiveArgument | receiveClosure =>
          have copied := Option.some.inj becomes
          contradiction
      | copy | call | yield | closureReturn | jump | branch =>
          exact injective (Option.some.inj becomes)
  | _ => contradiction

/-! ## Images of images -/

/-- Under every call nothing becomes of the instruction but that its names are replaced. -/
def Settled (instr : Instr) : Prop :=
  ∀ (call : CallBinding) (σ : Substitution) (next : Nat),
    call.rule σ next instr = (some (σ.instr instr), next)

/-- What a call makes of an instruction is settled. -/
theorem settled_of_rule {call : CallBinding} {σ : Substitution} {next : Nat} {source image : Instr}
    (becomes : image ∈ (call.rule σ next source).1) : Settled image := by
  intro other τ k
  cases source with
  | methodReturn value =>
      rcases Option.map_eq_some_iff.mp becomes with ⟨result, -, rfl⟩
      rfl
  | nop => contradiction
  | _ =>
      obtain rfl := Option.some.inj becomes
      rfl

/-- Settled blocks are only relabeled when they are carried over. -/
theorem CallBinding.blocks_of_settled {call : CallBinding} {σ : Substitution} {blocks : List Block}
    (settled : ∀ block ∈ blocks, ∀ instr ∈ block.instrs, Settled instr) (next : Nat) :
    (call.rule.blocks σ next blocks).1 = blocks.map σ.relabeling.ofBlock := by
  have sequence : ∀ (instrs : List Instr), (∀ instr ∈ instrs, Settled instr) → ∀ next,
      call.rule.instrs σ next instrs = (instrs.map σ.relabeling.instr, next) := by
    intro instrs
    induction instrs with
    | nil => exact fun _ _ => rfl
    | cons instr rest ih =>
        intro settled next
        have here : call.rule σ next instr = (some (σ.instr instr), next) :=
          settled instr List.mem_cons_self call σ next
        have others := ih (fun other member => settled other (List.mem_cons_of_mem _ member)) next
        simp only [Rule.instrs, here, others, List.map_cons, σ.relabeling_instr]
        rfl
  induction blocks generalizing next with
  | nil => rfl
  | cons block rest ih =>
      have here : call.rule.block σ next block = (σ.relabeling.ofBlock block, next) := by
        rw [Rule.block, sequence _ (settled block List.mem_cons_self)]
        rfl
      rw [Rule.blocks_cons, here,
        ih (fun other member => settled other (List.mem_cons_of_mem _ member))]
      rfl

/-- The images in a seam are settled. -/
theorem Splicing.settled_images {policy : Policy} {host : Host} {setting : Setting}
    {call : CallBinding} {log : Bool} {body : Graph} {block : BlockId} {site : Instr}
    {report : Report} {after : Host}
    (splicing : Splicing host policy setting call.rule log body block site report after)
    (σ : Substitution) :
    ∀ image ∈ (splicing.seam σ).images, ∀ instr ∈ image.instrs, Settled instr := by
  intro image member instr here
  rcases List.mem_map.mp member with ⟨before, listed, rfl⟩
  rcases List.mem_iff_getElem?.mp listed with ⟨i, at_i⟩
  rcases Rule.exists_source_of_getElem? _ at_i with ⟨source, literal, -, rfl⟩
  have settled : ∀ instr ∈ (call.rule.block σ literal source).1.instrs, Settled instr :=
    Rule.forall_mem_instrs (fun _ _ _ _ becomes => settled_of_rule becomes) literal
  unfold jumpingAt at here
  split at here
  · rcases List.mem_append.mp here with old | jump
    · exact settled instr old
    · rw [List.mem_singleton.mp jump]
      exact fun _ _ _ => rfl
  · exact settled instr here

/-! ## Four requests -/

section Nested

/-- The literals that are made for what follows a site come last in the one order, and in the other
one before those that are made for later blocks. -/
structure Rearranges (ρ : Relabeling) (start otherStart lead tail rest : Nat) : Prop where
  before : ∀ k < lead, ρ.literal (start + k) = otherStart + k
  later : ∀ k < rest, ρ.literal (start + lead + k) = otherStart + (lead + tail) + k
  after : ∀ k < tail, ρ.literal (start + (lead + rest) + k) = otherStart + lead + k

variable {policy : Policy} {inside host grown last middle otherLast : Host}
  {innerSetting setting coreSetting : Setting} {inner call coreCall : CallBinding}
  {innerLog log coreLog : Bool} {leaf : Graph} {innerBlock block coreBlock : BlockId}
  {innerSite site coreSite : Instr} {nestedReport wholeReport shellReport coreReport : Report}

/-- The names of the bottom up order become those of the top down order under `ρ`: of the
inner method by `follows`, of the method around it by `leads`, of the host by `call_eq` and
`label`.  The live blocks of the method are split at the one with the call, since literals are
counted block by block. -/
structure Nests (ρ : Relabeling) (σ σ' τ τ' : Substitution)
    (nested : Splicing inside policy innerSetting inner.rule innerLog leaf innerBlock innerSite
      nestedReport grown)
    (whole : Splicing { host with nextLiteral := grown.nextLiteral } policy setting call.rule log
      grown.scope.graph block site wholeReport last)
    (shell : Splicing host policy setting call.rule log inside.scope.graph block site
      shellReport middle)
    (core : Splicing middle policy coreSetting coreCall.rule coreLog leaf coreBlock coreSite
      coreReport otherLast)
    (before later : List Block) : Prop where
  split : inside.scope.graph.liveBlocks = before ++ nested.held :: later
  unpruned : policy.prune = false
  block : ∀ id, ρ.block id = id
  follows : Follows (ρ.comp σ'.relabeling) σ τ nested core
  agrees : whole.pass.Agrees σ'
  otherAgrees : shell.pass.Agrees τ'
  call_eq : call.relabel ρ = call
  leads : Leads ρ σ' τ' inside.scope.graph
  label : ρ.label whole.continuationLabel = shell.continuationLabel
  bound : CallBinding.of? innerSite = some inner
  site_eq : τ'.instr innerSite = coreSite
  block_eq : τ'.block innerBlock = coreBlock
  injective : Function.Injective τ'.instr
  literals : Rearranges ρ grown.nextLiteral host.nextLiteral
    (call.nilsOf before + call.nilsIn nested.pre) (call.nilsIn nested.post)
    (call.nilsOf later)

namespace Nests

variable {ρ : Relabeling} {σ σ' τ τ' : Substitution} {before later : List Block}
  {nested : Splicing inside policy innerSetting inner.rule innerLog leaf innerBlock innerSite
      nestedReport grown}
  {whole : Splicing { host with nextLiteral := grown.nextLiteral } policy setting call.rule log
      grown.scope.graph block site wholeReport last}
  {shell : Splicing host policy setting call.rule log inside.scope.graph block site
    shellReport middle}
  {core : Splicing middle policy coreSetting coreCall.rule coreLog leaf coreBlock coreSite
    coreReport otherLast}
  (nests : Nests ρ σ σ' τ τ' nested whole shell core before later)

include nests

theorem held_mem_liveBlocks : nested.held ∈ inside.scope.graph.liveBlocks := by
  rw [nests.split]
  exact List.mem_append_right _ List.mem_cons_self

theorem before_subset : ∀ held ∈ before, held ∈ inside.scope.graph.liveBlocks := by
  intro held member
  rw [nests.split]
  exact List.mem_append_left _ member

theorem later_subset : ∀ held ∈ later, held ∈ inside.scope.graph.liveBlocks := by
  intro held member
  rw [nests.split]
  exact List.mem_append_right _ (List.mem_cons_of_mem _ member)

/-- The other live blocks of the method are not the one with the site. -/
theorem before_ne (insideWf : inside.scope.graph.WellFormed) :
    (∀ held ∈ before, held.id ≠ innerBlock) ∧ ∀ held ∈ later, held.id ≠ innerBlock := by
  have ids := insideWf.liveIds_nodup
  rw [liveIds, nests.split, List.map_append, List.map_cons, insideWf.id_of_owned nested.found,
    List.nodup_append] at ids
  constructor
  · intro held member
    exact ids.2.2 _ (List.mem_map_of_mem member) _ List.mem_cons_self
  · rintro held member same
    exact (List.nodup_cons.mp ids.2.1).1 (same ▸ List.mem_map_of_mem member)

/-- The live blocks of the method after the call in it was inlined. -/
theorem liveBlocks_grown (insideWf : inside.scope.graph.WellFormed) (leafWf : leaf.WellFormed) :
    grown.scope.graph.liveBlocks =
      before ++ nested.held.withInstrs (nested.seam σ).head ::
        (later ++ (nested.seam σ).continuation :: (nested.seam σ).images) := by
  rw [nested.liveBlocks_after insideWf leafWf nests.follows.agrees nests.unpruned, nests.split]
  obtain ⟨others, laterOthers⟩ := nests.before_ne insideWf
  have same : before.map (nested.seam σ).cut = before :=
    map_eq_self fun held member => Seam.cut_of_ne (others held member)
  have laterSame : later.map (nested.seam σ).cut = later :=
    map_eq_self fun held member => Seam.cut_of_ne (laterOthers held member)
  have opened : (nested.seam σ).cut nested.held = nested.held.withInstrs (nested.seam σ).head :=
    if_pos (insideWf.id_of_owned nested.found)
  simp only [Seam.blocks, List.map_append, List.map_cons, same, laterSame, opened,
    List.append_assoc, List.cons_append]

/-! ### Ends -/

theorem mem_liveIds (insideWf : inside.scope.graph.WellFormed) :
    innerBlock ∈ inside.scope.graph.liveIds := by
  rw [← insideWf.id_of_owned nested.found]
  exact List.mem_map_of_mem nests.held_mem_liveBlocks

theorem seam_site : (core.seam τ).site = τ'.block innerBlock := nests.block_eq.symm

theorem injective_block : Function.Injective ρ.block := fun a b same => by
  rwa [nests.block, nests.block] at same

theorem map_block (role : Option BlockId) : role.map ρ.block = role := by
  cases role with
  | none => rfl
  | some id => exact congrArg some (nests.block id)

/-- The blocks of the method have the same ids in the end. -/
theorem block_eq_block {id : BlockId} (live : id ∈ inside.scope.graph.liveIds) :
    σ'.block id = τ'.block id := by
  rw [← nests.block (σ'.block id)]
  exact nests.leads.block_eq live

theorem entry_eq : wholeReport.entry = shellReport.entry := by
  have role := nested.entry_after.symm.trans whole.entry_role
  have same : shell.entry = whole.entry := Option.some.inj (shell.entry_role.symm.trans role)
  have live := List.mem_of_getElem? shell.entry_at
  rw [whole.entry_eq_block nests.agrees, shell.entry_eq_block nests.otherAgrees, ← same]
  exact nests.block_eq_block live

theorem continuation_eq : σ'.block nestedReport.continuation = coreReport.continuation := by
  rw [← nests.block (σ'.block _)]
  exact nests.follows.continuation

/-- Where the exit of the method is cut, the continuation becomes its exit. -/
theorem exit_eq (insideWf : inside.scope.graph.WellFormed) :
    wholeReport.exit =
      if coreBlock = shellReport.exit then coreReport.continuation else shellReport.exit := by
  have role := (nested.exit_after σ).symm.trans whole.exit_role
  have exitLive := List.mem_of_getElem? shell.exit_at
  have same : coreBlock = shellReport.exit ↔ shell.exit = innerBlock := by
    rw [shell.exit_eq_block nests.otherAgrees, ← nests.block_eq]
    constructor
    · intro same
      exact shell.carried.block_inj nests.otherAgrees exitLive
        (nests.mem_liveIds insideWf) same.symm
    · rintro rfl
      rfl
  rw [whole.exit_eq_block nests.agrees]
  by_cases here : shell.exit = innerBlock
  · have cut : nestedReport.continuation = whole.exit := by
      rw [shell.exit_role, here] at role
      exact Option.some.inj ((if_pos rfl).symm.trans role)
    rw [if_pos (same.mpr here), ← cut]
    exact nests.continuation_eq
  · have kept : shell.exit = whole.exit := by
      rw [shell.exit_role] at role
      exact Option.some.inj ((if_neg fun equal => here (Option.some.inj equal)).symm.trans role)
    rw [if_neg fun equal => here (same.mp equal), ← kept, shell.exit_eq_block nests.otherAgrees]
    exact nests.block_eq_block exitLive

theorem entryLabel_eq (insideWf : inside.scope.graph.WellFormed) (leafWf : leaf.WellFormed)
    (hostWf : host.scope.graph.WellFormed) :
    ρ.label whole.entryBlock.label = shell.entryBlock.label := by
  have grownWf := nested.wellFormed insideWf leafWf
  obtain ⟨source, member, sourceId, labelEq⟩ :=
    shell.exists_entryBlock_label hostWf insideWf nests.otherAgrees
  obtain ⟨other, otherMember, otherId, otherLabelEq⟩ :=
    whole.exists_entryBlock_label hostWf grownWf nests.agrees
  have role := nested.entry_after.symm.trans whole.entry_role
  have same : shell.entry = whole.entry := Option.some.inj (shell.entry_role.symm.trans role)
  have kept : other.label = source.label := by
    have found := (insideWf.mem_liveBlocks_iff.mp member).1
    rcases nested.exists_owned_after insideWf leafWf found with ⟨there, thereFound, label⟩
    rw [sourceId, same, ← otherId, (grownWf.mem_liveBlocks_iff.mp otherMember).1] at thereFound
    rw [Except.ok.inj thereFound, label]
  rw [otherLabelEq, labelEq, kept]
  exact (nests.leads.blocks source member).label

/-! ### The site in the clone -/

/-- The images of what stands before and after the site. -/
theorem images_shell :
    (call.rule.blocks τ' host.nextLiteral inside.scope.graph.liveBlocks).1 =
      (call.rule.blocks τ' host.nextLiteral before).1 ++
        (call.rule.block τ' (host.nextLiteral + call.nilsOf before) nested.held).1 ::
        (call.rule.blocks τ' (host.nextLiteral + (call.nilsOf before + call.nilsIn nested.pre +
          call.nilsIn nested.post)) later).1 := by
  have nextEq : ∀ next, (call.rule.block τ' next nested.held).2 =
      next + (call.nilsIn nested.pre + call.nilsIn nested.post) := by
    intro next
    rw [CallBinding.block_next, nested.instrs_eq, CallBinding.nilsIn_append,
      CallBinding.nilsIn_cons, CallBinding.nils_of_call nests.bound, Nat.zero_add]
  rw [nests.split, CallBinding.blocks_append, Rule.blocks_cons, nextEq]
  simp only [Nat.add_assoc]

theorem id_clone (insideWf : inside.scope.graph.WellFormed) :
    τ'.block nested.held.id = coreBlock := by
  rw [insideWf.id_of_owned nested.found, nests.block_eq]

/-- The clone of the block with the site. -/
theorem held_core (hostWf : host.scope.graph.WellFormed)
    (insideWf : inside.scope.graph.WellFormed) :
    core.held = jumpingAt shellReport.exit shell.continuationLabel
      (call.rule.block τ' (host.nextLiteral + call.nilsOf before) nested.held).1 := by
  have member : jumpingAt shellReport.exit shell.continuationLabel
      (call.rule.block τ' (host.nextLiteral + call.nilsOf before) nested.held).1 ∈
        middle.scope.graph.blocks := by
    rw [shell.blocks_after hostWf insideWf nests.otherAgrees (.inl nests.unpruned)]
    apply List.mem_append_right
    apply List.mem_cons_of_mem
    apply List.mem_map_of_mem
    rw [nests.images_shell]
    simp
  have found := (shell.wellFormed hostWf insideWf).mem_blocks_iff.mp member
  rw [jumpingAt_id, show (call.rule.block τ' _ nested.held).1.id = _ from nests.id_clone insideWf,
    core.found] at found
  exact Except.ok.inj found

/-- The clone of the site stands between the images of what stood before and after the site. -/
theorem cut_core (hostWf : host.scope.graph.WellFormed) (insideWf : inside.scope.graph.WellFormed) :
    core.pre = (call.rule.instrs τ' (host.nextLiteral + call.nilsOf before) nested.pre).1 ∧
    core.post =
      (call.rule.instrs τ' (host.nextLiteral + (call.nilsOf before + call.nilsIn nested.pre))
          nested.post).1 ++
        if coreBlock = shellReport.exit then [.jump shell.continuationLabel] else [] := by
  have parts : core.pre ++ coreSite :: core.post =
      (call.rule.instrs τ' (host.nextLiteral + call.nilsOf before) nested.pre).1 ++ coreSite ::
        ((call.rule.instrs τ' (host.nextLiteral + (call.nilsOf before + call.nilsIn nested.pre))
            nested.post).1 ++
          if coreBlock = shellReport.exit then [.jump shell.continuationLabel] else []) := by
    rw [← core.instrs_eq, nests.held_core hostWf insideWf, jumpingAt_instrs]
    simp only [Rule.block, nested.instrs_eq, CallBinding.instrs_append, Rule.instrs_cons,
      CallBinding.rule_of_call nests.bound, nests.site_eq, nests.id_clone insideWf, Nat.add_assoc,
      Option.toList_some, List.append_assoc, List.nil_append, List.cons_append]
  have first : coreSite ∉
      (call.rule.instrs τ' (host.nextLiteral + call.nilsOf before) nested.pre).1 := by
    intro member
    rw [← nests.site_eq] at member
    have images :
        ∀ image ∈ (call.rule.instrs τ' (host.nextLiteral + call.nilsOf before) nested.pre).1,
        image ≠ τ'.instr innerSite := by
      apply Rule.forall_mem_instrs
      rintro source listed next image becomes rfl
      have same := CallBinding.eq_of_rule_eq_call nests.injective nests.bound becomes
      exact nested.first (same ▸ listed)
    exact images _ member rfl
  have cuts := core.cut_eq
  rw [core.instrs_eq, parts, cut_of_first first, Option.some.injEq, Prod.mk.injEq,
    List.cons.injEq] at cuts
  exact ⟨cuts.1.symm, cuts.2.2.symm⟩

/-! ### Blocks -/

/-- Images of blocks of the method, with their names replaced. -/
theorem map_images {blocks : List Block}
    (live : ∀ held ∈ blocks, held ∈ inside.scope.graph.liveBlocks) {start otherStart : Nat}
    (literals : ∀ k < call.nilsOf blocks, ρ.literal (start + k) = otherStart + k) :
    (call.rule.blocks σ' start blocks).1.map ρ.ofBlock =
      (call.rule.blocks τ' otherStart blocks).1 := by
  have images :=
    CallBinding.blocks_relabel (fun held member => nests.leads.blocks held (live held member))
    literals
  rwa [nests.call_eq, eq_comm] at images

/-- Images of instructions of the opened block, with their names replaced. -/
theorem map_instrs {instrs : List Instr} (here : ∀ instr ∈ instrs, instr ∈ nested.held.instrs)
    {start otherStart : Nat}
    (literals : ∀ k < call.nilsIn instrs, ρ.literal (start + k) = otherStart + k) :
    (call.rule.instrs σ' start instrs).1.map ρ.instr =
      (call.rule.instrs τ' otherStart instrs).1 := by
  have leads := nests.leads.blocks _ nests.held_mem_liveBlocks
  have images := CallBinding.instrs_relabel
    (fun instr listed => leads.operand instr (here instr listed)) literals
  rwa [nests.call_eq, eq_comm] at images

/-- What becomes of the opened block. -/
theorem ofBlock_opened (hostWf : host.scope.graph.WellFormed)
    (insideWf : inside.scope.graph.WellFormed) (leafWf : leaf.WellFormed) :
    ρ.ofBlock (call.rule.block σ' (grown.nextLiteral + call.nilsOf before)
        (nested.held.withInstrs (nested.seam σ).head)).1 =
      (call.rule.block τ' (host.nextLiteral + call.nilsOf before) nested.held).1.withInstrs
        (core.seam τ).head := by
  have leads := nests.leads.blocks _ nests.held_mem_liveBlocks
  have jump : ρ.label (σ'.label nested.entryBlock.label) = core.entryBlock.label :=
    nests.follows.entryLabel_eq insideWf (shell.wellFormed hostWf insideWf) leafWf
  have kept : ∀ instr ∈ nested.pre, instr ∈ nested.held.instrs := by
    rw [nested.instrs_eq]
    exact fun instr listed => List.mem_append_left _ listed
  have instrs :
      (call.rule.instrs σ' (grown.nextLiteral + call.nilsOf before) nested.pre).1.map ρ.instr =
        core.pre := by
    rw [(nests.cut_core hostWf insideWf).1]
    apply nests.map_instrs kept
    intro k below
    have literal := nests.literals.before (call.nilsOf before + k) (Nat.add_lt_add_left below _)
    rwa [← Nat.add_assoc, ← Nat.add_assoc] at literal
  simp only [Rule.block, Relabeling.ofBlock, Block.withInstrs, leads.id, leads.label, Splicing.seam,
    CallBinding.instrs_append, List.map_append, instrs]
  simp only [Rule.instrs, CallBinding.rule, Option.toList_some]
  rw [← jump]
  rfl

/-- What becomes of the continuation, but for the jump of an exit. -/
theorem ofBlock_continuation :
    ρ.ofBlock (call.rule.block σ'
      (grown.nextLiteral + (call.nilsOf before + call.nilsIn nested.pre +
        call.nilsOf later)) (nested.seam σ).continuation).1 =
      (core.seam τ).continuation.withInstrs (call.rule.instrs τ' (host.nextLiteral +
        (call.nilsOf before + call.nilsIn nested.pre)) nested.post).1 := by
  have kept : ∀ instr ∈ nested.post, instr ∈ nested.held.instrs := by
    rw [nested.instrs_eq]
    exact fun instr listed => List.mem_append_right _ (List.mem_cons_of_mem _ listed)
  have instrs := nests.map_instrs kept nests.literals.after
  have id : ρ.block (σ'.block nestedReport.continuation) = coreReport.continuation :=
    nests.follows.continuation
  have label : ρ.label (σ'.label nested.continuationLabel) = core.continuationLabel :=
    nests.follows.label
  simp only [Rule.block, Relabeling.ofBlock, Splicing.seam, Block.withInstrs, instrs, id, label]

/-- What becomes of the method with the call inlined, but for the jump of its exit. -/
theorem images_whole (hostWf : host.scope.graph.WellFormed)
    (insideWf : inside.scope.graph.WellFormed) (leafWf : leaf.WellFormed) :
    (call.rule.blocks σ' grown.nextLiteral grown.scope.graph.liveBlocks).1.map ρ.ofBlock =
      (call.rule.blocks τ' host.nextLiteral before).1 ++
        (call.rule.block τ' (host.nextLiteral + call.nilsOf before) nested.held).1.withInstrs
          (core.seam τ).head ::
        ((call.rule.blocks τ' (host.nextLiteral + (call.nilsOf before + call.nilsIn nested.pre +
            call.nilsIn nested.post)) later).1 ++
          (core.seam τ).continuation.withInstrs (call.rule.instrs τ' (host.nextLiteral +
            (call.nilsOf before + call.nilsIn nested.pre)) nested.post).1 ::
          (core.seam τ).images) := by
  have earlier : (call.rule.blocks σ' grown.nextLiteral before).1.map ρ.ofBlock =
      (call.rule.blocks τ' host.nextLiteral before).1 := by
    apply nests.map_images nests.before_subset
    exact fun k below => nests.literals.before k (Nat.lt_add_right _ below)
  have others :
      (call.rule.blocks σ' (grown.nextLiteral + (call.nilsOf before + call.nilsIn nested.pre))
      later).1.map ρ.ofBlock = (call.rule.blocks τ' (host.nextLiteral + (call.nilsOf before +
        call.nilsIn nested.pre + call.nilsIn nested.post)) later).1 :=
    nests.map_images nests.later_subset nests.literals.later
  have inner : ∀ next, (call.rule.blocks σ' next (nested.seam σ).images).1.map ρ.ofBlock =
      (core.seam τ).images := by
    intro next
    rw [CallBinding.blocks_of_settled (nested.settled_images σ), List.map_map,
      ← nests.follows.images_eq]
    exact List.map_congr_left fun held _ => (Relabeling.ofBlock_comp held).symm
  have opened : ∀ next, (call.rule.block σ' next (nested.held.withInstrs (nested.seam σ).head)).2 =
      next + call.nilsIn nested.pre := by
    intro next
    rw [CallBinding.block_next]
    simp [Block.withInstrs, Splicing.seam, CallBinding.nils]
  have laterNext : grown.nextLiteral + call.nilsOf before + call.nilsIn nested.pre =
      grown.nextLiteral + (call.nilsOf before + call.nilsIn nested.pre) := Nat.add_assoc _ _ _
  rw [nests.liveBlocks_grown insideWf leafWf, CallBinding.blocks_append, Rule.blocks_cons, opened,
    CallBinding.blocks_append, Rule.blocks_cons, laterNext, Nat.add_assoc _ _ (call.nilsOf later)]
  simp only [List.map_append, List.map_cons, earlier, others, inner,
    nests.ofBlock_opened hostWf insideWf leafWf, nests.ofBlock_continuation]

/-- The images of the live blocks of the method are blocks of the clone's host. -/
theorem owns_image (hostWf : host.scope.graph.WellFormed) (insideWf : inside.scope.graph.WellFormed)
    {id : BlockId} (live : id ∈ inside.scope.graph.liveIds) :
    middle.scope.graph.Owns (τ'.block id) := by
  have member : τ'.block id ∈ middle.scope.graph.blocks.map (·.id) := by
    rw [shell.blocks_after hostWf insideWf nests.otherAgrees (.inl nests.unpruned),
      Seam.map_id_blocks, shell.map_id_images]
    exact List.mem_append_right _ (List.mem_cons_of_mem _ (List.mem_map_of_mem live))
  rcases List.mem_map.mp member with ⟨held, listed, same⟩
  rw [← same]
  exact .of_owned ((shell.wellFormed hostWf insideWf).mem_blocks_iff.mp listed)

/-- Images of other blocks of the method jump in both orders to the continuation, or in neither. -/
theorem jumps_eq (insideWf : inside.scope.graph.WellFormed) {image : Block}
    (other : image.id ≠ coreBlock) (old : image.id ≠ coreReport.continuation) (label : Label) :
    jumpingAt wholeReport.exit label image =
      (core.seam τ).cut (jumpingAt shellReport.exit label image) := by
  have spared : (jumpingAt shellReport.exit label image).id ≠ (core.seam τ).site := by
    rw [jumpingAt_id]
    exact other
  rw [nests.exit_eq insideWf, Seam.cut_of_ne spared]
  by_cases atExit : coreBlock = shellReport.exit
  · rw [if_pos atExit, jumpingAt_of_ne old, jumpingAt_of_ne (atExit ▸ other)]
  · rw [if_neg atExit]

/-- So do the images of the blocks of one part of the method. -/
theorem map_jumps_eq (hostWf : host.scope.graph.WellFormed)
    (insideWf : inside.scope.graph.WellFormed) (blocks : List Block)
    (live : ∀ held ∈ blocks, held ∈ inside.scope.graph.liveBlocks)
    (others : ∀ held ∈ blocks, held.id ≠ innerBlock) (next : Nat) (label : Label) :
    (call.rule.blocks τ' next blocks).1.map (jumpingAt wholeReport.exit label) =
      ((call.rule.blocks τ' next blocks).1.map (jumpingAt shellReport.exit label)).map
        (core.seam τ).cut := by
  rw [List.map_map]
  apply List.map_congr_left
  intro image member
  have listed : image.id ∈ (call.rule.blocks τ' next blocks).1.map (·.id) :=
    List.mem_map_of_mem member
  rw [Rule.map_id_blocks] at listed
  rcases List.mem_map.mp listed with ⟨source, sourceMember, sourceId⟩
  have sourceLive : source.id ∈ inside.scope.graph.liveIds :=
    List.mem_map_of_mem (live source sourceMember)
  apply nests.jumps_eq insideWf
  · rw [← sourceId, ← nests.block_eq]
    exact fun same => others source sourceMember
      (shell.carried.block_inj nests.otherAgrees sourceLive (nests.mem_liveIds insideWf) same)
  · have owns := nests.owns_image hostWf insideWf sourceLive
    rw [← sourceId]
    rintro same
    rw [same] at owns
    exact core.not_owns_continuation (shell.wellFormed hostWf insideWf) owns

/-- The exit of the method jumps from the continuation where it was cut. -/
theorem jumpingAt_continuation (hostWf : host.scope.graph.WellFormed)
    (insideWf : inside.scope.graph.WellFormed) :
    jumpingAt wholeReport.exit shell.continuationLabel ((core.seam τ).continuation.withInstrs
      (call.rule.instrs τ' (host.nextLiteral + (call.nilsOf before + call.nilsIn nested.pre))
        nested.post).1) = (core.seam τ).continuation := by
  have exitLive := List.mem_of_getElem? shell.exit_at
  have owns := nests.owns_image hostWf insideWf exitLive
  rw [← shell.exit_eq_block nests.otherAgrees] at owns
  have atExit : coreReport.continuation = wholeReport.exit ↔ coreBlock = shellReport.exit := by
    rw [nests.exit_eq insideWf]
    split
    next here => exact iff_of_true rfl here
    next notHere =>
      apply iff_of_false _ notHere
      intro same
      rw [← same] at owns
      exact core.not_owns_continuation (shell.wellFormed hostWf insideWf) owns
  have post := (nests.cut_core hostWf insideWf).2
  by_cases here : coreBlock = shellReport.exit
  · rw [if_pos here] at post
    refine (if_pos (atExit.mpr here)).trans ?_
    simp only [Splicing.seam, Block.append, Block.withInstrs, post]
  · rw [if_neg here, List.append_nil] at post
    refine (if_neg fun same => here (atExit.mp same)).trans ?_
    rw [← post]
    rfl

/-- The block with the site does not jump to the continuation of the method. -/
theorem jumpingAt_clone (hostWf : host.scope.graph.WellFormed)
    (insideWf : inside.scope.graph.WellFormed) (next : Nat) (label : Label) :
    jumpingAt wholeReport.exit label
        ((call.rule.block τ' next nested.held).1.withInstrs (core.seam τ).head) =
      (core.seam τ).cut (jumpingAt shellReport.exit label
        (call.rule.block τ' next nested.held).1) := by
  have id : (call.rule.block τ' next nested.held).1.id = coreBlock := nests.id_clone insideWf
  have opened : (jumpingAt shellReport.exit label (call.rule.block τ' next nested.held).1).id =
      (core.seam τ).site := by
    rw [jumpingAt_id, id]
    rfl
  have different : coreBlock ≠ wholeReport.exit := by
    rw [nests.exit_eq insideWf]
    split
    · exact core.block_ne_continuation (shell.wellFormed hostWf insideWf)
    · assumption
  rw [Seam.cut, if_pos opened]
  refine (if_neg (ne_of_eq_of_ne id different)).trans ?_
  unfold jumpingAt
  split <;> rfl

/-- What becomes of the method is the same in the end. -/
theorem map_seam_images (hostWf : host.scope.graph.WellFormed)
    (insideWf : inside.scope.graph.WellFormed) (leafWf : leaf.WellFormed) :
    (whole.seam σ').images.map ρ.ofBlock = ((shell.seam τ').graft (core.seam τ)).images := by
  have middleWf := shell.wellFormed hostWf insideWf
  have jumps : ∀ images : List Block,
      (images.map (jumpingAt wholeReport.exit whole.continuationLabel)).map ρ.ofBlock =
        (images.map ρ.ofBlock).map (jumpingAt wholeReport.exit shell.continuationLabel) := by
    intro images
    simp only [List.map_map]
    apply List.map_congr_left
    intro image _
    exact (ofBlock_jumpingAt nests.injective_block _ _ _).trans
      (by rw [nests.block, nests.label]; rfl)
  have earlier := nests.map_jumps_eq hostWf insideWf before nests.before_subset
    (nests.before_ne insideWf).1
  have others := nests.map_jumps_eq hostWf insideWf later nests.later_subset
    (nests.before_ne insideWf).2
  have inner : (core.seam τ).images.map (jumpingAt wholeReport.exit shell.continuationLabel) =
      (core.seam τ).images := by
    apply map_eq_self
    intro image member
    apply jumpingAt_of_ne
    have listed : image.id ∈ (core.seam τ).images.map (·.id) := List.mem_map_of_mem member
    rw [core.map_id_images] at listed
    rcases List.mem_map.mp listed with ⟨source, live, sourceId⟩
    rw [nests.exit_eq insideWf, ← sourceId]
    split
    · exact core.continuation_ne_image middleWf nests.follows.otherAgrees live
    · have owns := nests.owns_image hostWf insideWf (List.mem_of_getElem? shell.exit_at)
      rw [← shell.exit_eq_block nests.otherAgrees] at owns
      rintro same
      rw [← same] at owns
      exact core.not_owns_image middleWf nests.follows.otherAgrees live owns
  show ((call.rule.blocks σ' grown.nextLiteral grown.scope.graph.liveBlocks).1.map
    (jumpingAt wholeReport.exit whole.continuationLabel)).map ρ.ofBlock = _
  rw [jumps, nests.images_whole hostWf insideWf leafWf]
  simp only [List.map_append, List.map_cons, earlier, others, inner,
    nests.jumpingAt_clone hostWf insideWf, nests.jumpingAt_continuation hostWf insideWf]
  rw [Seam.graft,
    show (shell.seam τ').images =
      (call.rule.blocks τ' host.nextLiteral inside.scope.graph.liveBlocks).1.map
        (jumpingAt shellReport.exit shell.continuationLabel) from rfl,
    nests.images_shell]
  simp only [List.map_append, List.map_cons, List.append_assoc, List.cons_append]

/-! ### Edges -/

/-- No other block of the method comes alive or dies. -/
theorem mem_liveIds_grown_iff (insideWf : inside.scope.graph.WellFormed) (leafWf : leaf.WellFormed)
    {id : BlockId} (owns : inside.scope.graph.Owns id) :
    id ∈ grown.scope.graph.liveIds ↔ id ∈ inside.scope.graph.liveIds := by
  rw [nested.liveIds_after insideWf leafWf nests.follows.agrees nests.unpruned, List.mem_append,
    List.mem_cons, or_iff_left]
  rintro (rfl | image)
  · exact nested.not_owns_continuation insideWf owns
  · rcases List.mem_map.mp image with ⟨source, live, rfl⟩
    exact nested.not_owns_image insideWf nests.follows.agrees live owns

/-- An edge of the method is live after the call in it was inlined if it was live before. -/
theorem moved_live_iff (insideWf : inside.scope.graph.WellFormed) (leafWf : leaf.WellFormed)
    {edge : Edge} (member : edge ∈ inside.scope.graph.edges) :
    (((nested.seam σ).moved edge).source ∈ grown.scope.graph.liveIds ∧
        ((nested.seam σ).moved edge).destination ∈ grown.scope.graph.liveIds) ↔
      edge.source ∈ inside.scope.graph.liveIds ∧ edge.destination ∈ inside.scope.graph.liveIds := by
  have ends := insideWf.linked edge member
  have destination := nests.mem_liveIds_grown_iff insideWf leafWf ends.2
  by_cases atSite : edge.source = innerBlock
  · have moves : (nested.seam σ).moved edge = edge.leaving nestedReport.continuation :=
      if_pos atSite
    have continues : nestedReport.continuation ∈ grown.scope.graph.liveIds := by
      simp [nested.liveIds_after insideWf leafWf nests.follows.agrees nests.unpruned]
    have opened : edge.source ∈ inside.scope.graph.liveIds := atSite ▸ nests.mem_liveIds insideWf
    rw [moves]
    exact and_congr (iff_of_true continues opened) destination
  · rw [Seam.moved_of_ne atSite]
    exact and_congr (nests.mem_liveIds_grown_iff insideWf leafWf ends.1) destination

/-- The edges that come with the inner method are live. -/
theorem added_live (insideWf : inside.scope.graph.WellFormed) (leafWf : leaf.WellFormed)
    {edge : Edge} (member : edge ∈ (nested.seam σ).added) :
    edge.source ∈ grown.scope.graph.liveIds ∧ edge.destination ∈ grown.scope.graph.liveIds := by
  have agrees := nests.follows.agrees
  have liveGrown := nested.liveIds_after insideWf leafWf agrees nests.unpruned
  have images : ∀ {id}, id ∈ leaf.liveIds → σ.block id ∈ grown.scope.graph.liveIds := by
    intro id live
    rw [liveGrown]
    exact List.mem_append_right _ (List.mem_cons_of_mem _ (List.mem_map_of_mem live))
  rcases List.mem_append.mp member with image | link
  · rcases List.mem_map.mp image with ⟨before, live, rfl⟩
    have ends := of_decide_eq_true (List.mem_filter.mp live).2
    exact ⟨images ends.1, images ends.2⟩
  · rcases List.mem_cons.mp link with rfl | last
    · constructor
      · rw [liveGrown]
        exact List.mem_append_left _ (nests.mem_liveIds insideWf)
      · rw [nested.entry_eq_block agrees]
        exact images (List.mem_of_getElem? nested.entry_at)
    · rw [List.mem_singleton.mp last]
      constructor
      · rw [nested.exit_eq_block agrees]
        exact images (List.mem_of_getElem? nested.exit_at)
      · simp [liveGrown]

/-- The live edges of the method after the call in it was inlined. -/
theorem liveEdges_grown (insideWf : inside.scope.graph.WellFormed) (leafWf : leaf.WellFormed) :
    (liveEdges grown.scope.graph).Perm
      ((liveEdges inside.scope.graph).map (nested.seam σ).moved ++ (nested.seam σ).added) := by
  let living (edge : Edge) : Bool :=
    edge.source ∈ grown.scope.graph.liveIds ∧ edge.destination ∈ grown.scope.graph.liveIds
  have held : (inside.scope.graph.edges.map (nested.seam σ).moved).filter living =
      (liveEdges inside.scope.graph).map (nested.seam σ).moved := by
    rw [List.filter_map]
    congr 1
    apply List.filter_congr
    exact fun edge member => decide_eq_decide.mpr (nests.moved_live_iff insideWf leafWf member)
  have added : (nested.seam σ).added.filter living = (nested.seam σ).added := by
    rw [List.filter_eq_self]
    exact fun edge member => decide_eq_true (nests.added_live insideWf leafWf member)
  calc liveEdges grown.scope.graph
    _ ~ ((nested.seam σ).edges inside.scope.graph.edges).filter living :=
        (nested.edges_after nests.follows.agrees).filter _
    _ = (liveEdges inside.scope.graph).map (nested.seam σ).moved ++ (nested.seam σ).added := by
        rw [Seam.edges, List.filter_append, held, added]

/-- An edge of the method leaves the continuation of the site in both
orders, if it left the site. -/
theorem edge_moved (insideWf : inside.scope.graph.WellFormed) {edge : Edge}
    (live : edge ∈ liveEdges inside.scope.graph) :
    (ρ.comp σ'.relabeling).edge ((nested.seam σ).moved edge) =
      (core.seam τ).moved (τ'.edge edge) := by
  have ends := of_decide_eq_true (List.mem_filter.mp live).2
  have data : edge.data.map (ρ.comp σ'.relabeling).operand = edge.data.map τ'.operand := by
    apply Option.map_congr
    intro operand attached
    rw [Relabeling.operand_comp, σ'.relabeling_operand]
    exact nests.leads.edges edge live operand attached
  have follows : ∀ {id}, id ∈ inside.scope.graph.liveIds →
      (ρ.comp σ'.relabeling).block id = τ'.block id := nests.leads.block_eq
  by_cases atSite : edge.source = innerBlock
  · have moves : (nested.seam σ).moved edge = edge.leaving nestedReport.continuation :=
      if_pos atSite
    have clone : (τ'.edge edge).source = coreBlock := by
      rw [← nests.block_eq, ← atSite]
      rfl
    have otherMoves : (core.seam τ).moved (τ'.edge edge) =
        (τ'.edge edge).leaving coreReport.continuation := if_pos clone
    rw [moves, otherMoves]
    simp only [Relabeling.edge, Edge.leaving, Substitution.edge, data, follows ends.2,
      nests.follows.continuation]
  · have clone : (τ'.edge edge).source ≠ (core.seam τ).site := by
      intro same
      rw [nests.seam_site] at same
      exact atSite
        (shell.carried.block_inj nests.otherAgrees ends.1 (nests.mem_liveIds insideWf) same)
    rw [Seam.moved_of_ne atSite, Seam.moved_of_ne clone]
    simp only [Relabeling.edge, Substitution.edge, data, follows ends.1, follows ends.2]

/-- The edges of the method with the call inlined become those of the clone with
the call in it inlined. -/
theorem map_edgeImages (insideWf : inside.scope.graph.WellFormed) (leafWf : leaf.WellFormed) :
    ((edgeImages σ' grown.scope.graph).map ρ.edge).Perm
      ((edgeImages τ' inside.scope.graph).map (core.seam τ).moved ++ (core.seam τ).added) := by
  have opened : (ρ.comp σ'.relabeling).block innerBlock = coreBlock := by
    rw [← nests.block_eq]
    exact nests.leads.block_eq (nests.mem_liveIds insideWf)
  have combined : ρ.edge ∘ σ'.edge = (ρ.comp σ'.relabeling).edge := by
    funext edge
    rw [Relabeling.edge_comp, σ'.relabeling_edge]
    rfl
  calc (edgeImages σ' grown.scope.graph).map ρ.edge
    _ = (liveEdges grown.scope.graph).map (ρ.comp σ'.relabeling).edge := by
        rw [edgeImages, List.map_map, combined]
    _ ~ ((liveEdges inside.scope.graph).map (nested.seam σ).moved ++ (nested.seam σ).added).map
          (ρ.comp σ'.relabeling).edge := (nests.liveEdges_grown insideWf leafWf).map _
    _ = (edgeImages τ' inside.scope.graph).map (core.seam τ).moved ++ (core.seam τ).added := by
        rw [List.map_append, nests.follows.added_eq opened, edgeImages, List.map_map, List.map_map]
        congr 1
        exact List.map_congr_left fun edge live => nests.edge_moved insideWf live

/-- The clone of the block with the call is none of the blocks of the host. -/
theorem ne_clone (hostWf : host.scope.graph.WellFormed) (insideWf : inside.scope.graph.WellFormed)
    {id : BlockId} (owns : host.scope.graph.Owns id) : id ≠ (core.seam τ).site := by
  intro same
  rw [same, nests.seam_site] at owns
  exact shell.not_owns_image hostWf nests.otherAgrees (nests.mem_liveIds insideWf) owns

/-- What is added to the edges is the same in the end. -/
theorem map_seam_added (hostWf : host.scope.graph.WellFormed)
    (insideWf : inside.scope.graph.WellFormed) (leafWf : leaf.WellFormed) :
    ((whole.seam σ').added.map ρ.edge).Perm ((shell.seam τ').graft (core.seam τ)).added := by
  have spared : block ≠ (core.seam τ).site := nests.ne_clone hostWf insideWf (.of_owned shell.found)
  have continuation : wholeReport.continuation = shellReport.continuation :=
    whole.continuation_eq.trans shell.continuation_eq.symm
  have enters : ρ.edge ⟨block, wholeReport.entry, .regular, none⟩ =
      (core.seam τ).moved ⟨block, shellReport.entry, .regular, none⟩ := by
    rw [Seam.moved_of_ne spared, Relabeling.edge, nests.block, nests.block, nests.entry_eq]
    rfl
  have leaves : ρ.edge ⟨wholeReport.exit, wholeReport.continuation, .regular, none⟩ =
      (core.seam τ).moved ⟨shellReport.exit, shellReport.continuation, .regular, none⟩ := by
    rw [Relabeling.edge, nests.block, nests.block, nests.exit_eq insideWf, continuation]
    by_cases atExit : coreBlock = shellReport.exit
    · rw [if_pos atExit]
      exact (if_pos atExit.symm).symm
    · rw [if_neg atExit]
      exact (Seam.moved_of_ne fun same => atExit same.symm).symm
  let links : List Edge :=
    [⟨block, shellReport.entry, .regular, none⟩,
      ⟨shellReport.exit, shellReport.continuation, .regular, none⟩]
  calc (whole.seam σ').added.map ρ.edge
    _ = (edgeImages σ' grown.scope.graph).map ρ.edge ++ links.map (core.seam τ).moved := by
        simp only [Splicing.seam, List.map_append, List.map_cons, List.map_nil, enters, leaves,
          links]
    _ ~ (edgeImages τ' inside.scope.graph).map (core.seam τ).moved ++ (core.seam τ).added ++
          links.map (core.seam τ).moved := (nests.map_edgeImages insideWf leafWf).append_right _
    _ ~ (edgeImages τ' inside.scope.graph).map (core.seam τ).moved ++
          (links.map (core.seam τ).moved ++ (core.seam τ).added) := by
        rw [List.append_assoc]
        exact List.perm_append_comm.append_left _
    _ = ((shell.seam τ').graft (core.seam τ)).added := by
        rw [Seam.graft, ← List.append_assoc, ← List.map_append]
        rfl

/-! ### The last graphs -/

/-- The seam of the method with the call inlined becomes that of the clone with the call in it
inlined, but for the order of edges. -/
theorem relabel_seam (accounted : host.Accounted) (new : ρ.MovesOnlyNew host)
    (insideWf : inside.scope.graph.WellFormed) (leafWf : leaf.WellFormed) :
    (whole.seam σ').relabel ρ =
      { (shell.seam τ').graft (core.seam τ) with added := (whole.seam σ').added.map ρ.edge } := by
  have hostWf := accounted.wellFormed
  have same : whole.held = shell.held := Except.ok.inj (whole.found.symm.trans shell.found)
  obtain ⟨pre, post⟩ := whole.map_parts shell (congrArg Block.instrs same.symm)
    fun _ member => new.instr_eq accounted whole.found member
  have jump : ρ.instr (.jump whole.entryBlock.label) = .jump shell.entryBlock.label :=
    congrArg Instr.jump (nests.entryLabel_eq insideWf leafWf hostWf)
  have heads : (whole.seam σ').head.map ρ.instr = (shell.seam τ').head := by
    simp only [Splicing.seam, List.map_append, pre, List.map_cons, List.map_nil, jump]
  have continuations : ρ.ofBlock (whole.seam σ').continuation = (shell.seam τ').continuation := by
    have id : wholeReport.continuation = shellReport.continuation :=
      whole.continuation_eq.trans shell.continuation_eq.symm
    simp only [Splicing.seam, Relabeling.ofBlock, nests.block, id, nests.label, post]
  have sites : ρ.block (whole.seam σ').site = (shell.seam τ').site := nests.block _
  rw [Seam.relabel, sites, heads, continuations, nests.map_seam_images hostWf insideWf leafWf]
  rfl

theorem continuation_ne_clone (hostWf : host.scope.graph.WellFormed)
    (insideWf : inside.scope.graph.WellFormed) :
    (shell.seam τ').continuation.id ≠ (core.seam τ).site := by
  intro same
  rw [nests.seam_site] at same
  exact shell.continuation_ne_image hostWf nests.otherAgrees (nests.mem_liveIds insideWf) same.symm

/-- The blocks of the last graph of the one order become those of the other one. -/
theorem map_blocks (accounted : host.Accounted) (new : ρ.MovesOnlyNew host)
    (insideWf : inside.scope.graph.WellFormed) (leafWf : leaf.WellFormed) :
    last.scope.graph.blocks.map ρ.ofBlock = otherLast.scope.graph.blocks := by
  have hostWf := accounted.wellFormed
  have wholeWf : ({ host with nextLiteral := grown.nextLiteral } : Host).scope.graph.WellFormed :=
    hostWf
  have fixed : host.scope.graph.blocks.map ρ.ofBlock = host.scope.graph.blocks :=
    map_eq_self fun _ member => new.ofBlock_eq accounted member
  have others : ∀ held ∈ host.scope.graph.blocks, held.id ≠ (core.seam τ).site :=
    fun held member =>
      nests.ne_clone hostWf insideWf (.of_owned (hostWf.mem_blocks_iff.mp member))
  rw [whole.blocks_after wholeWf (nested.wellFormed insideWf leafWf) nests.agrees
    (.inl nests.unpruned),
    core.blocks_after (shell.wellFormed hostWf insideWf) leafWf nests.follows.otherAgrees
      (.inl nests.unpruned),
    shell.blocks_after hostWf insideWf nests.otherAgrees (.inl nests.unpruned),
    Seam.blocks_graft (nests.continuation_ne_clone hostWf insideWf) others,
    ← Seam.relabel_blocks nests.injective_block, nests.relabel_seam accounted new insideWf leafWf,
    fixed]
  rfl

/-- So do its edges, but for their order. -/
theorem map_edges (accounted : host.Accounted) (new : ρ.MovesOnlyNew host)
    (insideWf : inside.scope.graph.WellFormed) (leafWf : leaf.WellFormed) :
    (last.scope.graph.edges.map ρ.edge).Perm otherLast.scope.graph.edges := by
  have hostWf := accounted.wellFormed
  have fixed : host.scope.graph.edges.map ρ.edge = host.scope.graph.edges :=
    map_eq_self fun _ member => new.edge_eq accounted member
  have others : ∀ edge ∈ host.scope.graph.edges, edge.source ≠ (core.seam τ).site :=
    fun edge member => nests.ne_clone hostWf insideWf (hostWf.linked edge member).1
  calc last.scope.graph.edges.map ρ.edge
    _ ~ ((whole.seam σ').edges host.scope.graph.edges).map ρ.edge :=
        (whole.edges_after nests.agrees).map _
    _ = host.scope.graph.edges.map (shell.seam τ').moved ++ (whole.seam σ').added.map ρ.edge := by
        rw [← Seam.relabel_edges nests.injective_block,
          nests.relabel_seam accounted new insideWf leafWf, fixed]
        rfl
    _ ~ ((shell.seam τ').graft (core.seam τ)).edges host.scope.graph.edges :=
        (nests.map_seam_added hostWf insideWf leafWf).append_left _
    _ = (core.seam τ).edges ((shell.seam τ').edges host.scope.graph.edges) :=
        (Seam.edges_graft (nests.continuation_ne_clone hostWf insideWf) others).symm
    _ ~ otherLast.scope.graph.edges :=
        ((core.edges_after nests.follows.otherAgrees).trans
          (Seam.edges_perm _ (shell.edges_after nests.otherAgrees))).symm

theorem exit_relabeled (accounted : host.Accounted) (new : ρ.MovesOnlyNew host)
    (insideWf : inside.scope.graph.WellFormed) (leafWf : leaf.WellFormed) :
    otherLast.scope.graph.exit = last.scope.graph.exit.map ρ.block := by
  have hostWf := accounted.wellFormed
  have others : host.scope.graph.exit ≠ some (core.seam τ).site := fun role =>
    nests.ne_clone hostWf insideWf (hostWf.exit_owned _ role) rfl
  rw [core.exit_after τ, shell.exit_after τ',
    Seam.exit_graft (nests.continuation_ne_clone hostWf insideWf) others, whole.exit_after σ',
    ← Seam.relabel_exit nests.injective_block, nests.relabel_seam accounted new insideWf leafWf,
    nests.map_block]
  rfl

/-- The last graph of the one order, with its names replaced, is that of the other one. -/
theorem nested_matches (accounted : host.Accounted) (new : ρ.MovesOnlyNew host)
    (bijective : ρ.Bijective) (insideWf : inside.scope.graph.WellFormed)
    (leafWf : leaf.WellFormed) :
    ρ.Matches last.scope.graph otherLast.scope.graph := by
  have hostWf := accounted.wellFormed
  have wholeWf : ({ host with nextLiteral := grown.nextLiteral } : Host).scope.graph.WellFormed :=
    hostWf
  have lastWf := whole.wellFormed wholeWf (nested.wellFormed insideWf leafWf)
  have otherLastWf := core.wellFormed (shell.wellFormed hostWf insideWf) leafWf
  have blocks := List.Perm.of_eq (nests.map_blocks accounted new insideWf leafWf)
  refine ⟨?_, ?_, blocks, ?_, nests.map_edges accounted new insideWf leafWf, ?_,
    nests.exit_relabeled accounted new insideWf leafWf⟩
  · rw [core.id_after, shell.id_after, whole.id_after]
  · have lengths := congrArg List.length
      (nested.liveIds_after insideWf leafWf nests.follows.agrees nests.unpruned)
    simp only [liveIds, List.length_map, List.length_append, List.length_cons] at lengths
    rw [core.nextIndex_after, shell.nextIndex_after, whole.nextIndex_after, lengths]
    simp only [Nat.add_assoc, Nat.add_comm 1]
  · exact Relabeling.byLabel?_of_blocks lastWf otherLastWf bijective.label.injective blocks
  · rw [core.entry_after, shell.entry_after, whole.entry_after, nests.map_block]

end Nests

end Nested

end FlowIR.Inlining
