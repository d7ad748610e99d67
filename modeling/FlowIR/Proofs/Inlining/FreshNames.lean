import FlowIR.Proofs.Inlining.Aftermath
import FlowIR.Proofs.Inlining.LiteralLog
import FlowIR.Proofs.Inlining.MethodImage
import FlowIR.Proofs.Inlining.Naturality

/-!
# What a splicing makes up

A splicing takes ids, temporaries, label numbers and literals from the counters of its host, each
from one stretch that ends where the counter stands afterwards.  The stretches of two splicings that
follow one another are therefore apart.  A name of the body that the pass has not met gets a spare
number above all counters, so that every name of the body becomes something.
-/

namespace FlowIR

/-! ## Names that a host has accounted for -/

/-- A label that is bound in the scope or that the scope has handed out, or no label at all. -/
def Scope.KnowsLabel (scope : Scope) : Operand → Prop
  | .label label => scope.graph.binds label = true ∨ ∃ n < scope.nextLabel, label = .numbered n
  | _ => True

instance (scope : Scope) : DecidablePred scope.KnowsLabel
  | .label label => inferInstanceAs (Decidable
      (scope.graph.binds label = true ∨ ∃ n < scope.nextLabel, label = .numbered n))
  | .var _ => isTrue trivial
  | .lit _ => isTrue trivial

/-- A well-formed host that mentions nothing that it could make up later: it has handed out its
temporaries, its labels are bound or handed out, and its `nil` literals have been made. -/
structure Host.Accounted (host : Host) : Prop where
  wellFormed : host.scope.graph.WellFormed
  temps : ∀ operand ∈ host.scope.graph.mentions, host.scope.HandedOut operand
  labels : ∀ operand ∈ host.scope.graph.mentions, host.scope.KnowsLabel operand
  nils : host.scope.graph.NilsBelow host.nextLiteral

namespace Relabeling

/-- The relabeling moves only what the host can still make up. -/
structure MovesOnlyNew (ρ : Relabeling) (host : Host) : Prop where
  block : ∀ id, ρ.block id ≠ id → ∃ i, id = host.scope.graph.idAt i
  var : ∀ v, ρ.var v ≠ v → ∃ n, v = .temporary n ∧ host.scope.nextTemp ≤ n
  label : ∀ label, ρ.label label ≠ label →
    host.scope.graph.binds label = false ∧ ∃ n, label = .numbered n ∧ host.scope.nextLabel ≤ n
  literal : ∀ id, ρ.literal id ≠ id → host.nextLiteral ≤ id

variable {ρ : Relabeling} {host : Host}

namespace MovesOnlyNew

variable (new : ρ.MovesOnlyNew host)

include new

theorem block_eq (wf : host.scope.graph.WellFormed) {id : BlockId}
    (owns : host.scope.graph.Owns id) :
    ρ.block id = id := by
  by_contra moved
  rcases new.block id moved with ⟨i, rfl⟩
  exact wf.not_owns_idAt i owns

theorem literal_eq {id : Nat} (below : id < host.nextLiteral) : ρ.literal id = id := by
  by_contra moved
  exact Nat.not_lt_of_le (new.literal id moved) below

/-- What the host mentions stays. -/
theorem operand_eq (accounted : host.Accounted) {operand : Operand}
    (mentioned : operand ∈ host.scope.graph.mentions) : ρ.operand operand = operand := by
  rcases operand with v | label | ⟨id, constant⟩
  · by_contra moved
    obtain ⟨n, rfl, above⟩ := new.var v fun same => moved (congrArg Operand.var same)
    exact Nat.not_lt_of_le above (accounted.temps _ mentioned)
  · by_contra moved
    rcases new.label label fun same => moved (congrArg Operand.label same) with
      ⟨free, n, rfl, above⟩
    rcases accounted.labels _ mentioned with bound | ⟨k, below, same⟩
    · rw [bound] at free
      contradiction
    · rw [Label.numbered_inj.mp same] at above
      exact Nat.not_lt_of_le above below
  · cases constant with
    | nil =>
        exact congrArg (fun id => Operand.lit ⟨id, .nil⟩)
          (new.literal_eq (accounted.nils _ mentioned rfl))
    | _ => rfl

theorem instr_eq (accounted : host.Accounted) {id : BlockId} {held : Block}
    (found : host.scope.graph.owned id = .ok held) {instr : Instr} (member : instr ∈ held.instrs) :
    ρ.instr instr = instr := by
  apply instr_eq_self
  intro operand mentioned
  apply new.operand_eq accounted
  exact Graph.HoldsAt.mem_mentions ⟨held, found, member⟩ mentioned

theorem ofBlock_eq (accounted : host.Accounted) {block : Block}
    (member : block ∈ host.scope.graph.blocks) :
    ρ.ofBlock block = block := by
  have found := accounted.wellFormed.mem_blocks_iff.mp member
  have instrs : block.instrs.map ρ.instr = block.instrs :=
    map_eq_self fun _ here => new.instr_eq accounted found here
  have label : ρ.label block.label = block.label := by
    by_contra moved
    have free := (new.label _ moved).1
    have bound := (accounted.wellFormed.labelled block.label block.id).mpr ⟨block, found, rfl⟩
    rw [Graph.binds, bound] at free
    contradiction
  rw [ofBlock, new.block_eq accounted.wellFormed (.of_owned found), label, instrs]

theorem edge_eq (accounted : host.Accounted) {edge : Edge}
    (member : edge ∈ host.scope.graph.edges) :
    ρ.edge edge = edge := by
  have ends := accounted.wellFormed.linked edge member
  have attached : ∀ operand, edge.data = some operand → ρ.operand operand = operand :=
    fun _ here => new.operand_eq accounted (Graph.Attaches.mem_mentions ⟨edge, member, here⟩)
  have data : edge.data.map ρ.operand = edge.data :=
    (Option.map_congr attached).trans (congrFun Option.map_id edge.data)
  rw [Relabeling.edge, new.block_eq accounted.wellFormed ends.1,
    new.block_eq accounted.wellFormed ends.2, data]

end MovesOnlyNew

end Relabeling

namespace Inlining

open FlowIR.Graph

namespace Splicing

/-! ### Naming all names of a body -/

variable {policy : Policy} {host : Host} {setting : Setting} {call : CallBinding} {log : Bool}
  {body : Graph} {block : BlockId} {site : Instr} {report : Report} {after : Host}
  {σ : Substitution}
  (splicing : Splicing host policy setting call.rule log body block site report after)

include splicing in
/-- The literals that are made are those that the instructions of the body take. -/
theorem nextLiteral_after :
    after.nextLiteral = host.nextLiteral + call.nilsOf body.liveBlocks := by
  have carried := (splicing.carried.image _ splicing.pass.agrees_substitution).2.1
  have kept : after.nextLiteral = splicing.pass.host.nextLiteral :=
    (congrArg Host.nextLiteral splicing.after_eq).trans rfl
  rw [kept, carried]
  exact CallBinding.blocks_next _ _

/-- The label of the continuation, and what the labels of the body become. -/
def labelOf (σ : Substitution) : Option Label → Label
  | none => splicing.continuationLabel
  | some label => σ.label label

/-- The substitution makes a name of its own of every variable and every label: the one that the
pass has handed out, or, where the pass has not met the name, one with a spare number. -/
structure Spread (floor offset : Nat) (σ : Substitution) : Prop where
  agrees : splicing.pass.Agrees σ
  var_injective : Function.Injective σ.var
  label_injective : Function.Injective (splicing.labelOf σ)
  var_eq : ∀ v, ∃ n, σ.var v = .temporary n ∧
    (host.scope.nextTemp ≤ n ∧ n < after.scope.nextTemp ∨ n ∈ spareNumbers floor offset)
  label_eq : ∀ label, ∃ n, splicing.labelOf σ label = .numbered n ∧
    (host.scope.nextLabel ≤ n ∧ n < after.scope.nextLabel ∨ n ∈ spareNumbers floor offset)
  label_free : ∀ label, host.scope.graph.binds (splicing.labelOf σ label) = false

/-- There is such a substitution, wherever the spare numbers begin above the counters. -/
theorem exists_spread (method : setting.mode = .inlineMethod) {floor : Nat} (offset : Nat)
    (temps : after.scope.nextTemp ≤ floor) (labels : after.scope.nextLabel ≤ floor) :
    ∃ σ, splicing.Spread floor offset σ := by
  have named := splicing.carried.named
  have mode : splicing.pass.mode = .inlineMethod :=
    (congrArg Setting.mode splicing.carried.setting_eq).trans method
  obtain ⟨var, varInjective, varExtends, varNew⟩ :=
    named.exists_var_sparing (infinite_spareNumbers floor offset) fun n member =>
      splicing.nextTemp_after ▸ Nat.le_trans temps (le_of_mem_spareNumbers member)
  obtain ⟨label, labelInjective, labelExtends, labelNew⟩ :=
    named.exists_label_sparing (infinite_spareNumbers floor offset) fun n member =>
      splicing.nextLabel_after ▸ Nat.le_trans labels (le_of_mem_spareNumbers member)
  have bound := fun other : Label =>
    binds_opened (g := host.scope.graph) (.numbered host.scope.labelNumber) splicing.pre
      splicing.post block other
  have apart : ∀ source, label source ≠ splicing.continuationLabel := by
    intro source same
    exact Bool.eq_false_iff.mp (labelNew source).1 ((bound _).mpr (.inr same.symm))
  refine ⟨{ splicing.pass.substitution with var := var, label := label },
    ⟨splicing.pass.agrees_substitution.block, varExtends, labelExtends⟩, varInjective, ?_, ?_, ?_,
    ?_⟩
  · intro source other same
    cases source with
    | none =>
        cases other with
        | none => rfl
        | some other => exact absurd same.symm (apart other)
    | some source =>
        cases other with
        | none => exact absurd same (apart source)
        | some other => exact congrArg some (labelInjective same)
  · intro v
    rw [splicing.nextTemp_after]
    apply varNew v
    rw [mode]
    cases v <;> rfl
  · intro source
    cases source with
    | none =>
        exact ⟨_, rfl, .inl ⟨host.scope.nextLabel_le_labelNumber, splicing.labelNumber_lt⟩⟩
    | some source =>
        rcases (labelNew source).2 with ⟨n, same, ⟨above, below⟩ | spare⟩
        · have passed : host.scope.nextLabel ≤ n :=
            Nat.le_trans host.scope.nextLabel_le_labelNumber (Nat.le_of_succ_le above)
          exact ⟨n, same, .inl ⟨passed, splicing.nextLabel_after ▸ below⟩⟩
        · exact ⟨n, same, .inr spare⟩
  · intro source
    cases source with
    | none => exact host.scope.binds_labelNumber
    | some source =>
        apply Bool.eq_false_iff.mpr
        intro old
        exact Bool.eq_false_iff.mp (labelNew source).1 ((bound _).mpr (.inl old))

/-- The names are new to the host. -/
theorem Spread.var_new {floor offset : Nat}
    {splicing : Splicing host policy setting call.rule log body block site report after}
    (spread : splicing.Spread floor offset σ) (temps : after.scope.nextTemp ≤ floor)
    (v : Variable) :
    ∃ n, σ.var v = .temporary n ∧ host.scope.nextTemp ≤ n := by
  rcases spread.var_eq v with ⟨n, same, known | spare⟩
  · exact ⟨n, same, known.1⟩
  · exact ⟨n, same, Nat.le_trans splicing.nextTemp_le
      (Nat.le_trans temps (le_of_mem_spareNumbers spare))⟩

theorem Spread.label_new {floor offset : Nat}
    {splicing : Splicing host policy setting call.rule log body block site report after}
    (spread : splicing.Spread floor offset σ) (labels : after.scope.nextLabel ≤ floor)
    (label : Option Label) :
    host.scope.graph.binds (splicing.labelOf σ label) = false ∧
      ∃ n, splicing.labelOf σ label = .numbered n ∧ host.scope.nextLabel ≤ n := by
  refine ⟨spread.label_free label, ?_⟩
  rcases spread.label_eq label with ⟨n, same, known | spare⟩
  · exact ⟨n, same, known.1⟩
  · exact ⟨n, same, Nat.le_trans splicing.nextLabel_le
      (Nat.le_trans labels (le_of_mem_spareNumbers spare))⟩

theorem Spread.instr_injective {floor offset : Nat}
    {splicing : Splicing host policy setting call.rule log body block site report after}
    (spread : splicing.Spread floor offset σ) :
    Function.Injective σ.instr := by
  have labels : Function.Injective σ.label := fun label other same => Option.some.inj
    (@spread.label_injective (some label) (some other) same)
  rw [← σ.relabeling_instr]
  exact Relabeling.instr_injective spread.var_injective labels Function.injective_id

include splicing

/-- Names that are new after a splicing were new before. -/
theorem var_new_before {v : Variable} (new : ∃ n, v = .temporary n ∧ after.scope.nextTemp ≤ n) :
    ∃ n, v = .temporary n ∧ host.scope.nextTemp ≤ n := by
  obtain ⟨n, same, above⟩ := new
  exact ⟨n, same, Nat.le_trans splicing.nextTemp_le above⟩

theorem label_new_before (wf : host.scope.graph.WellFormed) (bodyWf : body.WellFormed)
    {label : Label}
    (new : after.scope.graph.binds label = false ∧ ∃ n, label = .numbered n ∧
      after.scope.nextLabel ≤ n) :
    host.scope.graph.binds label = false ∧ ∃ n, label = .numbered n ∧ host.scope.nextLabel ≤ n := by
  obtain ⟨free, n, same, above⟩ := new
  refine ⟨?_, n, same, Nat.le_trans splicing.nextLabel_le above⟩
  apply Bool.eq_false_iff.mpr
  intro bound
  rw [splicing.binds_after wf bodyWf bound] at free
  contradiction

end Splicing

/-! ## Splicings that follow one another -/

section Consecutive

variable {policy otherPolicy : Policy} {host middle last : Host} {setting otherSetting : Setting}
  {call otherCall : CallBinding} {log otherLog : Bool} {body other : Graph}
  {block otherBlock : BlockId} {site otherSite : Instr} {report otherReport : Report}
  {σ τ : Substitution} {floor offset otherOffset : Nat}
  {first : Splicing host policy setting call.rule log body block site report middle}
  {second : Splicing middle otherPolicy otherSetting otherCall.rule otherLog other otherBlock
    otherSite otherReport last}

/-- Numbers from stretches that follow one another are apart, and so are spare numbers of different
offsets. -/
theorem ne_of_stretches {start turn finish n k : Nat} (below : finish ≤ floor)
    (turns : turn ≤ finish) (apart : offset % 2 ≠ otherOffset % 2)
    (early : start ≤ n ∧ n < turn ∨ n ∈ spareNumbers floor offset)
    (late : turn ≤ k ∧ k < finish ∨ k ∈ spareNumbers floor otherOffset) : n ≠ k := by
  simp only [spareNumbers, Set.mem_range] at early late
  rcases early with bounds | ⟨i, same⟩ <;> rcases late with otherBounds | ⟨j, otherSame⟩ <;> omega

/-- The temporaries of splicings that follow one another are apart. -/
theorem Splicing.Spread.var_ne (spread : first.Spread floor offset σ)
    (later : second.Spread floor otherOffset τ) (temps : last.scope.nextTemp ≤ floor)
    (apart : offset % 2 ≠ otherOffset % 2) (v w : Variable) : σ.var v ≠ τ.var w := by
  rcases spread.var_eq v with ⟨n, same, early⟩
  rcases later.var_eq w with ⟨k, otherSame, late⟩
  rw [same, otherSame, ne_eq, Variable.temporary.injEq]
  exact ne_of_stretches temps second.nextTemp_le apart early late

/-- So are their labels. -/
theorem Splicing.Spread.label_ne (spread : first.Spread floor offset σ)
    (later : second.Spread floor otherOffset τ) (labels : last.scope.nextLabel ≤ floor)
    (apart : offset % 2 ≠ otherOffset % 2) (label other : Option Label) :
    first.labelOf σ label ≠ second.labelOf τ other := by
  rcases spread.label_eq label with ⟨n, same, early⟩
  rcases later.label_eq other with ⟨k, otherSame, late⟩
  rw [same, otherSame, ne_eq, Label.numbered_inj]
  exact ne_of_stretches labels second.nextLabel_le apart early late

end Consecutive

/-! ## Following names -/

section Follows

variable {policy otherPolicy : Policy} {host other : Host} {setting otherSetting : Setting}
  {call otherCall : CallBinding} {log otherLog : Bool} {body : Graph} {block otherBlock : BlockId}
  {site otherSite : Instr} {report otherReport : Report} {after otherAfter : Host}
  {σ τ : Substitution} {μ : Relabeling} {floor offset otherFloor otherOffset : Nat}
  {first : Splicing host policy setting call.rule log body block site report after}
  {second : Splicing other otherPolicy otherSetting otherCall.rule otherLog body otherBlock
    otherSite otherReport otherAfter}

/-- The variables that the live part of a body mentions. -/
def bodyVars (body : Graph) : List Variable :=
  (liveMentions body).filterMap Operand.var?

theorem mem_bodyVars_iff {v : Variable} : v ∈ bodyVars body ↔ .var v ∈ liveMentions body := by
  rw [bodyVars, List.mem_filterMap]
  constructor
  · rintro ⟨operand, mentioned, isVar⟩
    cases operand with
    | var w => exact Option.some.inj isVar ▸ mentioned
    | label | lit => contradiction
  · exact fun mentioned => ⟨_, mentioned, rfl⟩

/-- The names of labels that a splicing of a body makes up: that of the continuation, and one for
each label of the body. -/
def madeLabels (body : Graph) : List (Option Label) :=
  none :: (bodyLabels body).map some

/-- A relabeling follows two splicings of one body when it leads from the one to
the other name by name. -/
theorem Splicing.Spread.follows (spread : first.Spread floor offset σ)
    (otherSpread : second.Spread otherFloor otherOffset τ) (calls : call.relabel μ = otherCall)
    (blocks : ∀ i < body.liveBlocks.length + 1,
      μ.block (host.scope.graph.idAt i) = other.scope.graph.idAt i)
    (vars : ∀ v ∈ bodyVars body, μ.var (σ.var v) = τ.var v)
    (labels : ∀ label ∈ madeLabels body, μ.label (first.labelOf σ label) = second.labelOf τ label)
    (nils : ∀ id, .lit ⟨id, .nil⟩ ∈ liveMentions body → μ.literal id = id)
    (literals : ∀ k < call.nilsOf body.liveBlocks,
      μ.literal (host.nextLiteral + k) = other.nextLiteral + k) : Follows μ σ τ first second where
  agrees := spread.agrees
  otherAgrees := otherSpread.agrees
  call_eq := calls
  leads := by
    refine Leads.of_names ?_ ?_ ?_ nils
    · intro id live
      rcases List.mem_iff_getElem?.mp live with ⟨i, at_i⟩
      rcases List.getElem?_eq_some_iff.mp at_i with ⟨below, -⟩
      rw [liveIds, List.length_map] at below
      rw [first.block_eq_idAt spread.agrees at_i, second.block_eq_idAt otherSpread.agrees at_i]
      exact blocks (i + 1) (Nat.succ_lt_succ below)
    · exact fun v mentioned => vars v (mem_bodyVars_iff.mpr mentioned)
    · exact fun label listed =>
        labels (some label) (List.mem_cons_of_mem _ (List.mem_map_of_mem listed))
  continuation := by
    rw [first.continuation_eq_idAt, second.continuation_eq_idAt]
    exact blocks 0 (Nat.succ_pos _)
  label := labels none List.mem_cons_self
  literals := literals

end Follows

/-! ## Calls -/

/-- The operands of a relabeled call are the relabeled operands. -/
theorem CallBinding.of?_instr (μ : Relabeling) (site : Instr) :
    CallBinding.of? (μ.instr site) = (CallBinding.of? site).map (·.relabel μ) := by
  cases site <;> rfl

theorem CallBinding.relabel_eq {μ : Relabeling} {site : Instr} {call other : CallBinding}
    (bound : CallBinding.of? site = some call)
    (becomes : CallBinding.of? (μ.instr site) = some other) :
    call.relabel μ = other := by
  rw [CallBinding.of?_instr, bound] at becomes
  exact Option.some.inj becomes

/-- What a call passes stays, if it stays in the call. -/
theorem CallBinding.relabel_eq_self {μ : Relabeling} {site : Instr} {call : CallBinding}
    (bound : CallBinding.of? site = some call) (same : μ.instr site = site) :
    call.relabel μ = call :=
  relabel_eq bound (by rw [same, bound])

/-- What the live part of a body mentions, the body mentions. -/
theorem mem_mentions_of_live {body : Graph} {operand : Operand}
    (mentioned : operand ∈ liveMentions body) : operand ∈ body.mentions := by
  rcases List.mem_append.mp mentioned with inBlock | onEdge
  · rcases List.mem_flatMap.mp inBlock with ⟨block, live, here⟩
    exact List.mem_append_left _
      (List.mem_flatMap.mpr ⟨block, (List.mem_filter.mp live).1, here⟩)
  · rcases List.mem_filterMap.mp onEdge with ⟨edge, live, here⟩
    exact List.mem_append_right _ (List.mem_filterMap.mpr ⟨edge, (List.mem_filter.mp live).1, here⟩)

/-- An accounted host knows all labels that its live part carries or mentions. -/
theorem knowsLabel_of_mem_bodyLabels {host : Host} (accounted : host.Accounted) {label : Label}
    (listed : label ∈ bodyLabels host.scope.graph) : host.scope.KnowsLabel (.label label) := by
  rcases List.mem_append.mp listed with carried | mentioned
  · rcases List.mem_map.mp carried with ⟨block, live, rfl⟩
    have found := (accounted.wellFormed.mem_liveBlocks_iff.mp live).1
    have bound := (accounted.wellFormed.labelled block.label block.id).mpr ⟨block, found, rfl⟩
    refine .inl ?_
    rw [binds, bound]
    rfl
  · rcases List.mem_filterMap.mp mentioned with ⟨operand, live, isLabel⟩
    cases operand with
    | label target =>
        obtain rfl := Option.some.inj isLabel
        exact accounted.labels _ (mem_mentions_of_live live)
    | var | lit => contradiction

end Inlining

end FlowIR
