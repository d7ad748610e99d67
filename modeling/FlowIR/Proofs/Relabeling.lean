import FlowIR.Proofs.Graph.Listing
import FlowIR.Proofs.Graph.Mentions
import Mathlib.Logic.Equiv.Basic

/-!
# Relabelings

A graph is read up to the names in it: the ids of its blocks, its variables and labels, and the
identities of the `nil` literals in it, which passes make up.  A relabeling replaces them; all other
literals stay, because no pass makes any.  Where two graphs differ only in names and in the order of
blocks and edges, a bijective relabeling leads from one to the other.
-/

namespace FlowIR

/-! ## Permutations from pairs -/

/-- Pairs of which no two share just one component are part of a permutation
that moves nothing else. -/
theorem exists_perm_of_pairs {α : Type} [DecidableEq α] (pairs : List (α × α))
    (oneToOne : ∀ pair ∈ pairs, ∀ other ∈ pairs, pair.1 = other.1 ↔ pair.2 = other.2) :
    ∃ perm : Equiv.Perm α, (∀ pair ∈ pairs, perm pair.1 = pair.2) ∧
      ∀ a, perm a ≠ a → ∃ pair ∈ pairs, a = pair.1 ∨ a = pair.2 := by
  induction pairs with
  | nil => exact ⟨Equiv.refl α, by simp, fun a moved => absurd rfl moved⟩
  | cons first rest ih =>
      obtain ⟨perm, sends, moves⟩ := ih fun pair member other otherMember =>
        oneToOne pair (List.mem_cons_of_mem _ member) other (List.mem_cons_of_mem _ otherMember)
      refine ⟨perm.trans (Equiv.swap (perm first.1) first.2), ?_, ?_⟩
      · intro pair member
        rw [Equiv.trans_apply]
        rcases List.mem_cons.mp member with rfl | later
        · exact Equiv.swap_apply_left _ _
        have shared := oneToOne pair member first List.mem_cons_self
        by_cases same : pair.1 = first.1
        · rw [same, Equiv.swap_apply_left, shared.mp same]
        · rw [sends pair later, Equiv.swap_apply_of_ne_of_ne]
          · rw [← sends pair later]
            exact fun equal => same (perm.injective equal)
          · exact fun equal => same (shared.mpr equal)
      · intro a moved
        by_cases stays : perm a = a
        · rw [Equiv.trans_apply, stays] at moved
          rcases Equiv.eq_or_eq_of_swap_apply_ne_self moved with isImage | isTarget
          · -- What is fixed and meets the image of the first source is that source.
            exact ⟨first, List.mem_cons_self, .inl (perm.injective (stays.trans isImage))⟩
          · exact ⟨first, List.mem_cons_self, .inr isTarget⟩
        · rcases moves a stays with ⟨pair, member, component⟩
          exact ⟨pair, List.mem_cons_of_mem _ member, component⟩

/-- Two families of names and the names that they become are part of a permutation that moves
nothing else, where neither family meets the other, before or after. -/
theorem exists_perm_of_families {α β γ : Type} [DecidableEq α] {before after : β → α}
    {otherBefore otherAfter : γ → α} {indices : List β} {otherIndices : List γ}
    (injective : Function.Injective before) (injectiveAfter : Function.Injective after)
    (otherInjective : Function.Injective otherBefore)
    (otherInjectiveAfter : Function.Injective otherAfter)
    (apart : ∀ i ∈ indices, ∀ j ∈ otherIndices, before i ≠ otherBefore j)
    (apartAfter : ∀ i ∈ indices, ∀ j ∈ otherIndices, after i ≠ otherAfter j) :
    ∃ perm : Equiv.Perm α, (∀ i ∈ indices, perm (before i) = after i) ∧
      (∀ j ∈ otherIndices, perm (otherBefore j) = otherAfter j) ∧
      ∀ a, perm a ≠ a → (∃ i ∈ indices, a = before i ∨ a = after i) ∨
        ∃ j ∈ otherIndices, a = otherBefore j ∨ a = otherAfter j := by
  let pairs : List (α × α) :=
    indices.map (fun i => (before i, after i)) ++
      otherIndices.map fun j => (otherBefore j, otherAfter j)
  have mem_pairs : ∀ {pair}, pair ∈ pairs ↔ (∃ i ∈ indices, pair = (before i, after i)) ∨
      ∃ j ∈ otherIndices, pair = (otherBefore j, otherAfter j) := by
    simp [pairs, eq_comm]
  have oneToOne : ∀ pair ∈ pairs, ∀ other ∈ pairs, pair.1 = other.1 ↔ pair.2 = other.2 := by
    intro pair member other otherMember
    rcases mem_pairs.mp member with ⟨i, here, rfl⟩ | ⟨i, here, rfl⟩
    · rcases mem_pairs.mp otherMember with ⟨j, there, rfl⟩ | ⟨j, there, rfl⟩
      · exact injective.eq_iff.trans injectiveAfter.eq_iff.symm
      · exact iff_of_false (apart i here j there) (apartAfter i here j there)
    · rcases mem_pairs.mp otherMember with ⟨j, there, rfl⟩ | ⟨j, there, rfl⟩
      · exact iff_of_false (apart j there i here).symm (apartAfter j there i here).symm
      · exact otherInjective.eq_iff.trans otherInjectiveAfter.eq_iff.symm
  rcases exists_perm_of_pairs pairs oneToOne with ⟨perm, sends, moves⟩
  refine ⟨perm, ?_, ?_, ?_⟩
  · exact fun i here => sends _ (mem_pairs.mpr (.inl ⟨i, here, rfl⟩))
  · exact fun j here => sends _ (mem_pairs.mpr (.inr ⟨j, here, rfl⟩))
  · intro a moved
    rcases moves a moved with ⟨pair, member, component⟩
    rcases mem_pairs.mp member with ⟨i, here, rfl⟩ | ⟨j, here, rfl⟩
    · exact .inl ⟨i, here, component⟩
    · exact .inr ⟨j, here, component⟩

/-- Two adjacent stretches of a sequence without repetition can be exchanged. -/
theorem exists_perm_exchanging {α : Type} [DecidableEq α] {sequence : Nat → α}
    (injective : Function.Injective sequence) (first second : Nat) :
    ∃ perm : Equiv.Perm α, (∀ i < first, perm (sequence i) = sequence (second + i)) ∧
      (∀ i < second, perm (sequence (first + i)) = sequence i) ∧
      ∀ a, perm a ≠ a → ∃ i < first + second, a = sequence i := by
  have shifted : ∀ offset, Function.Injective fun i => sequence (offset + i) :=
    fun offset _ _ same => Nat.add_left_cancel (injective same)
  have apart : ∀ i ∈ List.range first, ∀ j ∈ List.range second,
      sequence i ≠ sequence (first + j) := by
    intro i below j _ same
    have := injective same
    have := List.mem_range.mp below
    omega
  have apartAfter : ∀ i ∈ List.range first, ∀ j ∈ List.range second,
      sequence (second + i) ≠ sequence j := by
    intro i _ j below same
    have := injective same
    have := List.mem_range.mp below
    omega
  obtain ⟨perm, sends, otherSends, moves⟩ := exists_perm_of_families injective (shifted second)
    (shifted first) injective apart apartAfter
  refine ⟨perm, ?_, ?_, ?_⟩
  · exact fun i below => sends i (List.mem_range.mpr below)
  · exact fun i below => otherSends i (List.mem_range.mpr below)
  · intro a moved
    rcases moves a moved with ⟨i, below, rfl | rfl⟩ | ⟨j, below, rfl | rfl⟩
    · exact ⟨i, Nat.lt_add_right _ (List.mem_range.mp below), rfl⟩
    · exact ⟨second + i, by have := List.mem_range.mp below; omega, rfl⟩
    · exact ⟨first + j, Nat.add_lt_add_left (List.mem_range.mp below) _, rfl⟩
    · exact ⟨j, Nat.lt_add_left _ (List.mem_range.mp below), rfl⟩

/-! ## Replacing the parts of an instruction -/

/-- Replace what an instruction writes, where it jumps and what it reads. -/
def Instr.mapParts (onVar : Variable → Variable) (onLabel : Label → Label)
    (onOperand : Operand → Operand) : Instr → Instr
  | copy result source => copy (onVar result) (onOperand source)
  | call result receiver method args closure =>
      call (result.map onVar) (onOperand receiver) method (args.map onOperand)
        (closure.map onOperand)
  | yield result block arg => yield (result.map onVar) (onOperand block) (arg.map onOperand)
  | receiveSelf result => receiveSelf (onVar result)
  | receiveArgument result index => receiveArgument (onVar result) index
  | receiveClosure result => receiveClosure (onVar result)
  | methodReturn value => methodReturn (onOperand value)
  | closureReturn value => closureReturn (onOperand value)
  | jump target => jump (onLabel target)
  | branch condition target => branch (onOperand condition) (onLabel target)
  | nop => nop

/-- Replacing names replaces all parts. -/
theorem Instr.mapNames_eq_mapParts (onVar : Variable → Variable) (onLabel : Label → Label)
    (instr : Instr) :
    instr.mapNames onVar onLabel = instr.mapParts onVar onLabel (·.mapNames onVar onLabel) := by
  cases instr <;> rfl

theorem Instr.mapParts_id (instr : Instr) : instr.mapParts id id id = instr := by
  cases instr <;> simp [mapParts]

theorem Instr.mapParts_mapParts (onVar thenVar : Variable → Variable)
    (onLabel thenLabel : Label → Label) (onOperand thenOperand : Operand → Operand)
    (instr : Instr) :
    (instr.mapParts onVar onLabel onOperand).mapParts thenVar thenLabel thenOperand =
      instr.mapParts (thenVar ∘ onVar) (thenLabel ∘ onLabel) (thenOperand ∘ onOperand) := by
  cases instr <;> simp [mapParts]

/-- What the names in a graph become. -/
structure Relabeling where
  block : BlockId → BlockId
  var : Variable → Variable
  label : Label → Label
  /-- The identities of `nil` literals. -/
  literal : Nat → Nat

namespace Relabeling

/-- The operand with its name replaced. -/
def operand (ρ : Relabeling) : Operand → Operand
  | .var v => .var (ρ.var v)
  | .label label => .label (ρ.label label)
  | .lit ⟨id, .nil⟩ => .lit ⟨ρ.literal id, .nil⟩
  | .lit literal => .lit literal

/-- The instruction with its names replaced. -/
def instr (ρ : Relabeling) (instr : Instr) : Instr :=
  instr.mapParts ρ.var ρ.label ρ.operand

/-- The block with its names replaced. -/
def ofBlock (ρ : Relabeling) (block : Block) : Block where
  id := ρ.block block.id
  label := ρ.label block.label
  instrs := block.instrs.map ρ.instr
  live := block.live

/-- The edge with its names replaced. -/
def edge (ρ : Relabeling) (edge : Edge) : Edge :=
  ⟨ρ.block edge.source, ρ.block edge.destination, edge.kind, edge.data.map ρ.operand⟩

/-- The relabeling that leaves everything as it is. -/
def refl : Relabeling :=
  ⟨id, id, id, id⟩

/-- One relabeling after another. -/
def comp (outer inner : Relabeling) : Relabeling where
  block id := outer.block (inner.block id)
  var v := outer.var (inner.var v)
  label label := outer.label (inner.label label)
  literal id := outer.literal (inner.literal id)

variable {ρ μ : Relabeling}

theorem operand_refl (operand : Operand) : refl.operand operand = operand := by
  rcases operand with v | label | ⟨id, constant⟩
  · rfl
  · rfl
  · cases constant <;> rfl

theorem instr_refl (instr : Instr) : refl.instr instr = instr := by
  rw [Relabeling.instr, show refl.operand = id from funext operand_refl]
  exact instr.mapParts_id

theorem operand_comp (operand : Operand) :
    (ρ.comp μ).operand operand = ρ.operand (μ.operand operand) := by
  rcases operand with v | label | ⟨id, constant⟩
  · rfl
  · rfl
  · cases constant <;> rfl

theorem instr_comp (instr : Instr) : (ρ.comp μ).instr instr = ρ.instr (μ.instr instr) := by
  have operands : (ρ.comp μ).operand = ρ.operand ∘ μ.operand := funext operand_comp
  rw [Relabeling.instr, operands, Relabeling.instr, Relabeling.instr, Instr.mapParts_mapParts]
  rfl

theorem ofBlock_comp (block : Block) : (ρ.comp μ).ofBlock block = ρ.ofBlock (μ.ofBlock block) := by
  simp only [ofBlock, List.map_map]
  congr 1
  exact List.map_congr_left fun instr _ => instr_comp instr

theorem edge_comp (edge : Edge) : (ρ.comp μ).edge edge = ρ.edge (μ.edge edge) := by
  have operands : (ρ.comp μ).operand = ρ.operand ∘ μ.operand := funext operand_comp
  simp only [Relabeling.edge, operands, Option.map_map]
  rfl

/-! ## Relabelings that agree -/

/-- What becomes of an instruction depends on what becomes of its mentions alone. -/
theorem instr_congr {instr : Instr}
    (same : ∀ operand ∈ instr.mentions, ρ.operand operand = μ.operand operand) :
    ρ.instr instr = μ.instr instr := by
  have read : ∀ operand ∈ instr.operands, ρ.operand operand = μ.operand operand :=
    fun operand member => same operand (List.mem_append_left _ member)
  have written : ∀ v, instr.result? = some v → ρ.var v = μ.var v := by
    intro v result
    exact Operand.var.inj (same (.var v) (List.mem_append_right _ (by simp [result])))
  have target : ∀ label, .label label ∈ instr.operands → ρ.label label = μ.label label :=
    fun label member => Operand.label.inj (read _ member)
  cases instr with
  | copy result source =>
      exact congrArg₂ Instr.copy (written _ rfl) (read _ List.mem_cons_self)
  | call result receiver method args closure =>
      have results : result.map ρ.var = result.map μ.var :=
        Option.map_congr written
      have passed : args.map ρ.operand = args.map μ.operand :=
        List.map_congr_left fun operand member => read operand (by simp [Instr.operands, member])
      have closures : closure.map ρ.operand = closure.map μ.operand :=
        Option.map_congr fun operand same => read operand (by simp [Instr.operands, same])
      have receivers := read receiver List.mem_cons_self
      simp only [Relabeling.instr, Instr.mapParts, results, passed, closures, receivers]
  | yield result block arg =>
      have results : result.map ρ.var = result.map μ.var :=
        Option.map_congr written
      have passed : arg.map ρ.operand = arg.map μ.operand :=
        Option.map_congr fun operand same => read operand (by simp [Instr.operands, same])
      have blocks := read block List.mem_cons_self
      simp only [Relabeling.instr, Instr.mapParts, results, passed, blocks]
  | receiveSelf result => exact congrArg Instr.receiveSelf (written _ rfl)
  | receiveArgument result index =>
      exact congrArg (Instr.receiveArgument · index) (written _ rfl)
  | receiveClosure result => exact congrArg Instr.receiveClosure (written _ rfl)
  | methodReturn value => exact congrArg Instr.methodReturn (read _ List.mem_cons_self)
  | closureReturn value => exact congrArg Instr.closureReturn (read _ List.mem_cons_self)
  | jump label => exact congrArg Instr.jump (target _ List.mem_cons_self)
  | branch condition label =>
      exact congrArg₂ Instr.branch (read _ List.mem_cons_self)
        (target _ (List.mem_cons_of_mem _ List.mem_cons_self))
  | nop => rfl

theorem instr_eq_self {instr : Instr}
    (same : ∀ operand ∈ instr.mentions, ρ.operand operand = operand) :
    ρ.instr instr = instr := by
  rw [instr_congr fun operand member => (same operand member).trans (operand_refl operand).symm,
    instr_refl]

/-- Different instructions become different when different names do. -/
theorem instr_injective (var : Function.Injective ρ.var) (label : Function.Injective ρ.label)
    (literal : Function.Injective ρ.literal) : Function.Injective ρ.instr := by
  have inhabited : Nonempty Variable ∧ Nonempty Label := ⟨⟨.temporary 0⟩, ⟨⟨""⟩⟩⟩
  rcases inhabited with ⟨_, _⟩
  let back : Relabeling :=
    ⟨id, Function.invFun ρ.var, Function.invFun ρ.label, Function.invFun ρ.literal⟩
  have undone : ∀ operand, (back.comp ρ).operand operand = operand := by
    intro operand
    rcases operand with v | l | ⟨id, constant⟩
    · exact congrArg Operand.var (Function.leftInverse_invFun var v)
    · exact congrArg Operand.label (Function.leftInverse_invFun label l)
    · cases constant with
      | nil =>
          exact congrArg (fun id => Operand.lit ⟨id, .nil⟩) (Function.leftInverse_invFun literal id)
      | _ => rfl
  apply Function.LeftInverse.injective (g := back.instr)
  intro instr
  rw [← instr_comp]
  exact instr_eq_self fun operand _ => undone operand

/-! ## Graphs that differ in names -/

/-- Different names become different names, and every name is what one becomes. -/
structure Bijective (ρ : Relabeling) : Prop where
  block : Function.Bijective ρ.block
  var : Function.Bijective ρ.var
  label : Function.Bijective ρ.label
  literal : Function.Bijective ρ.literal

/-- Replacing its names makes one graph the other, up to the order of blocks and edges. -/
structure Matches (ρ : Relabeling) (g other : Graph) : Prop where
  id_eq : other.id = g.id
  nextIndex_eq : other.nextIndex = g.nextIndex
  blocks : (g.blocks.map ρ.ofBlock).Perm other.blocks
  labels : ∀ label, other.byLabel? (ρ.label label) = (g.byLabel? label).map ρ.block
  edges : (g.edges.map ρ.edge).Perm other.edges
  entry_eq : other.entry = g.entry.map ρ.block
  exit_eq : other.exit = g.exit.map ρ.block

/-- Blocks match when their sketches do and the same blocks are live. -/
theorem blocks_of_sketches {g other : Graph} (wf : g.WellFormed) (otherWf : other.WellFormed)
    (sketches : (g.sketch.map ρ.ofBlock).Perm other.sketch)
    (live : ∀ id, g.Owns id → (ρ.block id ∈ other.liveIds ↔ id ∈ g.liveIds)) :
    (g.blocks.map ρ.ofBlock).Perm other.blocks := by
  rw [wf.blocks_eq_sketch, otherWf.blocks_eq_sketch, List.map_map]
  have marked : g.sketch.map (ρ.ofBlock ∘ fun block => block.mark (decide (block.id ∈ g.liveIds))) =
      (g.sketch.map ρ.ofBlock).map fun block => block.mark (decide (block.id ∈ other.liveIds)) := by
    rw [List.map_map]
    apply List.map_congr_left
    intro block member
    rcases List.mem_map.mp member with ⟨held, heldMember, rfl⟩
    have owns : g.Owns held.id := .of_owned (wf.mem_blocks_iff.mp heldMember)
    have same : decide (held.id ∈ g.liveIds) = decide (ρ.block held.id ∈ other.liveIds) := by
      rw [decide_eq_decide]
      exact (live held.id owns).symm
    show ρ.ofBlock (Block.mark _ (decide (held.id ∈ g.liveIds))) = _
    rw [same]
    rfl
  rw [marked]
  exact sketches.map _

/-- In well-formed graphs the labels follow the blocks. -/
theorem byLabel?_of_blocks {g other : Graph} (wf : g.WellFormed) (otherWf : other.WellFormed)
    (injective : Function.Injective ρ.label) (blocks : (g.blocks.map ρ.ofBlock).Perm other.blocks)
    (label : Label) : other.byLabel? (ρ.label label) = (g.byLabel? label).map ρ.block := by
  ext id
  rw [otherWf.labelled]
  simp only [Option.map_eq_some_iff, wf.labelled]
  constructor
  · rintro ⟨held, found, same⟩
    have member : held ∈ g.blocks.map ρ.ofBlock :=
      blocks.mem_iff.mpr (Graph.mem_blocks_of_owned found)
    rcases List.mem_map.mp member with ⟨block, blockMember, rfl⟩
    have here : ρ.block block.id = id := otherWf.id_of_owned found
    exact ⟨block.id, ⟨block, wf.mem_blocks_iff.mp blockMember, injective same⟩, here⟩
  · rintro ⟨before, ⟨block, found, rfl⟩, rfl⟩
    have member : ρ.ofBlock block ∈ other.blocks :=
      blocks.mem_iff.mp (List.mem_map_of_mem (Graph.mem_blocks_of_owned found))
    have here := otherWf.mem_blocks_iff.mp member
    rw [← wf.id_of_owned found]
    exact ⟨_, here, rfl⟩

end Relabeling

end FlowIR
