import FlowIR.Proofs.Graph.Quotient
import FlowIR.Proofs.Graph.Rejoin
import Mathlib.Algebra.Order.Group.Multiset

/-!
# The live code of a graph

The live code is what the live blocks hold, in any order; its size is what the limits of a policy
are checked against.  Splitting and merging move instructions between blocks and leave the liveness
of blocks alone: the new block of a split is live, and the block that swallows another stays as live
as it was.  So the live code is the same before and after exactly when the instructions that were
moved came from a block as live as the one in which they end up, or there were none.
-/

namespace FlowIR

/-- Instructions in a live place, of which there are none in a dead one. -/
def codeIf (live : Bool) (instrs : List Instr) : List Instr :=
  if live then instrs else []

theorem codeIf_append (live : Bool) (first second : List Instr) :
    (codeIf live (first ++ second) : Multiset Instr) = codeIf live first + codeIf live second := by
  cases live <;> rfl

/-- What a block adds to the live code. -/
def Block.code (block : Block) : List Instr :=
  codeIf block.live block.instrs

namespace Graph

variable {g after : Graph}

/-- The instructions in live blocks, whatever their order. -/
def liveCode (g : Graph) : Multiset Instr :=
  g.liveBlocks.flatMap (·.instrs)

@[simp] theorem card_liveCode (g : Graph) : g.liveCode.card = g.liveInstrCount :=
  rfl

theorem liveCode_eq (g : Graph) : g.liveCode = g.blocks.flatMap Block.code := by
  have same : ∀ blocks : List Block,
      (blocks.filter (·.live)).flatMap (·.instrs) = blocks.flatMap Block.code := by
    intro blocks
    induction blocks with
    | nil => rfl
    | cons block rest ih => cases live : block.live <;> simp [Block.code, codeIf, live, ih]
  rw [liveCode, liveBlocks, same]

/-! ## After a change of one block -/

theorem liveCode_register (block : Block) :
    (g.register block).liveCode = g.liveCode + block.code := by
  rw [liveCode_eq, liveCode_eq, blocks_register, List.flatMap_append, ← Multiset.coe_add,
    List.flatMap_singleton]
  rfl

/-- The live code is that of a block and that of the others, which stays when the block is
changed or taken out. -/
theorem WellFormed.exists_liveCode_eq_add (wf : g.WellFormed) {id : BlockId} {held : Block}
    (found : g.owned id = .ok held) :
    ∃ others : Multiset Instr, g.liveCode = held.code + others ∧
      (∀ label, (g.without id label).liveCode = others) ∧
      ∀ change : Block → Block, (g.adjust id change).liveCode = (change held).code + others := by
  have owns : g.Owns id := ⟨held, found⟩
  have heldId : held.id = id := wf.id_of_owned found
  have member : held ∈ g.blocks := wf.mem_blocks_iff.mpr (heldId.symm ▸ found)
  rcases List.append_of_mem member with ⟨pre, post, parts⟩
  have others : ∀ block ∈ pre ++ post, block.id ≠ id := by
    have distinct := wf.ids_nodup
    rw [parts, List.map_append, List.map_cons, List.nodup_middle, List.nodup_cons, heldId,
      ← List.map_append] at distinct
    intro block listed same
    exact distinct.1 (List.mem_map.mpr ⟨block, listed, same⟩)
  have split : ∀ block, ((pre ++ block :: post).flatMap Block.code : Multiset Instr) =
      block.code + (pre ++ post).flatMap Block.code := by
    intro block
    rw [Multiset.coe_add, Multiset.coe_eq_coe]
    exact List.perm_middle.flatMap_right Block.code
  refine ⟨(pre ++ post).flatMap Block.code, ?_, fun label => ?_, fun change => ?_⟩
  · rw [liveCode_eq, parts, split]
  · rw [liveCode_eq, wf.blocks_without owns, parts, List.filter_append,
      List.filter_cons_of_neg (by simp [heldId]), ← List.filter_append, List.filter_eq_self.mpr]
    exact fun block listed => decide_eq_true (others block listed)
  · have kept : ∀ blocks : List Block, (∀ block ∈ blocks, block.id ≠ id) →
        blocks.map (fun block => if block.id = id then change block else block) = blocks := by
      intro blocks apart
      exact map_eq_self fun block listed => if_neg (apart block listed)
    rw [liveCode_eq, wf.blocks_adjust owns, parts, List.map_append, List.map_cons, if_pos heldId,
      kept pre fun block listed => others block (List.mem_append_left _ listed),
      kept post fun block listed => others block (List.mem_append_right _ listed), split]

/-! ## Splitting -/

/-- A split that succeeds cuts the sequence of a block in two and puts the tail into a new block. -/
theorem WellFormed.exists_cut_of_split (wf : g.WellFormed) {id tailId : BlockId} {point : Instr}
    {label : Label} {placement : Placement}
    (done : split id point label placement g = .ok tailId after) :
    ∃ held head tail, g.owned id = .ok held ∧ CutsAt point placement held.instrs head tail ∧
      tailId = g.freshId ∧ after = g.halved id held label head tail := by
  have accepts : g.Accepts (.split id point label placement) :=
    (GraphEdit.decides_split wf id point label placement).of_ok done
  rcases accepts.owned id (by simp [GraphEdit.blocks]) with ⟨held, found⟩
  rcases held.exists_cutsAt point placement with ⟨head, tail, cuts, headEq, tailEq⟩
  rw [wf.split_eq_ok found (accepts.free label rfl), headEq, tailEq] at done
  rcases EStateM.Result.ok.inj done with ⟨same, left⟩
  exact ⟨held, head, tail, found, cuts, same.symm, left.symm⟩

/-- A split moves the tail from the block to a live one. -/
theorem WellFormed.liveCode_halved (wf : g.WellFormed) {id : BlockId} {held : Block}
    (found : g.owned id = .ok held) (label : Label) {head tail : List Instr}
    (halves : head ++ tail = held.instrs) :
    (g.halved id held label head tail).liveCode + codeIf held.live tail =
      g.liveCode + codeIf true tail := by
  rcases wf.exists_liveCode_eq_add found with ⟨others, before, -, changed⟩
  have parts : (held.code : Multiset Instr) =
      (held.withInstrs head).code + codeIf held.live tail := by
    rw [Block.code, ← halves, codeIf_append]
    rfl
  rw [halved, liveCode_register, changed, before, parts]
  ac_rfl

/-! ## Merging -/

/-- A merge moves the instructions of the donor to the block that swallows them. -/
theorem Merging.liveCode_add {into donor : BlockId} {held food : Block}
    (merging : g.Merging into donor held food after) (wf : g.WellFormed) :
    after.liveCode + codeIf food.live food.instrs = g.liveCode + codeIf held.live food.instrs := by
  rcases wf.exists_liveCode_eq_add merging.donor_found with ⟨rest, before, gone, -⟩
  have stays : (g.without donor food.label).owned into = .ok held := by
    rw [owned_without_of_ne _ _ (merging.index_ne merging.intoOwned merging.apart),
      merging.into_found]
  rcases (wf.without merging.donor_found).exists_liveCode_eq_add stays with
    ⟨others, apart, -, changed⟩
  have restEq : rest = held.code + others := (gone food.label).symm.trans apart
  have left : after.liveCode = (held.swallow food).code + others := by
    rw [merging.after_eq, ← changed (·.swallow food)]
    rfl
  have parts : ((held.swallow food).code : Multiset Instr) =
      held.code + codeIf held.live food.instrs := by
    exact codeIf_append held.live held.instrs food.instrs
  have foodCode : food.code = codeIf food.live food.instrs := rfl
  rw [left, before, restEq, parts, foodCode]
  ac_rfl

/-! ## When nothing is gained or lost -/

/-- Instructions that are moved leave the live code as it was when they end up
as live as they came. -/
theorem liveCode_eq_iff_of_moved {moved : List Instr} {source target : Bool}
    (balance : after.liveCode + codeIf source moved = g.liveCode + codeIf target moved) :
    (after.liveCode = g.liveCode ↔ target = source ∨ moved = []) ∧
      (after.liveInstrCount = g.liveInstrCount ↔ target = source ∨ moved = []) := by
  have count := congrArg Multiset.card balance
  rw [Multiset.card_add, Multiset.card_add, card_liveCode, card_liveCode, Multiset.coe_card,
    Multiset.coe_card] at count
  have same : after.liveCode = g.liveCode → after.liveInstrCount = g.liveInstrCount :=
    fun eq => congrArg Multiset.card eq
  have back : target = source ∨ moved = [] → after.liveCode = g.liveCode := by
    rintro (rfl | rfl)
    · exact add_right_cancel balance
    · simpa [codeIf] using balance
  have forth : after.liveInstrCount = g.liveInstrCount → target = source ∨ moved = [] := by
    intro eq
    have lengths : (codeIf source moved).length = (codeIf target moved).length := by omega
    cases source <;> cases target <;> simp_all [codeIf]
  exact ⟨⟨fun eq => forth (same eq), back⟩, ⟨forth, fun cond => same (back cond)⟩⟩

/-- A split conserves the live code exactly when the block was live or the tail is empty, and a
merge exactly when the two blocks were both live or both dead or the donor is empty.  The number of
live instructions changes with the code. -/
theorem liveCode_eq_iff_of_restructured (wf : g.WellFormed) :
    (∀ id point label placement tailId after, split id point label placement g = .ok tailId after →
      ∃ held tail, g.owned id = .ok held ∧ after.owned tailId = .ok tail ∧
        (after.liveCode = g.liveCode ↔ held.live = true ∨ tail.instrs = []) ∧
        (after.liveInstrCount = g.liveInstrCount ↔ held.live = true ∨ tail.instrs = [])) ∧
    ∀ into donor after, merge into donor g = .ok () after →
      ∃ held food, g.owned into = .ok held ∧ g.owned donor = .ok food ∧
        (after.liveCode = g.liveCode ↔ held.live = food.live ∨ food.instrs = []) ∧
        (after.liveInstrCount = g.liveInstrCount ↔ held.live = food.live ∨ food.instrs = []) := by
  constructor
  · intro id point label placement tailId after done
    rcases wf.exists_cut_of_split done with ⟨held, head, tail, found, cuts, rfl, rfl⟩
    have conserved := liveCode_eq_iff_of_moved (wf.liveCode_halved found label cuts.append_eq)
    rw [eq_comm (a := true)] at conserved
    exact ⟨held, _, found, wf.owned_halved_tail found label head tail, conserved⟩
  · intro into donor after done
    rcases wf.exists_merging done with ⟨held, food, merging⟩
    exact ⟨held, food, merging.into_found, merging.donor_found,
      liveCode_eq_iff_of_moved (merging.liveCode_add wf)⟩

theorem liveCode_eq_iff_of_restructured_sample :
    loopGraph.WellFormed ∧ ∃ after,
      split ⟨0, 0⟩ .nop ⟨"tail"⟩ .closesHead loopGraph = .ok ⟨0, 2⟩ after ∧
      after.liveCode = loopGraph.liveCode := by
  have wf : loopGraph.WellFormed := by decide +kernel
  refine ⟨wf, _, rfl, ?_⟩
  rcases (liveCode_eq_iff_of_restructured wf).1 ⟨0, 0⟩ .nop ⟨"tail"⟩ .closesHead _ _ rfl with
    ⟨held, tail, found, -, conserved, -⟩
  obtain rfl : loopBlock = held := Except.ok.inj found
  exact conserved.mpr (.inl rfl)

/-- A graph with a live block and a dead one. -/
def orphanGraph : Graph :=
  { ({ id := 0 } : Graph).registerAll
      [{ id := ⟨0, 0⟩, label := ⟨"entry"⟩, instrs := [.receiveSelf (.temporary 0)] },
       { id := ⟨0, 1⟩, label := ⟨"orphan"⟩
         instrs := [.receiveClosure (.temporary 1), .methodReturn (.var (.temporary 1))]
         live := false }] with
    entry := some ⟨0, 0⟩ }

/-- Splitting the dead block makes its tail live, and merging it into the live one
makes all of it live. -/
theorem liveCode_orphan_ne :
    orphanGraph.WellFormed ∧
      (∃ after, split ⟨0, 1⟩ (.methodReturn (.var (.temporary 1))) ⟨"tail"⟩ .opensTail orphanGraph =
          .ok ⟨0, 2⟩ after ∧
        after.liveInstrCount = orphanGraph.liveInstrCount + 1 ∧
        after.liveCode ≠ orphanGraph.liveCode) ∧
      ∃ after, merge ⟨0, 0⟩ ⟨0, 1⟩ orphanGraph = .ok () after ∧
        after.liveInstrCount = orphanGraph.liveInstrCount + 2 ∧
        after.liveCode ≠ orphanGraph.liveCode := by
  have gains : ∀ {after : Graph} (more : Nat),
      after.liveInstrCount = orphanGraph.liveInstrCount + more →
      more ≠ 0 → after.liveCode ≠ orphanGraph.liveCode := by
    intro after more count positive same
    have counts := congrArg Multiset.card same
    rw [card_liveCode, card_liveCode] at counts
    omega
  exact ⟨by decide +kernel, ⟨_, rfl, by decide +kernel, gains 1 (by decide +kernel) (by decide)⟩,
    _, rfl, by decide +kernel, gains 2 (by decide +kernel) (by decide)⟩

end Graph

end FlowIR
