import FlowIR.Proofs.Graph.Reachability

/-!
# Coherent graphs

Jumps name labels and edges name ids.  In a coherent graph the two agree: a live block jumps only at
its end, and only to a live block to which one of its edges leads.  Pruning keeps a graph coherent,
since what a live block jumps to is met by the search when the block is.
-/

namespace FlowIR

/-- Jumps stand only at the end of a sequence, and one that stands there goes
where `leads` allows. -/
def JumpsLast (leads : Label → Prop) (instrs : List Instr) : Prop :=
  (∀ instr ∈ instrs.dropLast, instr.jumpTarget? = none) ∧
    ∀ label ∈ instrs.getLast?.bind Instr.jumpTarget?, leads label

section JumpsLast

variable {leads : Label → Prop} {instrs front : List Instr} {last : Instr}

instance [DecidablePred leads] : Decidable (JumpsLast leads instrs) :=
  inferInstanceAs (Decidable (_ ∧ _))

theorem jumpsLast_concat :
    JumpsLast leads (front ++ [last]) ↔
      (∀ instr ∈ front, instr.jumpTarget? = none) ∧ ∀ label ∈ last.jumpTarget?, leads label := by
  simp [JumpsLast]

/-- A sequence without jumps satisfies every condition on jumps. -/
theorem jumpsLast_of_plain (plain : ∀ instr ∈ instrs, instr.jumpTarget? = none) :
    JumpsLast leads instrs := by
  rcases List.eq_nil_or_concat instrs with rfl | ⟨front, last, rfl⟩
  · simp [JumpsLast]
  · rw [List.concat_eq_append] at plain ⊢
    apply jumpsLast_concat.mpr
    constructor
    · intro instr member
      exact plain instr (List.mem_append_left _ member)
    · rw [plain last (by simp)]
      exact nofun

theorem JumpsLast.mono {others : Label → Prop} (jumps : JumpsLast leads instrs)
    (weaker : ∀ label, leads label → others label) : JumpsLast others instrs :=
  ⟨jumps.1, fun label member => weaker label (jumps.2 label member)⟩

/-- Nothing jumps in front of an instruction, and what follows it jumps only at the end. -/
theorem JumpsLast.of_append {pre post : List Instr} {instr : Instr}
    (jumps : JumpsLast leads (pre ++ instr :: post)) :
    (∀ before ∈ pre, before.jumpTarget? = none) ∧ JumpsLast leads post := by
  rcases List.eq_nil_or_concat post with rfl | ⟨front, last, rfl⟩
  · exact ⟨(jumpsLast_concat.mp jumps).1, jumpsLast_of_plain (by simp)⟩
  · rw [List.concat_eq_append] at jumps ⊢
    rw [← List.cons_append, ← List.append_assoc] at jumps
    rcases jumpsLast_concat.mp jumps with ⟨plain, allowed⟩
    constructor
    · intro before member
      exact plain before (List.mem_append_left _ member)
    · apply jumpsLast_concat.mpr
      constructor
      · intro other member
        exact plain other (List.mem_append_right _ (List.mem_cons_of_mem _ member))
      · exact allowed

end JumpsLast

namespace Graph

/-- The label is that of a live block to which an edge leads from the given one. -/
def Leads (g : Graph) (source : BlockId) (label : Label) : Prop :=
  ∃ target ∈ g.byLabel? label, target ∈ g.liveIds ∧ target ∈ g.successors source

/-- Live blocks jump only at their end, and only to live blocks to which their edges lead. -/
def Coherent (g : Graph) : Prop :=
  ∀ block ∈ g.liveBlocks, JumpsLast (g.Leads block.id) block.instrs

instance (g : Graph) (source : BlockId) : DecidablePred (g.Leads source) := fun label =>
  inferInstanceAs (Decidable (∃ target ∈ g.byLabel? label, _))

instance (g : Graph) : Decidable g.Coherent :=
  inferInstanceAs (Decidable (∀ block ∈ g.liveBlocks, _))

variable {g : Graph}

/-- In a well-formed graph the label index may be left out of account. -/
theorem WellFormed.leads_iff (wf : g.WellFormed) {source : BlockId} {label : Label} :
    g.Leads source label ↔
      ∃ target ∈ g.liveBlocks, target.label = label ∧ target.id ∈ g.successors source := by
  constructor
  · rintro ⟨id, bound, live, follows⟩
    rcases (wf.labelled label id).mp bound with ⟨target, found, labelEq⟩
    rcases wf.mem_liveIds_iff.mp live with ⟨other, otherFound, alive⟩
    rw [found] at otherFound
    obtain rfl := Except.ok.inj otherFound
    have same := wf.id_of_owned found
    rw [← same] at found follows
    exact ⟨target, wf.mem_liveBlocks_iff.mpr ⟨found, alive⟩, labelEq, follows⟩
  · rintro ⟨target, live, labelEq, follows⟩
    have found := (wf.mem_liveBlocks_iff.mp live).1
    exact ⟨target.id, (wf.labelled label target.id).mpr ⟨target, found, labelEq⟩,
      List.mem_map_of_mem live, follows⟩

/-- Pruning keeps what its live blocks jump to. -/
theorem Coherent.prune (coherent : g.Coherent) (wf : g.WellFormed) : g.prune.2.Coherent := by
  intro block member
  rcases wf.mem_liveBlocks_prune_iff.mp member with ⟨live, kept⟩
  apply (coherent block live).mono
  intro label leads
  rcases wf.leads_iff.mp leads with ⟨target, targetLive, labelEq, follows⟩
  -- Where the search has met the block it also meets what the block jumps to.
  have targetKept : g.entry = none ∨ g.Reaches target.id := by
    apply kept.imp_right
    intro reaches
    exact .step reaches follows (List.mem_map_of_mem targetLive)
  have targetStays := wf.mem_liveBlocks_prune_iff.mpr ⟨targetLive, targetKept⟩
  rw [← successors_prune] at follows
  exact wf.prune.leads_iff.mpr ⟨target, targetStays, labelEq, follows⟩

end Graph

end FlowIR
