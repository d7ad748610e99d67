import FlowIR.Proofs.Graph.Quotient
import FlowIR.Proofs.Inlining.Request

/-!
# The ends of a merged body

Merging takes the donor out of the graph together with the roles that it has, and the block that
swallows it does not take them over.  So a body keeps both ends exactly when the donor is neither of
them, and one that has lost an end is refused from then on.
-/

namespace FlowIR.Inlining

open FlowIR.Graph

variable {g after : Graph} {into donor : BlockId} {held food : Block}

/-- The ends of a body after a merge. -/
theorem boundary_merging (merging : g.Merging into donor held food after) (bounded : Bounded g) :
    boundary after =
      if g.entry = some donor then .error (.invalidTransform (.noEntry g.id))
      else if g.exit = some donor then .error (.invalidTransform (.noExit g.id))
      else boundary g := by
  rcases Option.isSome_iff_exists.mp bounded.1 with ⟨entry, entryRole⟩
  rcases Option.isSome_iff_exists.mp bounded.2 with ⟨exit, exitRole⟩
  rcases merging.roles_eq with ⟨entryEq, exitEq⟩
  have sameId : after.id = g.id := by
    rw [merging.after_eq]
    rfl
  rw [entryRole] at entryEq
  rw [exitRole] at exitEq
  unfold boundary
  rw [entryEq, exitEq, entryRole, exitRole, sameId]
  by_cases first : entry = donor
  · simp [Option.filter, first]
  · by_cases last : exit = donor <;> simp [Option.filter, first, last]

/-- A merge leaves a body both ends exactly when the donor is neither of them.  They are then the
same as before, and otherwise the body is refused for the end that it has lost. -/
theorem bounded_merge_iff (wf : g.WellFormed) (bounded : Bounded g)
    (done : merge into donor g = .ok () after) :
    (Bounded after ↔ g.entry ≠ some donor ∧ g.exit ≠ some donor) ∧
      boundary after =
        if g.entry = some donor then .error (.invalidTransform (.noEntry g.id))
        else if g.exit = some donor then .error (.invalidTransform (.noExit g.id))
        else boundary g := by
  rcases wf.exists_merging done with ⟨held, food, merging⟩
  have ends := boundary_merging merging bounded
  refine ⟨?_, ends⟩
  rw [← exists_boundary_eq_ok_iff, ends]
  by_cases first : g.entry = some donor
  · simp [first]
  · by_cases last : g.exit = some donor
    · simp [first, last]
    · simp [first, last, exists_boundary_eq_ok_iff.mpr bounded]

theorem bounded_merge_iff_sample :
    circleGraph.WellFormed ∧ Bounded circleGraph ∧
      ∃ after, merge ⟨0, 0⟩ ⟨0, 1⟩ circleGraph = .ok () after ∧ Bounded after := by
  have wf : circleGraph.WellFormed := by decide +kernel
  have bounded : Bounded circleGraph := ⟨rfl, rfl⟩
  have merged : merge ⟨0, 0⟩ ⟨0, 1⟩ circleGraph = .ok () _ := rfl
  exact ⟨wf, bounded, _, merged, (bounded_merge_iff wf bounded merged).1.mpr ⟨by decide, by decide⟩⟩

/-- A body whose exit follows its entry. -/
def tailGraph : Graph :=
  { ({ id := 0 } : Graph).registerAll
      [{ id := ⟨0, 0⟩, label := ⟨"head"⟩, instrs := [.receiveSelf (.temporary 0)] },
       { id := ⟨0, 1⟩, label := ⟨"tail"⟩, instrs := [.methodReturn (.var (.temporary 0))] }] with
    edges := [⟨⟨0, 0⟩, ⟨0, 1⟩, .fallThrough, none⟩]
    entry := some ⟨0, 0⟩
    exit := some ⟨0, 1⟩ }

/-- Merging the exit into the entry leaves the body without an exit. -/
theorem not_bounded_merge_tail :
    tailGraph.WellFormed ∧ Bounded tailGraph ∧
      ∃ after, merge ⟨0, 0⟩ ⟨0, 1⟩ tailGraph = .ok () after ∧ ¬ Bounded after ∧
        boundary after = .error (.invalidTransform (.noExit 0)) := by
  refine ⟨by decide +kernel, ⟨rfl, rfl⟩, _, rfl, ?_, rfl⟩
  rintro ⟨-, exit⟩
  exact absurd exit (by decide)

end FlowIR.Inlining
