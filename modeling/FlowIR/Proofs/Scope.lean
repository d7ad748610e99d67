import FlowIR.Scope

/-!
# What a scope hands out

A fresh label is one that no block of the scope's graph carries, and its number is at or above the
counter.  The search passes over as many numbers as labels are bound, which is enough because
different numbers make different labels.
-/

namespace FlowIR.Scope

/-! ## Locals -/

section AddressLocal

variable (scope : Scope) (name : String) (depth : Nat)

theorem addressLocal_graph : (scope.addressLocal name depth).2.graph = scope.graph := by
  unfold addressLocal
  dsimp only
  split <;> rfl

theorem addressLocal_nextTemp : (scope.addressLocal name depth).2.nextTemp = scope.nextTemp := by
  unfold addressLocal
  dsimp only
  split <;> rfl

theorem addressLocal_nextLabel : (scope.addressLocal name depth).2.nextLabel = scope.nextLabel := by
  unfold addressLocal
  dsimp only
  split <;> rfl

end AddressLocal

/-! ## Labels -/

/-- The search does not go back. -/
theorem le_firstFree (g : Graph) (tries n : Nat) : n ≤ firstFree g tries n := by
  induction tries generalizing n with
  | zero => exact Nat.le_refl n
  | succ tries ih =>
      unfold firstFree
      split
      · exact Nat.le_of_succ_le (ih (n + 1))
      · exact Nat.le_refl n

/-- The search ends at a free label when it may pass over all bound labels that it can meet.  They
are listed in `bound`, from which each one that is met is struck out. -/
theorem binds_firstFree {g : Graph} {tries n : Nat} (bound : List Label)
    (few : bound.length ≤ tries)
    (listed : ∀ k, n ≤ k → g.binds (.numbered k) = true → Label.numbered k ∈ bound) :
    g.binds (.numbered (firstFree g tries n)) = false := by
  induction tries generalizing n bound with
  | zero =>
      obtain rfl := List.length_eq_zero_iff.mp (Nat.le_zero.mp few)
      apply Bool.eq_false_iff.mpr
      intro binds
      exact absurd (listed n (Nat.le_refl n) binds) List.not_mem_nil
  | succ tries ih =>
      unfold firstFree
      split
      next binds =>
        have met := listed n (Nat.le_refl n) binds
        apply ih (bound.erase (.numbered n))
        · rw [List.length_erase_of_mem met]
          omega
        · intro k above bindsK
          have other : Label.numbered k ≠ .numbered n := by
            rw [Ne, Label.numbered_inj]
            omega
          exact (List.mem_erase_of_ne other).mpr (listed k (Nat.le_of_succ_le above) bindsK)
      next free => exact Bool.eq_false_iff.mpr free

/-- A bound label stands in the label index. -/
theorem mem_labels_of_binds {g : Graph} {label : Label} (binds : g.binds label = true) :
    label ∈ g.labels.map (·.1) := by
  rcases Option.isSome_iff_exists.mp binds with ⟨id, bound⟩
  exact List.mem_map.mpr ⟨(label, id), Table.mem_of_find? bound, rfl⟩

/-- The number of the next fresh label. -/
def labelNumber (scope : Scope) : Nat :=
  firstFree scope.graph scope.graph.labels.length scope.nextLabel

theorem freshLabel_eq (scope : Scope) :
    scope.freshLabel =
      (.numbered scope.labelNumber, { scope with nextLabel := scope.labelNumber + 1 }) :=
  rfl

theorem nextLabel_le_labelNumber (scope : Scope) : scope.nextLabel ≤ scope.labelNumber :=
  le_firstFree _ _ _

/-- No block carries a fresh label. -/
theorem binds_labelNumber (scope : Scope) :
    scope.graph.binds (.numbered scope.labelNumber) = false := by
  apply binds_firstFree (scope.graph.labels.map (·.1))
  · exact Nat.le_of_eq (List.length_map _)
  · intro k _ binds
    exact mem_labels_of_binds binds

end FlowIR.Scope
