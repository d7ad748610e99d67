import FlowIR.Renaming

/-!
# Renamings are one-to-one

The two tables of a renaming are inverse to each other, and every insertion that is accepted keeps
them so.  A source that has no target can be sent to any target that has no source.
-/

namespace FlowIR.Renaming

variable {α β : Type} [DecidableEq α] [DecidableEq β]
  {showSource : α → String} {showTarget : β → String}
  {names after : Renaming α β} {source : α} {target : β}

/-- Each table is the inverse of the other. -/
def OneToOne (names : Renaming α β) : Prop :=
  ∀ source target, names.target? source = some target ↔ names.source? target = some source

theorem oneToOne_empty : ({} : Renaming α β).OneToOne := by
  intro source target
  exact iff_of_false nofun nofun

/-- No two sources share a target. -/
theorem OneToOne.source_eq (inverse : names.OneToOne) {other : α}
    (first : names.target? source = some target) (second : names.target? other = some target) :
    source = other := by
  rw [inverse] at first second
  exact Option.some.inj (first.symm.trans second)

/-- A target that no source has is free. -/
theorem OneToOne.source?_eq_none (inverse : names.OneToOne)
    (unused : ∀ source, names.target? source ≠ some target) : names.source? target = none := by
  cases held : names.source? target with
  | none => rfl
  | some holder => exact absurd ((inverse holder target).mpr held) (unused holder)

/-- An accepted insertion repeats an entry or adds one whose source and target are both new. -/
theorem insert_eq_ok_iff :
    names.insert showSource showTarget source target = .ok after ↔
      (names.target? source = some target ∧ after = names) ∨
      (names.target? source = none ∧ names.source? target = none ∧
        after = ⟨names.pairs ++ [(source, target)], names.inverse ++ [(target, source)]⟩) := by
  unfold insert
  cases found : names.target? source with
  | some current =>
      by_cases same : current = target
      · simp [same, eq_comm]
      · simp [same]
  | none =>
      cases held : names.source? target <;> simp [eq_comm]

/-- A new source takes a new target. -/
theorem exists_insert_eq_ok (absent : names.target? source = none)
    (free : names.source? target = none) :
    ∃ after, names.insert showSource showTarget source target = .ok after :=
  ⟨_, insert_eq_ok_iff.mpr (.inr ⟨absent, free, rfl⟩)⟩

/-- A refused insertion is a conflict. -/
theorem insert_eq_error {fault : Fault}
    (refused : names.insert showSource showTarget source target = .error fault) :
    ∃ holder, fault = .renameConflict (showSource source) (showTarget target) holder := by
  unfold insert at refused
  split at refused
  · split at refused
    · contradiction
    · exact ⟨_, (Except.error.inj refused).symm⟩
  · split at refused
    · exact ⟨_, (Except.error.inj refused).symm⟩
    · contradiction

/-- Insertions keep the tables inverse to each other. -/
theorem OneToOne.insert (inverse : names.OneToOne)
    (inserted : names.insert showSource showTarget source target = .ok after) : after.OneToOne := by
  rcases insert_eq_ok_iff.mp inserted with ⟨-, rfl⟩ | ⟨absent, free, rfl⟩
  · exact inverse
  intro other image
  have forward := target?_of_insert inserted other
  have backward : (⟨names.pairs ++ [(source, target)],
      names.inverse ++ [(target, source)]⟩ : Renaming α β).source? image =
        (names.source? image).or (if target = image then some source else none) := by
    simp [source?, Table.find?_append, Table.find?_cons]
  rw [forward, backward]
  by_cases here : other = source
  · subst here
    by_cases there : target = image
    · subst there
      simp [free]
    · have unused : names.source? image ≠ some other := by
        intro held
        rw [(inverse other image).mpr held] at absent
        contradiction
      simp [there, unused]
  · rw [if_neg here, inverse]
    by_cases there : target = image
    · subst there
      simp [free, Ne.symm here]
    · simp [there]

end FlowIR.Renaming
