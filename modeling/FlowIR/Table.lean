/-!
# Tables

Graphs and renamings keep their tables as lists of pairs of a key and a value.  A look-up finds the
first pair with the wanted key; when no key occurs twice, it finds exactly the pairs of the list.
-/

namespace FlowIR.Table

variable {κ υ : Type} [DecidableEq κ]

/-- The value under a key. -/
def find? (pairs : List (κ × υ)) (key : κ) : Option υ :=
  (pairs.find? (·.1 = key)).map (·.2)

@[simp]
theorem find?_nil (key : κ) : find? ([] : List (κ × υ)) key = none :=
  rfl

theorem find?_cons (pair : κ × υ) (pairs : List (κ × υ)) (key : κ) :
    find? (pair :: pairs) key = if pair.1 = key then some pair.2 else find? pairs key := by
  by_cases same : pair.1 = key <;> simp [find?, same]

theorem find?_append (first second : List (κ × υ)) (key : κ) :
    find? (first ++ second) key = (find? first key).or (find? second key) := by
  induction first with
  | nil => simp
  | cons pair rest ih =>
      rw [List.cons_append, find?_cons, find?_cons, ih]
      split <;> simp

/-- A pair that is found stands in the list. -/
theorem mem_of_find? {pairs : List (κ × υ)} {key : κ} {value : υ}
    (found : find? pairs key = some value) : (key, value) ∈ pairs := by
  induction pairs with
  | nil => simp at found
  | cons pair rest ih =>
      rw [find?_cons] at found
      split at found
      next same =>
        obtain rfl := Option.some.inj found
        subst same
        exact List.mem_cons_self
      next => exact List.mem_cons_of_mem _ (ih found)

/-- When no key occurs twice, every pair of the list is found. -/
theorem find?_eq_some_iff {pairs : List (κ × υ)} (unique : (pairs.map (·.1)).Nodup) {key : κ}
    {value : υ} : find? pairs key = some value ↔ (key, value) ∈ pairs := by
  refine ⟨mem_of_find?, fun member => ?_⟩
  induction pairs with
  | nil => simp at member
  | cons pair rest ih =>
      rw [List.map_cons, List.nodup_cons] at unique
      rw [find?_cons]
      rcases List.mem_cons.mp member with rfl | member
      · simp
      · have different : pair.1 ≠ key := by
          rintro rfl
          exact unique.1 (List.mem_map.mpr ⟨_, member, rfl⟩)
        rw [if_neg different]
        exact ih unique.2 member

theorem find?_eq_none_iff {pairs : List (κ × υ)} {key : κ} :
    find? pairs key = none ↔ ∀ pair ∈ pairs, pair.1 ≠ key := by
  simp [find?]

/-- Dropping all pairs with one key leaves every other key as it was. -/
theorem find?_filter_ne (pairs : List (κ × υ)) (dropped key : κ) :
    find? (pairs.filter (·.1 ≠ dropped)) key = if key = dropped then none else find? pairs key := by
  induction pairs with
  | nil => simp
  | cons pair rest ih =>
      by_cases kept : pair.1 = dropped
      · rw [List.filter_cons_of_neg (by simpa using kept), ih, find?_cons]
        split
        · rfl
        next other => rw [if_neg fun same => other (same.symm.trans kept)]
      · rw [List.filter_cons_of_pos (by simpa using kept), find?_cons, ih, find?_cons]
        split
        next same => rw [if_neg fun gone => kept (same.trans gone)]
        · rfl

/-- Changing the value under one key leaves every other key as it was. -/
theorem find?_map_value (pairs : List (κ × υ)) (changed key : κ) (change : υ → υ) :
    find? (pairs.map fun pair => if pair.1 = changed then (pair.1, change pair.2) else pair) key =
      if key = changed then (find? pairs key).map change else find? pairs key := by
  induction pairs with
  | nil => simp
  | cons pair rest ih =>
      rw [List.map_cons, find?_cons, ih, find?_cons]
      by_cases here : pair.1 = changed
      · by_cases same : changed = key
        · simp [here, same]
        · simp [here, same]
      · by_cases same : pair.1 = key
        · simp [← same, here]
        · simp [here, same]

end FlowIR.Table
