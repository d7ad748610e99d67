import FlowIR.Proofs.Scope
import Mathlib.Data.List.Dedup
import Mathlib.Data.List.Perm.Subperm

/-!
# The search for a fresh label

A scope finds its next label by turns: each takes the next number and ends the search unless a
block carries the label of that number.  Nothing in a turn says that the search ends.  It does
because different numbers make different labels, so that every turn but the last meets a bound
label that no other turn meets.

A label handed out stays spent although the graph may forget it: the counter has passed
its number.  The counter is moved by the search alone, so this holds for whatever is done
to the graph in between.
-/

namespace FlowIR

namespace Graph

/-- The labels that blocks carry, each once. -/
def boundLabels (g : Graph) : List Label :=
  (g.labels.map (·.1)).dedup

theorem mem_boundLabels {g : Graph} {label : Label} :
    label ∈ g.boundLabels ↔ g.binds label = true := by
  rw [boundLabels, List.mem_dedup]
  constructor
  · intro listed
    rw [binds, byLabel?, Option.isSome_iff_ne_none]
    intro absent
    rcases List.mem_map.mp listed with ⟨pair, held, rfl⟩
    exact Table.find?_eq_none_iff.mp absent pair held rfl
  · exact Scope.mem_labels_of_binds

end Graph

namespace Scope

/-! ## Turns -/

/-- One turn of the search: the next number is taken, and its label is handed out
unless a block carries it. -/
def tryLabel (scope : Scope) : Option Label × Scope :=
  (if scope.graph.binds (.numbered scope.nextLabel) then none else some (.numbered scope.nextLabel),
    { scope with nextLabel := scope.nextLabel + 1 })

/-- The search ends after a number of turns, hands out the label and leaves the scope. -/
inductive Searches : Scope → Nat → Label → Scope → Prop
  | found {scope after : Scope} {label : Label} (turn : scope.tryLabel = (some label, after)) :
      Searches scope 1 label after
  | again {scope middle after : Scope} {turns : Nat} {label : Label}
      (turn : scope.tryLabel = (none, middle)) (rest : Searches middle turns label after) :
      Searches scope (turns + 1) label after

variable {scope start after : Scope} {log : List Label}

/-- There is one way only for the search to end. -/
theorem Searches.unique {turns others : Nat} {label other : Label} {last : Scope}
    (first : scope.Searches turns label after) (second : scope.Searches others other last) :
    others = turns ∧ (label, after) = (other, last) := by
  induction first generalizing others with
  | found turn =>
      cases second with
      | found otherTurn =>
          have same := turn.symm.trans otherTurn
          simp only [Prod.mk.injEq, Option.some.injEq] at same
          exact ⟨rfl, Prod.ext same.1 same.2⟩
      | again otherTurn => cases turn.symm.trans otherTurn
  | again turn _ ih =>
      cases second with
      | found otherTurn => cases turn.symm.trans otherTurn
      | again otherTurn rest =>
          obtain rfl := (Prod.mk.inj (turn.symm.trans otherTurn)).2
          rcases ih rest with ⟨rfl, same⟩
          exact ⟨rfl, same⟩

/-- A search passes over bound numbers up to the first free one. -/
theorem searches_of_bound {skipped : Nat}
    (bound : ∀ k < skipped, scope.graph.binds (.numbered (scope.nextLabel + k)) = true)
    (free : scope.graph.binds (.numbered (scope.nextLabel + skipped)) = false) :
    scope.Searches (skipped + 1) (.numbered (scope.nextLabel + skipped))
      { scope with nextLabel := scope.nextLabel + skipped + 1 } := by
  induction skipped generalizing scope with
  | zero =>
      apply Searches.found
      have here : scope.graph.binds (.numbered scope.nextLabel) = false := free
      simp [tryLabel, here]
  | succ skipped ih =>
      have taken : scope.tryLabel = (none, { scope with nextLabel := scope.nextLabel + 1 }) := by
        have here : scope.graph.binds (.numbered scope.nextLabel) = true :=
          bound 0 (Nat.succ_pos skipped)
        simp [tryLabel, here]
      apply Searches.again taken
      have shift : ∀ k, scope.nextLabel + 1 + k = scope.nextLabel + (k + 1) := by omega
      rw [← shift skipped] at free ⊢
      apply ih
      · intro k less
        rw [shift]
        exact bound (k + 1) (Nat.succ_lt_succ less)
      · exact free

/-- The search by numbers passes over bound labels only. -/
theorem binds_of_lt_firstFree {g : Graph} {tries n k : Nat} (above : n ≤ k)
    (below : k < firstFree g tries n) : g.binds (.numbered k) = true := by
  induction tries generalizing n with
  | zero => exact absurd below (Nat.not_lt_of_le above)
  | succ tries ih =>
      unfold firstFree at below
      split at below
      next binds =>
        rcases Nat.eq_or_lt_of_le above with rfl | more
        · exact binds
        · exact ih more below
      next => exact absurd below (Nat.not_lt_of_le above)

/-- The search hands out the fresh label. -/
theorem searches_freshLabel (scope : Scope) :
    scope.Searches (scope.labelNumber - scope.nextLabel + 1) scope.freshLabel.1
      scope.freshLabel.2 := by
  have reached : scope.nextLabel + (scope.labelNumber - scope.nextLabel) = scope.labelNumber :=
    Nat.add_sub_cancel' scope.nextLabel_le_labelNumber
  have bound : ∀ k < scope.labelNumber - scope.nextLabel,
      scope.graph.binds (.numbered (scope.nextLabel + k)) = true :=
    fun k less => binds_of_lt_firstFree (Nat.le_add_right _ _) (Nat.add_lt_of_lt_sub' less)
  have ends := searches_of_bound bound (by rw [reached]; exact scope.binds_labelNumber)
  rw [reached] at ends
  exact ends

/-- The numbers that the search passes over are as many as bound labels at most. -/
theorem labelNumber_sub_nextLabel_le (scope : Scope) :
    scope.labelNumber - scope.nextLabel ≤ scope.graph.boundLabels.length := by
  let numbers := List.range' scope.nextLabel (scope.labelNumber - scope.nextLabel)
  let passed := numbers.map Label.numbered
  have increasing : numbers.Nodup := List.nodup_range'
  have distinct : passed.Nodup := increasing.map fun _ _ same => Label.numbered_inj.mp same
  have bound : passed ⊆ scope.graph.boundLabels := by
    intro label listed
    rcases List.mem_map.mp listed with ⟨k, inRange, rfl⟩
    rw [List.mem_range'_1] at inRange
    have below : k < scope.labelNumber := by omega
    exact Graph.mem_boundLabels.mpr (binds_of_lt_firstFree inRange.1 below)
  calc scope.labelNumber - scope.nextLabel = passed.length := by simp [passed, numbers]
    _ ≤ scope.graph.boundLabels.length := (List.subperm_of_subset distinct bound).length_le

/-! ## Histories -/

/-- A scope comes about from an earlier one by handing out the labels of the log, in this order, and
by changes in between that may do anything but move the counter. -/
inductive Issues (start : Scope) : List Label → Scope → Prop
  | start : Issues start [] start
  | label {log : List Label} {scope : Scope} (before : Issues start log scope) :
      Issues start (log ++ [scope.freshLabel.1]) scope.freshLabel.2
  | change {log : List Label} {scope after : Scope} (before : Issues start log scope)
      (sameCounter : after.nextLabel = scope.nextLabel) : Issues start log after

namespace Issues

/-- Histories follow one another. -/
theorem trans {middle : Scope} {more : List Label} (first : Issues start log middle)
    (second : Issues middle more after) : Issues start (log ++ more) after := by
  induction second with
  | start =>
      rw [List.append_nil]
      exact first
  | label _ ih =>
      rw [← List.append_assoc]
      exact ih.label
  | change _ sameCounter ih => exact ih.change sameCounter

/-- The numbers of labels that were handed out lie below the counter. -/
theorem exists_number (history : Issues start log scope) {label : Label} (issued : label ∈ log) :
    ∃ n < scope.nextLabel, label = .numbered n := by
  induction history with
  | start => contradiction
  | @label log scope _ ih =>
      have later : scope.nextLabel ≤ scope.labelNumber := scope.nextLabel_le_labelNumber
      rcases List.mem_append.mp issued with old | last
      · rcases ih old with ⟨n, less, rfl⟩
        exact ⟨n, Nat.lt_succ_of_lt (Nat.lt_of_lt_of_le less later), rfl⟩
      · exact ⟨scope.labelNumber, Nat.lt_succ_self _, List.mem_singleton.mp last⟩
  | change _ sameCounter ih =>
      rcases ih issued with ⟨n, less, rfl⟩
      exact ⟨n, sameCounter ▸ less, rfl⟩

/-- The next label has not been handed out before. -/
theorem freshLabel_not_mem (history : Issues start log scope) : scope.freshLabel.1 ∉ log := by
  intro issued
  rcases history.exists_number issued with ⟨n, less, same⟩
  have number : scope.labelNumber = n := Label.numbered_inj.mp same
  exact absurd scope.nextLabel_le_labelNumber (Nat.not_le_of_lt (number ▸ less))

/-- No label is handed out twice. -/
theorem nodup (history : Issues start log scope) : log.Nodup := by
  induction history with
  | start => exact .nil
  | label before ih =>
      exact ih.append (List.nodup_singleton _) (by simpa using before.freshLabel_not_mem)
  | change _ _ ih => exact ih

end Issues

/-- How a scope hands out a label when it has handed out those of the log. -/
structure NextIsFresh (log : List Label) (scope : Scope) : Prop where
  /-- The search ends, and in one way only, after at most one turn more than
  there are bound labels. -/
  ends : ∃ turns ≤ scope.graph.boundLabels.length + 1, ∀ spent label after,
    scope.Searches spent label after ↔ spent = turns ∧ scope.freshLabel = (label, after)
  free : scope.graph.binds scope.freshLabel.1 = false
  new : scope.freshLabel.1 ∉ log
  nodup : log.Nodup

theorem Issues.nextIsFresh (history : Issues start log scope) : scope.NextIsFresh log where
  ends := by
    refine ⟨_, Nat.succ_le_succ scope.labelNumber_sub_nextLabel_le, fun spent label after => ?_⟩
    constructor
    · exact fun searches => scope.searches_freshLabel.unique searches
    · rintro ⟨rfl, same⟩
      obtain ⟨rfl, rfl⟩ := Prod.mk.inj same
      exact scope.searches_freshLabel
  free := scope.binds_labelNumber
  new := history.freshLabel_not_mem
  nodup := history.nodup

end Scope

end FlowIR
