import FlowIR.Proofs.Renaming
import Mathlib.Data.Finset.Card

/-!
# Renamings are partial bijections

A renaming is built by insertions, some of which may be refused.  After any number of them it
consists of the pairs that were accepted, each once, and it can be read in both directions.  So all
that a renaming will ever accept can be told from what it has accepted: the pair must be there
already, or have a new source and a new target.
-/

namespace FlowIR.Renaming

variable {α β : Type} [DecidableEq α] [DecidableEq β]
  {showSource : α → String} {showTarget : β → String}
  {names after : Renaming α β} {source : α} {target : β}

/-! ## One insertion -/

/-- An insertion is refused where the source has another target or the target another source, and
the fault names the one that stands in the way. -/
theorem insert_eq_error_iff {fault : Fault} :
    names.insert showSource showTarget source target = .error fault ↔
      (∃ current, names.target? source = some current ∧ current ≠ target ∧
        fault = .renameConflict (showSource source) (showTarget target) (showTarget current)) ∨
      (∃ holder, names.target? source = none ∧ names.source? target = some holder ∧
        fault = .renameConflict (showSource source) (showTarget target) (showSource holder)) := by
  unfold insert
  cases found : names.target? source with
  | some current =>
      by_cases same : current = target
      · simp [same]
      · simp [same, eq_comm (b := fault)]
  | none =>
      cases held : names.source? target <;> simp [eq_comm (b := fault)]

/-- Just what is already so, or breaks neither rule, is accepted. -/
theorem OneToOne.exists_insert_eq_ok_iff (inverse : names.OneToOne) :
    (∃ after, names.insert showSource showTarget source target = .ok after) ↔
      names.target? source = some target ∨
      (∀ image, names.target? source ≠ some image) ∧
        ∀ other, names.target? other ≠ some target := by
  constructor
  · rintro ⟨after, inserted⟩
    rcases insert_eq_ok_iff.mp inserted with ⟨known, -⟩ | ⟨absent, free, -⟩
    · exact .inl known
    · refine .inr ⟨fun image => by simp [absent], fun other held => ?_⟩
      rw [(inverse other target).mp held] at free
      contradiction
  · rintro (known | ⟨new, unused⟩)
    · exact ⟨names, insert_eq_ok_iff.mpr (.inl ⟨known, rfl⟩)⟩
    · exact exists_insert_eq_ok (Option.eq_none_iff_forall_ne_some.mpr new)
        (inverse.source?_eq_none unused)

/-! ## Insertions in sequence -/

section Requests

variable (showSource showTarget)

/-- The renaming after a request, which leaves it alone when it is refused. -/
def record (names : Renaming α β) (request : α × β) : Renaming α β :=
  match names.insert showSource showTarget request.1 request.2 with
  | .ok after => after
  | .error _ => names

/-- The renaming after requests in sequence, from an empty one. -/
def recorded (requests : List (α × β)) : Renaming α β :=
  requests.foldl (record showSource showTarget) {}

/-- The requests that are accepted, in order, when they are made of the renaming in sequence. -/
def accepted (names : Renaming α β) : List (α × β) → List (α × β)
  | [] => []
  | request :: rest =>
      match names.insert showSource showTarget request.1 request.2 with
      | .ok after => request :: accepted after rest
      | .error _ => accepted names rest

end Requests

theorem record_of_ok (inserted : names.insert showSource showTarget source target = .ok after) :
    names.record showSource showTarget (source, target) = after := by
  simp [record, inserted]

theorem record_of_error {fault : Fault}
    (refused : names.insert showSource showTarget source target = .error fault) :
    names.record showSource showTarget (source, target) = names := by
  simp [record, refused]

/-- The renaming consists of the pairs of the log, each once. -/
structure Holds (log : List (α × β)) (names : Renaming α β) : Prop where
  oneToOne : names.OneToOne
  sources_nodup : (names.pairs.map (·.1)).Nodup
  mem_pairs_iff : ∀ pair, pair ∈ names.pairs ↔ pair ∈ log

namespace Holds

variable {log : List (α × β)}

theorem empty : Holds ([] : List (α × β)) {} where
  oneToOne := oneToOne_empty
  sources_nodup := List.nodup_nil
  mem_pairs_iff := fun _ => Iff.rfl

theorem target?_eq_some_iff (holds : Holds log names) :
    names.target? source = some target ↔ (source, target) ∈ log :=
  (Table.find?_eq_some_iff holds.sources_nodup).trans (holds.mem_pairs_iff _)

/-- The size counts the pairs of the log, whose repetitions count once. -/
theorem size_eq (holds : Holds log names) : names.size = log.toFinset.card := by
  have same : names.pairs.toFinset = log.toFinset := by
    ext pair
    rw [List.mem_toFinset, List.mem_toFinset]
    exact holds.mem_pairs_iff pair
  rw [← same, List.toFinset_card_of_nodup (.of_map _ holds.sources_nodup), size]

/-- An accepted pair is added to the log. -/
theorem insert (holds : Holds log names)
    (inserted : names.insert showSource showTarget source target = .ok after) :
    Holds (log ++ [(source, target)]) after := by
  have oneToOne := holds.oneToOne.insert inserted
  rcases insert_eq_ok_iff.mp inserted with ⟨known, rfl⟩ | ⟨absent, -, rfl⟩
  · refine ⟨oneToOne, holds.sources_nodup, fun pair => ?_⟩
    rw [holds.mem_pairs_iff, List.mem_append, List.mem_singleton, or_iff_left_of_imp]
    rintro rfl
    exact holds.target?_eq_some_iff.mp known
  · refine ⟨oneToOne, ?_, fun pair => ?_⟩
    · have new : source ∉ names.pairs.map (·.1) := by
        intro member
        rcases List.mem_map.mp member with ⟨pair, held, same⟩
        exact Table.find?_eq_none_iff.mp absent pair held same
      rw [List.map_append]
      exact holds.sources_nodup.append (List.nodup_singleton _) (by simpa using new)
    · rw [List.mem_append, List.mem_append, holds.mem_pairs_iff]

/-- After more requests, the accepted ones among them have been added. -/
theorem foldl (holds : Holds log names) (requests : List (α × β)) :
    Holds (log ++ names.accepted showSource showTarget requests)
      (requests.foldl (record showSource showTarget) names) := by
  induction requests generalizing names log with
  | nil => simpa [accepted] using holds
  | cons request rest ih =>
      rw [List.foldl_cons, accepted]
      cases inserted : names.insert showSource showTarget request.1 request.2 with
      | ok after =>
          rw [record_of_ok inserted, List.append_cons]
          exact ih (holds.insert inserted)
      | error fault =>
          rw [record_of_error inserted]
          exact ih holds

end Holds

/-- After requests in sequence, the renaming consists of the accepted ones. -/
theorem holds_recorded (requests : List (α × β)) :
    Holds (({} : Renaming α β).accepted showSource showTarget requests)
      (recorded showSource showTarget requests) :=
  Holds.empty.foldl requests

/-- An accepted pair stays, whatever is requested later. -/
theorem Holds.target?_foldl {log : List (α × β)} (holds : Holds log names)
    (inserted : names.insert showSource showTarget source target = .ok after)
    (later : List (α × β)) :
    (later.foldl (record showSource showTarget) after).target? source = some target := by
  apply ((holds.insert inserted).foldl later).target?_eq_some_iff.mpr
  exact List.mem_append_left _ (List.mem_append_right _ List.mem_cons_self)

/-- What holds of a renaming that has accepted the pairs of the log. -/
structure PartialBijection (showSource : α → String) (showTarget : β → String) (log : List (α × β))
    (names : Renaming α β) : Prop where
  /-- It sends a source to a target just where this pair was accepted. -/
  target_iff : ∀ source target, names.target? source = some target ↔ (source, target) ∈ log
  /-- It reads the same in both directions. -/
  inverse : ∀ source target,
    names.target? source = some target ↔ names.source? target = some source
  /-- A pair is accepted if it is there already, or if its source and its target are both new. -/
  accepts_iff : ∀ source target,
    (∃ after, names.insert showSource showTarget source target = .ok after) ↔
      names.target? source = some target ∨
      (∀ image, names.target? source ≠ some image) ∧ ∀ other, names.target? other ≠ some target
  /-- A refusal changes nothing.  Its fault names the target that the source has, or else the source
  that has the target. -/
  refused : ∀ source target fault,
    names.insert showSource showTarget source target = .error fault →
      names.record showSource showTarget (source, target) = names ∧
      ((∃ current, names.target? source = some current ∧ current ≠ target ∧
          fault = .renameConflict (showSource source) (showTarget target) (showTarget current)) ∨
        ∃ holder, names.target? source = none ∧ names.target? holder = some target ∧
          fault = .renameConflict (showSource source) (showTarget target) (showSource holder))
  /-- A repetition changes nothing. -/
  repeated : ∀ source target, names.target? source = some target →
    names.record showSource showTarget (source, target) = names
  /-- A pair that is accepted stays for good. -/
  stays : ∀ source target after, names.insert showSource showTarget source target = .ok after →
    ∀ later : List (α × β),
      (later.foldl (record showSource showTarget) after).target? source = some target
  /-- The size is the number of different pairs that were accepted. -/
  size_eq : names.size = log.toFinset.card

/-- A renaming is a partial bijection after any requests, whichever of them were refused. -/
theorem partialBijection_recorded (showSource : α → String) (showTarget : β → String)
    (requests : List (α × β)) :
    PartialBijection showSource showTarget
      (({} : Renaming α β).accepted showSource showTarget requests)
      (recorded showSource showTarget requests) := by
  have holds : Holds (({} : Renaming α β).accepted showSource showTarget requests)
      (recorded showSource showTarget requests) := holds_recorded requests
  refine
    { target_iff := fun _ _ => holds.target?_eq_some_iff
      inverse := holds.oneToOne
      accepts_iff := fun _ _ => holds.oneToOne.exists_insert_eq_ok_iff
      refused := ?_
      repeated := ?_
      stays := fun _ _ _ inserted => holds.target?_foldl inserted
      size_eq := holds.size_eq }
  · intro source target fault conflict
    refine ⟨record_of_error conflict, (insert_eq_error_iff.mp conflict).imp_right ?_⟩
    rintro ⟨holder, absent, held, same⟩
    exact ⟨holder, absent, (holds.oneToOne holder target).mpr held, same⟩
  · intro source target known
    exact record_of_ok (insert_eq_ok_iff.mpr (.inl ⟨known, rfl⟩))

/-- Two of five requests are refused, and one is a repetition. -/
example : recorded id id [("a", "x"), ("b", "x"), ("a", "y"), ("a", "x"), ("b", "y")] =
    ⟨[("a", "x"), ("b", "y")], [("x", "a"), ("y", "b")]⟩ := by
  decide

end FlowIR.Renaming
