import FlowIR.Fault
import FlowIR.Table

/-!
# Renamings

A renaming sends sources to targets.  It only grows: a source keeps its target for good, and no two
sources share one.  An entry that would break either rule is refused and changes nothing.  Each
direction has a table of its own.
-/

namespace FlowIR

/-- A one-to-one assignment of targets to sources, in the order in which it was made. -/
structure Renaming (α β : Type) where
  pairs : List (α × β) := []
  /-- The same assignment read from targets to sources. -/
  inverse : List (β × α) := []
deriving DecidableEq

namespace Renaming

variable {α β : Type} [DecidableEq α] [DecidableEq β]

/-- The target of a source. -/
def target? (names : Renaming α β) (source : α) : Option β :=
  Table.find? names.pairs source

/-- The source of a target. -/
def source? (names : Renaming α β) (target : β) : Option α :=
  Table.find? names.inverse target

/-- Send `source` to `target`.  Doing so again changes nothing; a source that has another target,
or a target that has another source, is a conflict.  `showSource` and `showTarget` word it. -/
def insert (showSource : α → String) (showTarget : β → String) (names : Renaming α β)
    (source : α) (target : β) : Except Fault (Renaming α β) :=
  match names.target? source with
  | some current =>
      if current = target then
        .ok names
      else
        .error (.renameConflict (showSource source) (showTarget target) (showTarget current))
  | none =>
      match names.source? target with
      | some holder =>
          .error (.renameConflict (showSource source) (showTarget target) (showSource holder))
      | none => .ok ⟨names.pairs ++ [(source, target)], names.inverse ++ [(target, source)]⟩

/-- The number of sources that have a target. -/
def size (names : Renaming α β) : Nat :=
  names.pairs.length

/-- Afterwards the source has the target, and every other source has what it had. -/
theorem target?_of_insert {showSource : α → String} {showTarget : β → String}
    {names after : Renaming α β} {source : α} {target : β}
    (inserted : names.insert showSource showTarget source target = .ok after) (x : α) :
    after.target? x = if x = source then some target else names.target? x := by
  unfold insert at inserted
  cases found : names.target? source with
  | some current =>
      by_cases same : current = target
      · simp only [found, same, if_pos, Except.ok.injEq] at inserted
        subst inserted same
        split <;> simp_all
      · simp [found, same] at inserted
  | none =>
      cases held : names.source? target with
      | some holder => simp [found, held] at inserted
      | none =>
          simp only [found, held, Except.ok.injEq] at inserted
          subst inserted
          have absent : Table.find? names.pairs source = none := found
          by_cases here : x = source
          · simp [target?, Table.find?_append, Table.find?_cons, here, absent]
          · simp [target?, Table.find?_append, Table.find?_cons, here, Ne.symm here]

end Renaming

end FlowIR
