import FlowIR.Inlining.Transplant
import FlowIR.Proofs.Ensures
import FlowIR.Proofs.Graph.Mentions

/-!
# What carrying instructions over keeps up

However an instruction is carried over, all that happens is that variables and labels are renamed
and that new literals are made.  An invariant that each of these maintains is therefore maintained
by the whole.  It may speak of some variables only, which are then all that the instruction may
mention, and what is said of a failure need not be the invariant.
-/

namespace FlowIR.Inlining

variable {α β : Type}

/-- From where the invariant holds, the step ends where it holds, or fails as `fail` says. -/
def Maintains (inv : Pass → Prop) (fail : Fault → Pass → Prop) (step : Step α) : Prop :=
  ∀ pass, inv pass → Ensures step pass (fun _ => inv) fail

namespace Maintains

variable {inv : Pass → Prop} {fail : Fault → Pass → Prop} {step : Step α} {next : α → Step β}

theorem of_pure (value : α) : Maintains inv fail (pure value) :=
  fun _ holds => Ensures.of_pure holds

theorem bind (first : Maintains inv fail step) (rest : ∀ value, Maintains inv fail (next value)) :
    Maintains inv fail (step >>= next) :=
  fun pass holds => (first pass holds).bind rest

/-- Where a call is bound, asking for it changes nothing. -/
theorem boundCall (bound : ∀ pass, inv pass → ∃ call, pass.call = some call) :
    Maintains inv fail boundCall := by
  intro pass holds
  rcases bound pass holds with ⟨call, here⟩
  apply Ensures.get_bind
  rw [here]
  exact Ensures.of_pure holds

/-- Where a yield is bound, asking for it changes nothing. -/
theorem boundYield (bound : ∀ pass, inv pass → ∃ yielded, pass.yielded = some yielded) :
    Maintains inv fail boundYield := by
  intro pass holds
  rcases bound pass holds with ⟨yielded, here⟩
  apply Ensures.get_bind
  rw [here]
  exact Ensures.of_pure holds

/-- What each clone maintains is maintained by the clones of a sequence. -/
theorem cloneAll {clone : Instr → Step (Option Instr)} {instrs : List Instr}
    (each : ∀ instr ∈ instrs, Maintains inv fail (clone instr)) :
    Maintains inv fail (cloneAll clone instrs) := by
  induction instrs with
  | nil => exact .of_pure _
  | cons instr rest ih =>
      apply (each instr List.mem_cons_self).bind
      intro _
      exact (ih fun other member => each other (List.mem_cons_of_mem _ member)).bind
        fun _ => .of_pure _

end Maintains

/-- The invariant is maintained when one of the variables in `met` is renamed, when a label is, and
when a new literal is made. -/
structure Upholds (met : Variable → Prop) (inv : Pass → Prop)
    (fail : Fault → Pass → Prop) : Prop where
  renameVariable : ∀ v, met v → Maintains inv fail (renameVariable v)
  renameLabel : ∀ label, Maintains inv fail (renameLabel label)
  freshNil : Maintains inv fail freshNil

namespace Upholds

variable {met : Variable → Prop} {inv : Pass → Prop} {fail : Fault → Pass → Prop}
  (upholds : Upholds met inv fail)

include upholds

/-! ## Operands -/

theorem renameOperand {operand : Operand} (allowed : ∀ v, operand = .var v → met v) :
    Maintains inv fail (renameOperand operand) := by
  cases operand with
  | var v => exact (upholds.renameVariable v (allowed v rfl)).bind fun _ => .of_pure _
  | label label => exact (upholds.renameLabel label).bind fun _ => .of_pure _
  | lit literal => exact .of_pure _

theorem renameVariable? {v : Option Variable} (allowed : ∀ w, v = some w → met w) :
    Maintains inv fail (renameVariable? v) := by
  cases v with
  | none => exact .of_pure _
  | some v => exact (upholds.renameVariable v (allowed v rfl)).bind fun _ => .of_pure _

theorem renameOperand? {operand : Option Operand} (allowed : ∀ v, operand = some (.var v) → met v) :
    Maintains inv fail (renameOperand? operand) := by
  cases operand with
  | none => exact .of_pure _
  | some operand =>
      exact (upholds.renameOperand fun v same => allowed v (congrArg some same)).bind
        fun _ => .of_pure _

theorem renameOperands {operands : List Operand} (allowed : ∀ v, .var v ∈ operands → met v) :
    Maintains inv fail (renameOperands operands) := by
  induction operands with
  | nil => exact .of_pure _
  | cons operand rest ih =>
      apply (upholds.renameOperand fun v same => allowed v (same ▸ List.mem_cons_self)).bind
      intro _
      exact (ih fun v member => allowed v (List.mem_cons_of_mem _ member)).bind fun _ => .of_pure _

theorem renameMentioned {operands : List Operand} (allowed : ∀ v, .var v ∈ operands → met v) :
    Maintains inv fail (renameMentioned operands) := by
  induction operands with
  | nil => exact .of_pure _
  | cons operand rest ih =>
      have others : Maintains inv fail (Inlining.renameMentioned rest) :=
        ih fun v member => allowed v (List.mem_cons_of_mem _ member)
      cases operand with
      | var v =>
          exact (upholds.renameVariable v (allowed v List.mem_cons_self)).bind fun _ => others
      | label label => exact others
      | lit literal => exact others

theorem orNil (operand : Option Operand) : Maintains inv fail (orNil operand) := by
  cases operand with
  | some operand => exact .of_pure _
  | none => exact upholds.freshNil

/-! ## Instructions -/

section Instructions

variable {instr : Instr} (allowed : ∀ v, .var v ∈ instr.mentions → met v)

include allowed

theorem renameInstr : Maintains inv fail (renameInstr instr) := by
  have writes : ∀ v, instr.result? = some v → met v :=
    fun v same => allowed v (by simp [Instr.mentions, same])
  have reads : ∀ operand ∈ instr.operands, ∀ v, operand = .var v → met v :=
    fun operand member v same => allowed v (List.mem_append_left _ (same ▸ member))
  cases instr with
  | copy result source =>
      apply (upholds.renameVariable result (writes result rfl)).bind
      intro _
      exact (upholds.renameOperand (reads source List.mem_cons_self)).bind fun _ => .of_pure _
  | call result receiver method args closure =>
      apply (upholds.renameVariable? writes).bind
      intro _
      apply (upholds.renameOperand (reads receiver (by simp [Instr.operands]))).bind
      intro _
      apply (upholds.renameOperands fun v member =>
        reads (.var v) (by simp [Instr.operands, member]) v rfl).bind
      intro _
      apply (upholds.renameOperand? fun v same =>
        reads (.var v) (by simp [Instr.operands, same]) v rfl).bind
      exact fun _ => .of_pure _
  | yield result block arg =>
      apply (upholds.renameVariable? writes).bind
      intro _
      apply (upholds.renameOperand (reads block List.mem_cons_self)).bind
      intro _
      apply (upholds.renameOperand? fun v same =>
        reads (.var v) (by simp [Instr.operands, same]) v rfl).bind
      exact fun _ => .of_pure _
  | receiveSelf result =>
      exact (upholds.renameVariable result (writes result rfl)).bind fun _ => .of_pure _
  | receiveArgument result index =>
      exact (upholds.renameVariable result (writes result rfl)).bind fun _ => .of_pure _
  | receiveClosure result =>
      exact (upholds.renameVariable result (writes result rfl)).bind fun _ => .of_pure _
  | methodReturn value =>
      exact (upholds.renameOperand (reads value List.mem_cons_self)).bind fun _ => .of_pure _
  | closureReturn value =>
      exact (upholds.renameOperand (reads value List.mem_cons_self)).bind fun _ => .of_pure _
  | jump target => exact (upholds.renameLabel target).bind fun _ => .of_pure _
  | branch condition target =>
      apply (upholds.renameOperand (reads condition List.mem_cons_self)).bind
      exact fun _ => (upholds.renameLabel target).bind fun _ => .of_pure _
  | nop => exact .of_pure _

/-- An instruction that is only renamed. -/
theorem kept : Maintains inv fail (do return some (← Inlining.renameInstr instr)) :=
  (upholds.renameInstr allowed).bind fun _ => .of_pure _

omit allowed in
/-- A return that copies to the variable that waits for its value, if there is one. -/
theorem copyTo (result : Option Variable) {value : Operand}
    (allowed : ∀ v, value = .var v → met v) :
    Maintains inv fail (match result with
      | some result => do return some (Instr.copy result (← Inlining.renameOperand value))
      | none => return none) := by
  cases result with
  | some result => exact (upholds.renameOperand allowed).bind fun _ => .of_pure _
  | none => exact .of_pure _

theorem cloneForCall (binds : Maintains inv fail boundCall) :
    Maintains inv fail (cloneForCall instr) := by
  cases instr with
  | receiveSelf result =>
      apply binds.bind
      intro _
      exact (upholds.renameVariable result
        (allowed result (by simp [Instr.mentions, Instr.result?]))).bind
        fun _ => .of_pure _
  | receiveArgument result index =>
      apply binds.bind
      intro _
      apply (upholds.renameVariable result
        (allowed result (by simp [Instr.mentions, Instr.result?]))).bind
      exact fun _ => (upholds.orNil _).bind fun _ => .of_pure _
  | receiveClosure result =>
      apply binds.bind
      intro _
      apply (upholds.renameVariable result
        (allowed result (by simp [Instr.mentions, Instr.result?]))).bind
      exact fun _ => (upholds.orNil _).bind fun _ => .of_pure _
  | methodReturn value =>
      exact binds.bind fun call => upholds.copyTo call.result
        fun v same => allowed v (same ▸ List.mem_cons_self)
  | nop => exact .of_pure _
  | _ => exact upholds.kept allowed

theorem cloneForCopy : Maintains inv fail (cloneForCopy instr) := by
  cases instr with
  | nop => exact .of_pure _
  | _ => exact upholds.kept allowed

theorem cloneForYield (binds : Maintains inv fail boundYield) :
    Maintains inv fail (cloneForYield instr) := by
  cases instr with
  | receiveArgument result index =>
      apply binds.bind
      intro _
      apply (upholds.orNil _).bind
      intro _
      exact (upholds.renameVariable result
        (allowed result (by simp [Instr.mentions, Instr.result?]))).bind
        fun _ => .of_pure _
  | closureReturn value =>
      exact binds.bind fun yielded => upholds.copyTo yielded.result
        fun v same => allowed v (same ▸ List.mem_cons_self)
  | receiveClosure result =>
      apply (upholds.renameVariable result
        (allowed result (by simp [Instr.mentions, Instr.result?]))).bind
      exact fun _ => upholds.freshNil.bind fun _ => .of_pure _
  | nop => exact .of_pure _
  | _ => exact upholds.kept allowed

end Instructions

theorem renameAhead {instrs : List Instr}
    (allowed : ∀ instr ∈ instrs, ∀ v, .var v ∈ instr.mentions → met v) :
    Maintains inv fail (renameAhead instrs) := by
  induction instrs with
  | nil => exact .of_pure _
  | cons instr rest ih =>
      have here := allowed instr List.mem_cons_self
      apply (upholds.renameMentioned fun v member => here v (List.mem_append_left _ member)).bind
      intro _
      apply (upholds.renameVariable? fun v same => here v (by simp [Instr.mentions, same])).bind
      exact fun _ => ih fun other member => allowed other (List.mem_cons_of_mem _ member)

end Upholds

end FlowIR.Inlining
