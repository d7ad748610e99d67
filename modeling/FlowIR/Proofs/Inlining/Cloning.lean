import FlowIR.Proofs.Inlining.Naming

/-!
# Cloning follows the rules

Each way to clone an instruction computes the image that its rule gives under the final
substitution.  So do clones of whole sequences, and what is renamed ahead of a migration changes
no image.
-/

namespace FlowIR.Inlining

variable {base : Scope} {frame : Frame}

/-- In a pass of that setting, cloning an instruction computes its image under the rule. -/
def Implements (base : Scope) (setting : Setting) (clone : Instr → Step (Option Instr))
    (rule : Rule) : Prop :=
  ∀ frame : Frame, frame.setting = setting → ∀ instr,
    Translates base frame (clone instr) fun σ n => rule σ n instr

/-! ## What the instruction comes from -/

theorem translates_boundCall {call : CallBinding} (bound : frame.setting.call = some call) :
    Translates base frame boundCall fun _ n => (call, n) := by
  intro pass named frameEq
  have here : pass.call = some call := by
    rw [← bound, ← frameEq]
    rfl
  unfold boundCall
  apply Ensures.get_bind
  rw [here]
  exact Ensures.of_pure ⟨named, frameEq, .refl pass, fun _ _ => rfl⟩

theorem translates_boundYield {yielded : YieldBinding}
    (bound : frame.setting.yielded = some yielded) :
    Translates base frame boundYield fun _ n => (yielded, n) := by
  intro pass named frameEq
  have here : pass.yielded = some yielded := by
    rw [← bound, ← frameEq]
    rfl
  unfold boundYield
  apply Ensures.get_bind
  rw [here]
  exact Ensures.of_pure ⟨named, frameEq, .refl pass, fun _ _ => rfl⟩

theorem translates_freshNil :
    Translates base frame freshNil fun _ n => (.lit ⟨n, .nil⟩, n + 1) := by
  intro pass named frameEq
  have kept : Named base { pass with host := pass.host.freshNil.2 } :=
    named.of_same_tables rfl rfl rfl (Nat.le_refl _) (Nat.le_refl _)
  exact ⟨kept, frameEq, .of_tables rfl rfl rfl, fun _ _ => rfl⟩

theorem translates_orNil (operand : Option Operand) :
    Translates base frame (orNil operand) fun _ n => supply n operand := by
  cases operand with
  | some operand => exact .of_pure _
  | none => exact translates_freshNil

/-! ## The three ways to clone -/

/-- An instruction that is only renamed is kept. -/
theorem translates_kept (instr : Instr) :
    Translates base frame (do return some (← renameInstr instr))
      fun σ n => (some (σ.instr instr), n) :=
  (translates_renameInstr instr).bind fun _ => .of_pure _

/-- A return copies to the variable that waits for its value, if there is one. -/
theorem translates_copyTo (result : Option Variable) (value : Operand) :
    Translates base frame
      (match result with
        | some result => do return some (Instr.copy result (← renameOperand value))
        | none => return none)
      fun σ n => (result.map fun result => Instr.copy result (σ.operand value), n) := by
  cases result with
  | some result => exact (translates_renameOperand value).bind fun _ => .of_pure _
  | none => exact .of_pure _

theorem cloneForCall_implements {setting : Setting} {call : CallBinding}
    (bound : setting.call = some call) : Implements base setting cloneForCall call.rule := by
  rintro frame rfl instr
  cases instr with
  | receiveSelf result =>
      exact ((translates_boundCall bound).bind fun _ =>
        (translates_renameVariable result).bind fun _ => .of_pure _).congr fun _ _ => rfl
  | receiveArgument result index =>
      exact ((translates_boundCall bound).bind fun _ =>
        (translates_renameVariable result).bind fun _ =>
        (translates_orNil _).bind fun _ => .of_pure _).congr fun _ _ => rfl
  | receiveClosure result =>
      exact ((translates_boundCall bound).bind fun _ =>
        (translates_renameVariable result).bind fun _ =>
        (translates_orNil _).bind fun _ => .of_pure _).congr fun _ _ => rfl
  | methodReturn value =>
      exact ((translates_boundCall bound).bind fun call =>
        translates_copyTo call.result value).congr fun _ _ => rfl
  | nop => exact .of_pure _
  | copy _ _ => exact translates_kept _
  | call _ _ _ _ _ => exact translates_kept _
  | yield _ _ _ => exact translates_kept _
  | closureReturn _ => exact translates_kept _
  | jump _ => exact translates_kept _
  | branch _ _ => exact translates_kept _

theorem cloneForCopy_implements (setting : Setting) :
    Implements base setting cloneForCopy copyRule := by
  rintro frame - instr
  cases instr with
  | nop => exact .of_pure _
  | _ => exact translates_kept _

theorem cloneForYield_implements {setting : Setting} {yielded : YieldBinding}
    (bound : setting.yielded = some yielded) :
    Implements base setting cloneForYield yielded.rule := by
  rintro frame rfl instr
  cases instr with
  | receiveArgument result index =>
      exact ((translates_boundYield bound).bind fun _ =>
        (translates_orNil _).bind fun _ =>
        (translates_renameVariable result).bind fun _ => .of_pure _).congr fun _ _ => rfl
  | closureReturn value =>
      exact ((translates_boundYield bound).bind fun yielded =>
        translates_copyTo yielded.result value).congr fun _ _ => rfl
  | receiveClosure result =>
      exact ((translates_renameVariable result).bind fun _ =>
        translates_freshNil.bind fun _ => .of_pure _).congr fun _ _ => rfl
  | nop => exact .of_pure _
  | _ => exact translates_kept _

/-! ## Sequences -/

theorem translates_cloneAll {setting : Setting} {clone : Instr → Step (Option Instr)} {rule : Rule}
    (implements : Implements base setting clone rule) (fits : frame.setting = setting)
    (instrs : List Instr) :
    Translates base frame (cloneAll clone instrs) fun σ n => rule.instrs σ n instrs := by
  induction instrs with
  | nil => exact .of_pure _
  | cons instr rest ih =>
      exact ((implements frame fits instr).bind fun _ => ih.bind fun _ => .of_pure _).congr
        fun _ _ => rfl

theorem translates_renameMentioned (operands : List Operand) :
    Translates base frame (renameMentioned operands) fun _ n => ((), n) := by
  induction operands with
  | nil => exact .of_pure _
  | cons operand rest ih =>
      cases operand with
      | var v => exact ((translates_renameVariable v).bind fun _ => ih).congr fun _ _ => rfl
      | label label => exact ih
      | lit literal => exact ih

theorem translates_renameAhead (instrs : List Instr) :
    Translates base frame (renameAhead instrs) fun _ n => ((), n) := by
  induction instrs with
  | nil => exact .of_pure _
  | cons instr rest ih =>
      exact ((translates_renameMentioned instr.operands).bind fun _ =>
        (translates_renameVariable? instr.result?).bind fun _ => ih).congr fun _ _ => rfl

end FlowIR.Inlining
