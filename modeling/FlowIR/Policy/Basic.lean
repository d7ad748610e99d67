import FlowIR.Policy.Error

/-!
# Inlining policies

A policy limits the size of the bodies that are inlined and switches the log of yields and the
pruning on and off.  It starts from a preset, and it is valid when both limits lie in their ranges.
-/

namespace FlowIR

/-- The named starting points of a policy. -/
inductive Preset where
  | conservative
  | balanced
  | aggressive
deriving DecidableEq

namespace Preset

/-- The name of a preset. -/
def name : Preset → String
  | conservative => "conservative"
  | balanced => "balanced"
  | aggressive => "aggressive"

/-- All presets. -/
def all : List Preset :=
  [conservative, balanced, aggressive]

/-- The preset used when none is asked for. -/
def default : Preset :=
  balanced

/-- The preset of a name in any mixture of capitals and small letters.  Outside of ASCII no capital
has a small letter that occurs in a preset's name, so it is enough to lower the ASCII letters. -/
def ofName? (name : String) : Option Preset :=
  all.find? (·.name = name.map Char.toLower)

theorem mem_all (preset : Preset) : preset ∈ all := by
  cases preset <;> simp [all]

end Preset

/-- Limits and switches of inlining. -/
structure Policy where
  /-- A body with more live blocks is not inlined. -/
  maxBlocks : Nat
  /-- A body with more instructions in live blocks is not inlined. -/
  maxInstrs : Nat
  /-- Whether the yields in an inlined method are logged. -/
  logYields : Bool
  /-- Whether blocks that cannot be reached are marked dead after a transformation. -/
  prune : Bool
deriving DecidableEq

namespace Policy

/-- The policy that a preset stands for. -/
def ofPreset : Preset → Policy
  | .conservative => ⟨8, 64, true, true⟩
  | .balanced => ⟨32, 512, true, true⟩
  | .aggressive => ⟨256, 8192, true, false⟩

/-- The policy used when none is asked for. -/
def default : Policy :=
  ofPreset Preset.default

/-- The name by which a policy is known as a kind of configuration. -/
def kindName : String :=
  "InlineConfig"

/-- The greatest limit on live blocks. -/
def greatestMaxBlocks : Nat := 10000

/-- The greatest limit on instructions. -/
def greatestMaxInstrs : Nat := 1000000

/-- Both limits lie in their ranges. -/
def Valid (policy : Policy) : Prop :=
  (1 ≤ policy.maxBlocks ∧ policy.maxBlocks ≤ greatestMaxBlocks) ∧
    1 ≤ policy.maxInstrs ∧ policy.maxInstrs ≤ greatestMaxInstrs

instance (policy : Policy) : Decidable policy.Valid := by
  unfold Valid
  infer_instance

/-- Refuse a value outside of `1..=greatest`. -/
def checkRange (field : String) (value greatest : Nat) (hint : String) : Except PolicyError Unit :=
  if 1 ≤ value ∧ value ≤ greatest then
    .ok ()
  else
    .error (.outOfRange field (toString value) "1" (toString greatest) hint)

/-- Refuse a policy whose limits are out of range, the limit on blocks first. -/
def validate (policy : Policy) : Except PolicyError Unit := do
  checkRange "max_callee_blocks" policy.maxBlocks greatestMaxBlocks
    "A callee has at least one block"
  checkRange "max_callee_instructions" policy.maxInstrs greatestMaxInstrs
    "Instruction limit must be positive and bounded"

theorem checkRange_eq_ok_iff (field : String) (value greatest : Nat) (hint : String) :
    checkRange field value greatest hint = .ok () ↔ 1 ≤ value ∧ value ≤ greatest := by
  simp only [checkRange]
  split <;> simp_all

/-- Validation accepts exactly the valid policies. -/
theorem validate_eq_ok_iff (policy : Policy) : policy.validate = .ok () ↔ policy.Valid := by
  simp only [validate, Valid]
  cases first : checkRange "max_callee_blocks" policy.maxBlocks greatestMaxBlocks
      "A callee has at least one block" with
  | ok value =>
      simp [bind, Except.bind, checkRange_eq_ok_iff, (checkRange_eq_ok_iff ..).mp first]
  | error cause =>
      have refused : ¬ (1 ≤ policy.maxBlocks ∧ policy.maxBlocks ≤ greatestMaxBlocks) := by
        rw [← checkRange_eq_ok_iff "max_callee_blocks" _ _ "A callee has at least one block", first]
        simp
      simp [bind, Except.bind, refused]

end Policy

end FlowIR
