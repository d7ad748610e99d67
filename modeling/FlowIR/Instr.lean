import FlowIR.Operand

/-!
# Instructions

The instruction set is a closed sum.  `operands`, `result?` and `jumpTarget?` list what an
instruction reads, what it writes and where it may jump; `mapNames` replaces the variables and
labels it mentions, and the three listings commute with it.
-/

namespace FlowIR

/-- An instruction. -/
inductive Instr where
  /-- `result = source`. -/
  | copy (result : Variable) (source : Operand)
  /-- A method call, which may pass a closure. -/
  | call (result : Option Variable) (receiver : Operand) (method : String)
      (args : List Operand) (closure : Option Operand)
  /-- An invocation of the closure `block`. -/
  | yield (result : Option Variable) (block : Operand) (arg : Option Operand)
  /-- Binds the receiver on entry to a scope. -/
  | receiveSelf (result : Variable)
  /-- Binds the positional argument `index` on entry to a scope. -/
  | receiveArgument (result : Variable) (index : Nat)
  /-- Binds the passed closure on entry to a scope. -/
  | receiveClosure (result : Variable)
  /-- Leaves the method with `value`. -/
  | methodReturn (value : Operand)
  /-- Leaves the closure with `value`, which the invoking yield gets. -/
  | closureReturn (value : Operand)
  /-- Continues at `target`. -/
  | jump (target : Label)
  /-- Continues at `target` when `condition` holds, else falls through. -/
  | branch (condition : Operand) (target : Label)
  /-- Does nothing. -/
  | nop
deriving DecidableEq

namespace Instr

/-- The operands that an instruction reads, in order. -/
def operands : Instr → List Operand
  | copy _ source => [source]
  | call _ receiver _ args closure => receiver :: args ++ closure.toList
  | yield _ block arg => block :: arg.toList
  | receiveSelf _ => []
  | receiveArgument _ _ => []
  | receiveClosure _ => []
  | methodReturn value => [value]
  | closureReturn value => [value]
  | jump target => [.label target]
  | branch condition target => [condition, .label target]
  | nop => []

/-- The variable that an instruction writes. -/
def result? : Instr → Option Variable
  | copy result _ => some result
  | call result _ _ _ _ => result
  | yield result _ _ => result
  | receiveSelf result => some result
  | receiveArgument result _ => some result
  | receiveClosure result => some result
  | methodReturn _ => none
  | closureReturn _ => none
  | jump _ => none
  | branch _ _ => none
  | nop => none

/-- The label at which an instruction may continue. -/
def jumpTarget? : Instr → Option Label
  | jump target => some target
  | branch _ target => some target
  | _ => none

/-- An instruction that invokes a closure. -/
def isYield : Instr → Bool
  | yield _ _ _ => true
  | _ => false

/-! ## Text -/

/-- The part of an instruction's text that follows its result. -/
def renderAction : Instr → String
  | copy _ source => "copy(" ++ source.render ++ ")"
  | call _ receiver method args closure =>
      "call(" ++ method ++ ", " ++ receiver.render ++ ", ["
        ++ ", ".intercalate (args.map Operand.render) ++ "]"
        ++ (match closure with
          | some block => ", &" ++ block.render
          | none => "")
        ++ ")"
  | yield _ block (some arg) => "yield(" ++ block.render ++ ", " ++ arg.render ++ ")"
  | yield _ block none => "yield(" ++ block.render ++ ")"
  | receiveSelf _ => "recv_self"
  | receiveArgument _ index => "recv_arg(" ++ toString index ++ ")"
  | receiveClosure _ => "recv_closure"
  | methodReturn value => "return(" ++ value.render ++ ")"
  | closureReturn value => "closure_return(" ++ value.render ++ ")"
  | jump target => "jump " ++ target.name
  | branch condition target => "b_true(" ++ condition.render ++ ", " ++ target.name ++ ")"
  | nop => "nop"

/-- An instruction is shown as `result = action`, or as its action alone when it writes nothing. -/
def render (instr : Instr) : String :=
  match instr.result? with
  | some result => result.render ++ " = " ++ instr.renderAction
  | none => instr.renderAction

end Instr

/-! ## Replacing names -/

/-- Replace the variable or the label of an operand; a literal stays as it is. -/
def Operand.mapNames (onVar : Variable → Variable) (onLabel : Label → Label) : Operand → Operand
  | .var v => .var (onVar v)
  | .label l => .label (onLabel l)
  | .lit literal => .lit literal

namespace Instr

/-- Replace every variable and every label that an instruction mentions. -/
def mapNames (onVar : Variable → Variable) (onLabel : Label → Label) : Instr → Instr
  | copy result source => copy (onVar result) (source.mapNames onVar onLabel)
  | call result receiver method args closure =>
      call (result.map onVar) (receiver.mapNames onVar onLabel) method
        (args.map (·.mapNames onVar onLabel)) (closure.map (·.mapNames onVar onLabel))
  | yield result block arg =>
      yield (result.map onVar) (block.mapNames onVar onLabel) (arg.map (·.mapNames onVar onLabel))
  | receiveSelf result => receiveSelf (onVar result)
  | receiveArgument result index => receiveArgument (onVar result) index
  | receiveClosure result => receiveClosure (onVar result)
  | methodReturn value => methodReturn (value.mapNames onVar onLabel)
  | closureReturn value => closureReturn (value.mapNames onVar onLabel)
  | jump target => jump (onLabel target)
  | branch condition target => branch (condition.mapNames onVar onLabel) (onLabel target)
  | nop => nop

/-- The operands of an instruction with replaced names are its operands with replaced names. -/
theorem operands_mapNames (onVar : Variable → Variable) (onLabel : Label → Label)
    (instr : Instr) :
    (instr.mapNames onVar onLabel).operands =
      instr.operands.map (·.mapNames onVar onLabel) := by
  cases instr with
  | call _ _ _ _ closure => cases closure <;> simp [mapNames, operands]
  | yield _ _ arg => cases arg <;> simp [mapNames, operands]
  | _ => simp [mapNames, operands, Operand.mapNames]

/-- The result of an instruction with replaced names is its result, replaced. -/
theorem result?_mapNames (onVar : Variable → Variable) (onLabel : Label → Label)
    (instr : Instr) :
    (instr.mapNames onVar onLabel).result? = instr.result?.map onVar := by
  cases instr <;> simp [mapNames, result?]

/-- The jump target of an instruction with replaced names is its jump target, replaced. -/
theorem jumpTarget?_mapNames (onVar : Variable → Variable) (onLabel : Label → Label)
    (instr : Instr) :
    (instr.mapNames onVar onLabel).jumpTarget? = instr.jumpTarget?.map onLabel := by
  cases instr <;> simp [mapNames, jumpTarget?]

@[simp] theorem isYield_mapNames (onVar : Variable → Variable) (onLabel : Label → Label)
    (instr : Instr) : (instr.mapNames onVar onLabel).isYield = instr.isYield := by
  cases instr <;> rfl

end Instr

end FlowIR
