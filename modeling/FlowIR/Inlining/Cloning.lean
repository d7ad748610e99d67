import FlowIR.Inlining.Pass

/-!
# Carrying one instruction over

Three ways to carry an instruction into the host.  All rename what the instruction mentions; they
differ in what becomes of the instructions that cross the boundary of a scope.  Where the boundary
disappears, a receive turns into a copy from the operand it would have received, and a return into
a copy to the variable that would have got the value.  An instruction without a meaning in the host
is dropped.
-/

namespace FlowIR.Inlining

/-- Rename an optional variable. -/
def renameVariable? : Option Variable → Step (Option Variable)
  | some v => return some (← renameVariable v)
  | none => return none

/-- Rename an optional operand. -/
def renameOperand? : Option Operand → Step (Option Operand)
  | some operand => return some (← renameOperand operand)
  | none => return none

/-- Rename a list of operands from left to right. -/
def renameOperands : List Operand → Step (List Operand)
  | [] => return []
  | operand :: rest => do
      let renamed ← renameOperand operand
      return renamed :: (← renameOperands rest)

/-- The same instruction in terms of the host. -/
def renameInstr : Instr → Step Instr
  | .copy result source => do
      let result ← renameVariable result
      return .copy result (← renameOperand source)
  | .call result receiver method args closure => do
      let result ← renameVariable? result
      let receiver ← renameOperand receiver
      let args ← renameOperands args
      return .call result receiver method args (← renameOperand? closure)
  | .yield result block arg => do
      let result ← renameVariable? result
      let block ← renameOperand block
      return .yield result block (← renameOperand? arg)
  | .receiveSelf result => return .receiveSelf (← renameVariable result)
  | .receiveArgument result index => return .receiveArgument (← renameVariable result) index
  | .receiveClosure result => return .receiveClosure (← renameVariable result)
  | .methodReturn value => return .methodReturn (← renameOperand value)
  | .closureReturn value => return .closureReturn (← renameOperand value)
  | .jump target => return .jump (← renameLabel target)
  | .branch condition target => do
      let condition ← renameOperand condition
      return .branch condition (← renameLabel target)
  | .nop => return .nop

/-- The call that the pass was started for. -/
def boundCall : Step CallBinding := do
  match (← get).call with
  | some call => return call
  | none => throw (.invalidTransform .noCallBound)

/-- The yield that the pass was started for. -/
def boundYield : Step YieldBinding := do
  match (← get).yielded with
  | some yielded => return yielded
  | none => throw (.invalidTransform .noYieldBound)

/-- The operand, or a new `nil` in its absence. -/
def orNil : Option Operand → Step Operand
  | some operand => return operand
  | none => freshNil

/-- Carry over an instruction of a method that takes the place of a call. -/
def cloneForCall : Instr → Step (Option Instr)
  | .receiveSelf result => do
      let call ← boundCall
      return some (.copy (← renameVariable result) call.receiver)
  | .receiveArgument result index => do
      let call ← boundCall
      let result ← renameVariable result
      return some (.copy result (← orNil call.args[index]?))
  | .receiveClosure result => do
      let call ← boundCall
      let result ← renameVariable result
      return some (.copy result (← orNil call.closure))
  | .methodReturn value => do
      match (← boundCall).result with
      | some result => return some (.copy result (← renameOperand value))
      | none => return none
  | .nop => return none
  | instr => return some (← renameInstr instr)

/-- Carry over an instruction of a closure that is copied. -/
def cloneForCopy : Instr → Step (Option Instr)
  | .nop => return none
  | instr => return some (← renameInstr instr)

/-- Carry over an instruction of a closure that takes the place of a yield.  The yield passes one
argument at most and never a closure; the closure's receiver is the host's own. -/
def cloneForYield : Instr → Step (Option Instr)
  | .receiveArgument result index => do
      let yielded ← boundYield
      let source ← orNil (if index = 0 then yielded.arg else none)
      return some (.copy (← renameVariable result) source)
  | .closureReturn value => do
      match (← boundYield).result with
      | some result => return some (.copy result (← renameOperand value))
      | none => return none
  | .receiveClosure result => do
      let result ← renameVariable result
      return some (.copy result (← freshNil))
  | .nop => return none
  | instr => return some (← renameInstr instr)

end FlowIR.Inlining
