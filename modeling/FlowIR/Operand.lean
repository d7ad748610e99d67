import FlowIR.Literal
import FlowIR.Variable

/-!
# Labels and operands

What an instruction may refer to: a variable, a label, or a literal.
-/

namespace FlowIR

/-- The name of a block as jumps see it. -/
structure Label where
  name : String
deriving DecidableEq

/-- What an instruction refers to. -/
inductive Operand where
  | var (place : Variable)
  | label (target : Label)
  | lit (literal : Literal)
deriving DecidableEq

namespace Operand

/-- The variable behind an operand, if it is one. -/
def var? : Operand → Option Variable
  | var v => some v
  | label _ => none
  | lit _ => none

/-- An operand is shown as what it refers to. -/
def render : Operand → String
  | var v => v.render
  | label l => l.name
  | lit literal => literal.render

end Operand

end FlowIR
