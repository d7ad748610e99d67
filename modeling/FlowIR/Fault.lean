import FlowIR.Edge
import FlowIR.Policy.Error

/-!
# Faults

The causes for which an operation on graphs, scopes or policies fails, and the message of each.
-/

namespace FlowIR

/-- Why a transformation does not apply. -/
inductive Obstacle where
  /-- A method can be inlined only at a call. -/
  | notACall (instr : Instr)
  /-- A closure can be inlined only at a yield. -/
  | notAYield (instr : Instr)
  /-- The body to be inlined has no entry block. -/
  | noEntry (graph : GraphId)
  /-- The body to be inlined has no exit block. -/
  | noExit (graph : GraphId)
  /-- The entry or exit block of the body is dead and was left out. -/
  | deadBoundary (block : BlockId)
  /-- A block cannot be merged into itself. -/
  | selfMerge
  /-- A block can be merged only into its sole predecessor. -/
  | sharedDonor (donor into : BlockId)
  /-- The pass was not started for a call. -/
  | noCallBound
  /-- The pass was not started for a yield. -/
  | noYieldBound
deriving DecidableEq

/-- The wording of an obstacle. -/
def Obstacle.reason : Obstacle → String
  | notACall instr => "'" ++ instr.render ++ "' is not a call"
  | notAYield instr => "'" ++ instr.render ++ "' is not a closure invocation"
  | noEntry graph => "graph " ++ graph.render ++ " has no entry block"
  | noExit graph => "graph " ++ graph.render ++ " has no exit block"
  | deadBoundary block => "block " ++ block.render ++ " of the inlined body is not live"
  | selfMerge => "cannot merge a block into itself"
  | sharedDonor donor into =>
      "block " ++ donor.render ++ " has predecessors other than " ++ into.render
  | noCallBound => "inlined-scope clone requires a call binding"
  | noYieldBound => "inlined-closure clone requires a yield binding"

/-- A cause of failure. -/
inductive Fault where
  /-- A view of edges has no element left. -/
  | exhausted
  /-- A view of edges does not remove elements. -/
  | readOnlyView
  /-- The graph has no block of that id. -/
  | blockNotFound (id : BlockId)
  /-- The block id was allocated by another graph. -/
  | foreignBlock (id : BlockId) (graph : GraphId)
  /-- A block of the graph already carries the label. -/
  | duplicateLabel (label : Label)
  /-- `source` cannot be renamed to `target`, because `holder` stands in the way. -/
  | renameConflict (source target holder : String)
  /-- The block holds no such instruction. -/
  | instructionNotFound (block : BlockId)
  /-- The transformation does not apply. -/
  | invalidTransform (obstacle : Obstacle)
  /-- The policy is refused. -/
  | policy (error : PolicyError)
deriving DecidableEq

namespace Fault

/-- The message for a cause. -/
def message : Fault → String
  | exhausted => "No such element: iterator is exhausted"
  | readOnlyView => "Unsupported operation: remove through a filtered edge view"
  | blockNotFound id => "Block not found: " ++ id.renderFull
  | foreignBlock id graph =>
      "Block " ++ id.renderFull ++ " does not belong to graph " ++ graph.render
  | duplicateLabel label => "Label '" ++ label.name ++ "' is already bound to a block"
  | renameConflict source target holder =>
      "Rename conflict: '" ++ source ++ "' would map to '" ++ target ++ "', already taken by '"
        ++ holder ++ "'"
  | instructionNotFound block => "Instruction not found in block " ++ block.renderFull
  | invalidTransform obstacle => "Invalid transformation: " ++ obstacle.reason
  | policy error => "Configuration error: " ++ error.message

/-- A fault of the caller's use of a view, rather than of the graph. -/
def isUsage : Fault → Bool
  | exhausted => true
  | readOnlyView => true
  | _ => false

end Fault

end FlowIR
