import FlowIR.Graph.Basic

/-!
# Splitting and merging blocks

Splitting moves the tail of a block into a new block and touches no edge; merging appends a block
to its sole predecessor and lets the edges of the merged block leave from there.
-/

namespace FlowIR.Graph

/-- Split a block at the first instruction equal to `point` into itself and a new block that
carries `label`.  Without such an instruction the new block is empty. -/
def split (id : BlockId) (point : Instr) (label : Label) (placement : Placement) :
    Edit BlockId := do
  let block ← require id
  let tailId ← createBlock label
  let (head, tail) := block.splitOff point placement
  editBlock id fun _ => head
  editBlock tailId (·.withInstrs (tail.getD []))
  return tailId

/-- Merge `donor` into `into`, which must be the only block that edges to `donor` leave from.  The
edges from `donor` leave `into` afterwards, those that `into` already has excepted. -/
def merge (into donor : BlockId) : Edit Unit := do
  let _ ← require into
  let _ ← require donor
  if into = donor then
    throw (.invalidTransform .selfMerge)
  let g ← get
  if (g.predecessors donor).any (· ≠ into) then
    throw (.invalidTransform (.sharedDonor donor into))
  let moved := (g.outgoing donor).filter (·.destination ≠ donor)
  let food ← removeBlock donor
  editBlock into (·.swallow food)
  let _ ← insertEdges (moved.map (·.leaving into))

end FlowIR.Graph
