import FlowIR.Inlining.Cloning

/-!
# Carrying one block over

A block is carried into the host by cloning its instructions into the host block that stands for
it, or by moving the block itself.  Cloning leaves the source untouched; moving consumes it.
-/

namespace FlowIR.Inlining

/-- Clone instructions one after the other and add what is kept to a host block, logging yields
when `log` asks for it. -/
def cloneInto (target : BlockId) (clone : Instr → Step (Option Instr)) (log : Bool) :
    List Instr → Step Unit
  | [] => return ()
  | instr :: rest => do
      match ← clone instr with
      | some cloned =>
          if log && cloned.isYield then
            logSite target cloned
          onGraph (Graph.editBlock target (·.append cloned))
      | none => pure ()
      cloneInto target clone log rest

/-- Clone a block of a method that takes the place of a call. -/
def cloneBlockForCall (source : Block) : Step BlockId := do
  let target ← blockFor source
  cloneInto target cloneForCall true source.instrs
  return target

/-- Clone a block of a closure that is copied. -/
def cloneBlockForCopy (source : Block) : Step BlockId := do
  let target ← blockFor source
  cloneInto target cloneForCopy false source.instrs
  return target

/-- Rename every variable in a list of operands. -/
def renameMentioned : List Operand → Step Unit
  | [] => return ()
  | .var v :: rest => do
      let _ ← renameVariable v
      renameMentioned rest
  | _ :: rest => renameMentioned rest

/-- Rename every variable that the instructions mention, so that a conflict shows before any of
them is carried over. -/
def renameAhead : List Instr → Step Unit
  | [] => return ()
  | instr :: rest => do
      renameMentioned instr.operands
      let _ ← renameVariable? instr.result?
      renameAhead rest

/-- Clone instructions one after the other and keep what is not dropped. -/
def cloneAll (clone : Instr → Step (Option Instr)) : List Instr → Step (List Instr)
  | [] => return []
  | instr :: rest => do
      let cloned ← clone instr
      return cloned.toList ++ (← cloneAll clone rest)

/-- Move a block of a closure that takes the place of a yield.  It gets an id and a label of the
host, and its instructions in terms of the host. -/
def migrate (source : Block) : Step BlockId := do
  let label ← renameLabel source.label
  let target ← onGraph (Graph.adoptBlock { source with label := label, instrs := [] })
  recordBlock source.id target
  renameAhead source.instrs
  let instrs ← cloneAll cloneForYield source.instrs
  onGraph (Graph.editBlock target (·.withInstrs instrs))
  return target

end FlowIR.Inlining
