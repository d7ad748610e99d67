import FlowIR.Inlining.Transplant
import FlowIR.Policy.Basic

/-!
# Splicing a body into a host

The three transformations of whole graphs.  Inlining a method or a closure cuts the host block at
the site, puts the body between the two halves and links both ends; cloning a closure lays a copy
of its body into another scope.  A request is refused or skipped before the host is touched; what
goes wrong later leaves the host as far as it was changed by then.
-/

namespace FlowIR.Inlining

/-- A step on a host. -/
abbrev HostStep (α : Type) := EStateM Fault Host α

/-- Why a body is too large to be inlined. -/
inductive Excess where
  | blocks (count limit : Nat)
  | instrs (count limit : Nat)
deriving DecidableEq

/-- The wording of an excess. -/
def Excess.message : Excess → String
  | blocks count limit =>
      toString count ++ " live blocks exceed the limit of " ++ toString limit
  | instrs count limit =>
      toString count ++ " instructions exceed the limit of " ++ toString limit

/-- Where an inlined body landed in the host. -/
structure Report where
  /-- The block with the instructions that followed the site. -/
  continuation : BlockId
  /-- What the entry of the body has become. -/
  entry : BlockId
  /-- What the exit of the body has become. -/
  exit : BlockId
  /-- What the live blocks of the body have become, in the order of the body. -/
  blocks : List BlockId
  /-- The yields of the body, each with the block that holds it. -/
  yieldSites : List (BlockId × Instr)
  /-- The number of blocks marked dead at the end. -/
  pruned : Nat
deriving DecidableEq

/-- What has become of a request to inline. -/
inductive Outcome where
  | inlined (report : Report)
  | skipped (excess : Excess)
deriving DecidableEq

/-- Where a copied body landed in the host. -/
structure CloneReport where
  blocks : List BlockId
  entry : Option BlockId
  exit : Option BlockId
  pruned : Nat
deriving DecidableEq

/-! ## What is asked of a body -/

/-- The entry and exit blocks of a body. -/
def boundary (body : Graph) : Except Fault (BlockId × BlockId) :=
  match body.entry, body.exit with
  | none, _ => .error (.invalidTransform (.noEntry body.id))
  | some _, none => .error (.invalidTransform (.noExit body.id))
  | some entry, some exit => .ok (entry, exit)

/-- The limit of the policy that a body exceeds, blocks before instructions. -/
def excess? (policy : Policy) (body : Graph) : Option Excess :=
  if policy.maxBlocks < body.liveBlocks.length then
    some (.blocks body.liveBlocks.length policy.maxBlocks)
  else if policy.maxInstrs < body.liveInstrCount then
    some (.instrs body.liveInstrCount policy.maxInstrs)
  else
    none

/-! ## Steps on the host -/

/-- Run an edit on the graph of a host. -/
def editHost {α : Type} (edit : Graph.Edit α) : HostStep α :=
  Host.graphFocus.run edit

/-- Cut a block in two at the site and drop the site.  The new block, which carries `label`, takes
over the edges that left the block and, if the block was the exit, that role. -/
def openAt (block : BlockId) (site : Instr) (label : Label) : Graph.Edit BlockId := do
  let continuation ← Graph.split block site label .opensTail
  Graph.editBlock continuation (·.erase site)
  let _ ← Graph.retarget block continuation
  if (← get).exit = some block then
    Graph.setExit continuation
  return continuation

/-- Open a block at the site, under a fresh label of the host; the block must hold the site. -/
def splitAtSite (block : BlockId) (site : Instr) : HostStep BlockId := do
  let host ← get
  let held ← MonadExcept.ofExcept (host.scope.graph.owned block)
  if !held.holds site then
    throw (.instructionNotFound block)
  let (label, scope) := host.scope.freshLabel
  set { host with scope := scope }
  editHost (openAt block site label)

/-- Lead from the site's block into the body and from the body's exit to the continuation, by a
jump and an edge each. -/
def link (siteBlock entry exit continuation : BlockId) : Graph.Edit Unit := do
  let entryBlock ← Graph.require entry
  Graph.editBlock siteBlock (·.append (.jump entryBlock.label))
  let _ ← Graph.insertEdge ⟨siteBlock, entry, .regular, none⟩
  let continuationBlock ← Graph.require continuation
  Graph.editBlock exit (·.append (.jump continuationBlock.label))
  let _ ← Graph.insertEdge ⟨exit, continuation, .regular, none⟩

/-- Prune the host if the policy says so. -/
def pruneBy (policy : Policy) : Graph.Edit Nat :=
  if policy.prune then Graph.pruned else pure 0

/-! ## Steps of the pass -/

/-- What a boundary block of the body has become; a dead one was left out. -/
def carried (source : BlockId) : Step BlockId := do
  match (← get).blocks.target? source with
  | some target => return target
  | none => throw (.invalidTransform (.deadBoundary source))

/-- Carry over the edges whose two ends were carried over. -/
def copyEdges : List Edge → Step Unit
  | [] => return ()
  | edge :: rest => do
      let pass ← get
      match pass.blocks.target? edge.source, pass.blocks.target? edge.destination with
      | some source, some destination =>
          let data ← renameOperand? edge.data
          let _ ← onGraph (Graph.insertEdge ⟨source, destination, edge.kind, data⟩)
      | _, _ => pure ()
      copyEdges rest

/-- Carry over blocks one after the other. -/
def carryBlocks (carry : Block → Step BlockId) : List Block → Step (List BlockId)
  | [] => return []
  | block :: rest => do
      let target ← carry block
      return target :: (← carryBlocks carry rest)

/-- Take blocks out of a body one after the other and move each into the host.  What is left of the
body is handed back. -/
def migrateBlocks (body : Graph) : List BlockId → Step (List BlockId × Graph)
  | [] => return ([], body)
  | id :: rest =>
      match Graph.removeBlock id body with
      | .ok block left => do
          let target ← migrate block
          let (targets, last) ← migrateBlocks left rest
          return (target :: targets, last)
      | .error fault _ => throw fault

/-! ## The transformations -/

/-- Put a body in the place of a site in a block of the host.  The pass that `start` begins carries
the blocks over by `lay`. -/
def splice (policy : Policy) (start : Host → Pass) (lay : Step (List BlockId)) (body : Graph)
    (block : BlockId) (site : Instr) : HostStep Outcome := do
  let (bodyEntry, bodyExit) ← MonadExcept.ofExcept (boundary body)
  if let some excess := excess? policy body then
    return .skipped excess
  let continuation ← splitAtSite block site
  let ((blocks, entry, exit), pass) ← runPass start do
    let blocks ← lay
    copyEdges body.edges
    let entry ← carried bodyEntry
    let exit ← carried bodyExit
    return (blocks, entry, exit)
  editHost (link block entry exit continuation)
  let pruned ← editHost (pruneBy policy)
  return .inlined
    { continuation := continuation, entry := entry, exit := exit, blocks := blocks
      yieldSites := pass.sites, pruned := pruned }

/-- Put a copy of the body of a method in the place of a call in a block of the host. -/
def inlineMethod (policy : Policy) (callee : Graph) (block : BlockId) (call : Instr) :
    HostStep Outcome := do
  let some binding := CallBinding.of? call
    | throw (.invalidTransform (.notACall call))
  splice policy (Pass.forMethod binding policy.logYields)
    (carryBlocks cloneBlockForCall callee.liveBlocks) callee block call

/-- Put the body of a closure in the place of a yield in a block of the host.  The body is used up.
Yields of the body are not logged. -/
def inlineClosure (policy : Policy) (closure : Graph) (block : BlockId) (yielding : Instr) :
    HostStep Outcome := do
  let some binding := YieldBinding.of? yielding
    | throw (.invalidTransform (.notAYield yielding))
  splice policy (Pass.forClosure binding)
    (do return (← migrateBlocks closure closure.liveIds).1) closure block yielding

/-- Lay a copy of the body of a closure into the host.  The host's entry and exit move to the copy
where the body has live ones. -/
def cloneClosure (policy : Policy) (source : Graph) : HostStep CloneReport := do
  let (blocks, pass) ← runPass Pass.forClone do
    let blocks ← carryBlocks cloneBlockForCopy source.liveBlocks
    copyEdges source.edges
    return blocks
  let entry := source.entry.bind pass.blocks.target?
  let exit := source.exit.bind pass.blocks.target?
  if let some id := entry then
    editHost (Graph.setEntry id)
  if let some id := exit then
    editHost (Graph.setExit id)
  let pruned ← editHost (pruneBy policy)
  return { blocks := blocks, entry := entry, exit := exit, pruned := pruned }

end FlowIR.Inlining
