import FlowIR.Edge.Cursor
import FlowIR.Focus
import FlowIR.Table

/-!
# Control flow graphs

A graph owns an arena of blocks, kept under their indices in the order of these, and a list of edges
in the order of their insertion.  Indices come from one counter that only grows, so an id is never
given out twice.  An index of labels says which block carries a label, so a label names at most one
block; a link names at most one edge.

An `Edit` is a step on a graph that may fail.  It hands back the graph also when it fails, with
whatever was changed by then; that the edits of this module change nothing before they fail is a
theorem about them, not a property of the type.
-/

namespace FlowIR

/-- A control flow graph. -/
structure Graph where
  id : GraphId
  /-- The index that the next block gets. -/
  nextIndex : Nat := 0
  /-- The blocks under their indices, in the order of the indices. -/
  arena : List (Nat × Block) := []
  /-- The labels that blocks carry, each with the id of its block. -/
  labels : List (Label × BlockId) := []
  /-- The edges, in the order of their insertion. -/
  edges : List Edge := []
  entry : Option BlockId := none
  exit : Option BlockId := none
deriving DecidableEq

namespace Graph

/-- A step on a graph that may fail and then leaves what it has done so far. -/
abbrev Edit (α : Type) := EStateM Fault Graph α

/-! ## Looking up blocks -/

/-- The blocks, in the order of their ids. -/
def blocks (g : Graph) : List Block :=
  g.arena.map (·.2)

/-- The block that the arena holds at the index of an id, whichever graph allocated the id. -/
def block? (g : Graph) (id : BlockId) : Option Block :=
  Table.find? g.arena id.index

/-- The block of that id, or why there is none: it was allocated elsewhere, or it is gone. -/
def owned (g : Graph) (id : BlockId) : Except Fault Block :=
  if id.graph = g.id then
    match g.block? id with
    | some block => .ok block
    | none => .error (.blockNotFound id)
  else
    .error (.foreignBlock id g.id)

theorem owned_eq_ok_iff {g : Graph} {id : BlockId} {block : Block} :
    g.owned id = .ok block ↔ id.graph = g.id ∧ g.block? id = some block := by
  unfold owned
  split
  next here => cases g.block? id <;> simp [here]
  next elsewhere => simp [elsewhere]

/-- The graph has a block of that id. -/
def contains (g : Graph) (id : BlockId) : Bool :=
  (g.owned id).toOption.isSome

/-- The id of the block that carries a label. -/
def byLabel? (g : Graph) (label : Label) : Option BlockId :=
  Table.find? g.labels label

/-- Some block carries the label. -/
def binds (g : Graph) (label : Label) : Bool :=
  (g.byLabel? label).isSome

/-- The live blocks, in the order of their ids. -/
def liveBlocks (g : Graph) : List Block :=
  g.blocks.filter (·.live)

/-- The ids of the live blocks, in order. -/
def liveIds (g : Graph) : List BlockId :=
  g.liveBlocks.map (·.id)

/-- The number of instructions in live blocks. -/
def liveInstrCount (g : Graph) : Nat :=
  (g.liveBlocks.flatMap (·.instrs)).length

/-- The id that the next block gets. -/
def freshId (g : Graph) : BlockId :=
  ⟨g.id, g.nextIndex⟩

/-! ## Editing blocks -/

/-- Fail unless the graph has the block. -/
def require (id : BlockId) : Edit Block := fun g =>
  match g.owned id with
  | .ok block => .ok block g
  | .error fault => .error fault g

@[simp] theorem require_apply (id : BlockId) (g : Graph) :
    require id g =
      match g.owned id with
      | .ok block => .ok block g
      | .error fault => .error fault g :=
  rfl

/-- Replace the block of that id by what `change` makes of it. -/
def adjust (g : Graph) (id : BlockId) (change : Block → Block) : Graph :=
  { g with
    arena := g.arena.map fun slot =>
      if slot.1 = id.index then (slot.1, change slot.2) else slot }

/-- Add a block under the next index, which is greater than all before it, and bind its label. -/
def register (g : Graph) (block : Block) : Graph :=
  { g with
    nextIndex := g.nextIndex + 1
    arena := g.arena ++ [(g.nextIndex, { block with id := g.freshId })]
    labels := g.labels ++ [(block.label, g.freshId)] }

/-- The graph without the block of that id, which carried `label`, and without the edges and roles
that the block had. -/
def without (g : Graph) (id : BlockId) (label : Label) : Graph :=
  { g with
    arena := g.arena.filter (·.1 ≠ id.index)
    labels := g.labels.filter (·.1 ≠ label)
    edges := g.edges.filter fun edge => !edge.touches id
    entry := g.entry.filter (· ≠ id)
    exit := g.exit.filter (· ≠ id) }

/-- Change the block of that id. -/
def editBlock (id : BlockId) (change : Block → Block) : Edit Unit := do
  let _ ← require id
  modify (·.adjust id change)

theorem editBlock_apply (id : BlockId) (change : Block → Block) (g : Graph) :
    editBlock id change g =
      match g.owned id with
      | .ok _ => .ok () (g.adjust id change)
      | .error fault => .error fault g := by
  cases found : g.owned id <;> simp [editBlock, found]

/-- Make an empty block that carries `label`, which must be free. -/
def createBlock (label : Label) : Edit BlockId := fun g =>
  if g.binds label then
    .error (.duplicateLabel label) g
  else
    .ok g.freshId (g.register { id := g.freshId, label := label })

/-- Take in a block from elsewhere; it keeps its label, which must be free, its instructions and
its liveness, and gets an id of this graph. -/
def adoptBlock (block : Block) : Edit BlockId := fun g =>
  if g.binds block.label then
    .error (.duplicateLabel block.label) g
  else
    .ok g.freshId (g.register block)

/-- Take a block out of the graph. -/
def removeBlock (id : BlockId) : Edit Block := do
  let block ← require id
  modify (·.without id block.label)
  return block

theorem removeBlock_apply (id : BlockId) (g : Graph) :
    removeBlock id g =
      match g.owned id with
      | .ok block => .ok block (g.without id block.label)
      | .error fault => .error fault g := by
  cases found : g.owned id <;> simp [removeBlock, found]

/-- Make a block the entry. -/
def setEntry (id : BlockId) : Edit Unit := do
  let _ ← require id
  modify fun g => { g with entry := some id }

theorem setEntry_apply (id : BlockId) (g : Graph) :
    setEntry id g =
      match g.owned id with
      | .ok _ => .ok () { g with entry := some id }
      | .error fault => .error fault g := by
  cases found : g.owned id <;> simp [setEntry, found]

/-- Make a block the exit. -/
def setExit (id : BlockId) : Edit Unit := do
  let _ ← require id
  modify fun g => { g with exit := some id }

theorem setExit_apply (id : BlockId) (g : Graph) :
    setExit id g =
      match g.owned id with
      | .ok _ => .ok () { g with exit := some id }
      | .error fault => .error fault g := by
  cases found : g.owned id <;> simp [setExit, found]

/-! ## Edges -/

/-- Some edge has that link. -/
def hasLink (g : Graph) (link : Link) : Bool :=
  g.edges.any (·.link = link)

/-- The edges that leave a block. -/
def outgoing (g : Graph) (id : BlockId) : List Edge :=
  g.edges.filter (·.source = id)

/-- The blocks to which edges lead from a block, in the order of the edges. -/
def successors (g : Graph) (id : BlockId) : List BlockId :=
  (g.outgoing id).map (·.destination)

/-- The blocks from which edges lead to a block, in the order of the edges. -/
def predecessors (g : Graph) (id : BlockId) : List BlockId :=
  (g.edges.filter (·.destination = id)).map (·.source)

/-- A view of the edges that leave a block, by kind. -/
def outgoingView (g : Graph) (id : BlockId) (kind : EdgeKind) (negate : Bool) : Edge.Cursor :=
  { kind := kind, negate := negate, rest := g.outgoing id }

/-- A view of all edges, by kind. -/
def edgeView (g : Graph) (kind : EdgeKind) (negate : Bool) : Edge.Cursor :=
  { kind := kind, negate := negate, rest := g.edges }

/-- The blocks to which edges of one kind lead from a block. -/
def successorBlocks (g : Graph) (id : BlockId) (kind : EdgeKind) : List Block :=
  (g.outgoingView id kind false).remaining.filterMap g.block?

/-- Add an edge between blocks of the graph, and tell whether it was added: an edge whose link is
already there is left out. -/
def insertEdge (edge : Edge) : Edit Bool := do
  let _ ← require edge.source
  let _ ← require edge.destination
  let g ← get
  if g.hasLink edge.link then
    return false
  set { g with edges := g.edges ++ [edge] }
  return true

theorem insertEdge_apply (edge : Edge) (g : Graph) :
    insertEdge edge g =
      match g.owned edge.source, g.owned edge.destination with
      | .error fault, _ => .error fault g
      | .ok _, .error fault => .error fault g
      | .ok _, .ok _ =>
          if g.hasLink edge.link then .ok false g
          else .ok true { g with edges := g.edges ++ [edge] } := by
  cases source : g.owned edge.source with
  | error fault => simp [insertEdge, source]
  | ok _ =>
      cases destination : g.owned edge.destination with
      | error fault => simp [insertEdge, source, destination]
      | ok _ =>
          by_cases known : g.hasLink edge.link <;> simp [insertEdge, source, destination, known]

/-- Add edges one after the other, and count those that were added. -/
def insertEdges : List Edge → Edit Nat
  | [] => return 0
  | edge :: rest => do
      let added ← insertEdge edge
      let more ← insertEdges rest
      return if added then more + 1 else more

/-- Drop the edge with that link, and tell whether there was one. -/
def removeEdge (link : Link) : Edit Bool := do
  let g ← get
  set { g with edges := g.edges.filter (·.link ≠ link) }
  return g.hasLink link

/-- Drop every edge from one block to another, and count them. -/
def removeEdgesBetween (source destination : BlockId) : Edit Nat := do
  let g ← get
  let between := fun edge : Edge => edge.source = source ∧ edge.destination = destination
  set { g with edges := g.edges.filter (¬ between ·) }
  return g.edges.countP (between ·)

/-- Let every edge that leaves `source` leave `target` instead, and count those added to `target`:
an edge that `target` already has is dropped. -/
def retarget (source target : BlockId) : Edit Nat := do
  let _ ← require source
  let _ ← require target
  let g ← get
  set { g with edges := g.edges.filter (·.source ≠ source) }
  insertEdges ((g.outgoing source).map (·.leaving target))

end Graph

end FlowIR
