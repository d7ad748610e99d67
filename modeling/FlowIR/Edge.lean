import FlowIR.Block

/-!
# Edges

An edge is an immutable value: two blocks, a kind and an optional attachment.  Its link, the two
blocks and the kind, is what identifies it within a graph.
-/

namespace FlowIR

/-- Why control may pass along an edge. -/
inductive EdgeKind where
  /-- An explicit jump or branch. -/
  | regular
  /-- Fall-through to the next block. -/
  | fallThrough
  /-- To an exception handler. -/
  | exception
  /-- Into the exit block. -/
  | exit
  /-- To the body of an invoked closure. -/
  | closureInvocation
deriving DecidableEq

namespace EdgeKind

/-- The name of a kind. -/
def render : EdgeKind → String
  | regular => "REGULAR"
  | fallThrough => "FALL_THROUGH"
  | exception => "EXCEPTION"
  | exit => "EXIT"
  | closureInvocation => "CLOSURE_INVOCATION"

/-- All kinds. -/
def all : List EdgeKind :=
  [regular, fallThrough, exception, exit, closureInvocation]

theorem mem_all (kind : EdgeKind) : kind ∈ all := by
  cases kind <;> simp [all]

end EdgeKind

/-- What identifies an edge: its two ends and its kind. -/
structure Link where
  source : BlockId
  destination : BlockId
  kind : EdgeKind
deriving DecidableEq

/-- A directed edge with an optional attachment. -/
structure Edge where
  source : BlockId
  destination : BlockId
  kind : EdgeKind
  data : Option Operand := none
deriving DecidableEq

namespace Edge

/-- The link of an edge forgets its attachment. -/
def link (edge : Edge) : Link :=
  ⟨edge.source, edge.destination, edge.kind⟩

/-- The same edge leaving another block. -/
def leaving (edge : Edge) (source : BlockId) : Edge :=
  { edge with source := source }

/-- The edge has the given block as one of its ends. -/
def touches (edge : Edge) (id : BlockId) : Bool :=
  edge.source = id || edge.destination = id

@[simp] theorem link_leaving (edge : Edge) (source : BlockId) :
    (edge.leaving source).link = ⟨source, edge.destination, edge.kind⟩ :=
  rfl

end Edge

end FlowIR
