import FlowIR.Edge
import FlowIR.Interchange.Instr

/-!
# Block ids and edges as JSON

A graph is its number, a block id a record of the graph and the index.  The attachment of an edge
is left out when there is none.
-/

namespace FlowIR

open Json

/-- A graph as its number. -/
def GraphId.encode (graph : GraphId) : Json :=
  nat graph

/-- A graph from its number. -/
def GraphId.decode (json : Json) : Option GraphId :=
  natUpTo? greatest32 json

instance : JsonCodec BlockId where
  encode id := record [("graph", GraphId.encode id.graph), ("index", nat id.index)]
  decode json := do
    let [graph, index] ← members? ["graph", "index"] json | none
    return ⟨← required? GraphId.decode graph, ← required? (natUpTo? greatest32) index⟩

/-- The name under which a kind of edge is exchanged. -/
def EdgeKind.codeName : EdgeKind → String
  | regular => "Regular"
  | fallThrough => "FallThrough"
  | exception => "Exception"
  | exit => "Exit"
  | closureInvocation => "ClosureInvocation"

instance : JsonCodec EdgeKind where
  encode kind := text kind.codeName
  decode := bare? EdgeKind.all EdgeKind.codeName

instance : JsonCodec Edge where
  encode edge :=
    record
      ([("source", JsonCodec.encode edge.source),
        ("destination", JsonCodec.encode edge.destination),
          ("kind", JsonCodec.encode edge.kind)]
        ++ edge.data.toList.map fun data => ("data", JsonCodec.encode data))
  decode json := do
    let [source, destination, kind, data] ←
      members? ["source", "destination", "kind", "data"] json | none
    return ⟨← required? JsonCodec.decode source, ← required? JsonCodec.decode destination,
      ← required? JsonCodec.decode kind, ← maybe? JsonCodec.decode data⟩

end FlowIR
