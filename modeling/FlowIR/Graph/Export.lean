import FlowIR.Graph.Basic
import FlowIR.Interchange.Edge

/-!
# A graph as text

The dump lists the live blocks with their instructions.  The JSON export shows every block and
every edge.
-/

namespace FlowIR.Graph

/-- The listings of the live blocks, in the order of their ids. -/
def dump (g : Graph) : String :=
  String.join (g.liveBlocks.map Block.renderListing)

/-- A block in the JSON export: index, label, liveness and the texts of its instructions. -/
def exportBlock (block : Block) : Json :=
  .record
    [("id", .nat block.id.index), ("label", .text block.label.name), ("live", .boolean block.live),
      ("instrs", .array (block.instrs.map fun instr => .text instr.render))]

/-- A graph in the JSON export. -/
def exportJson (g : Graph) : Json :=
  .record
    [("id", GraphId.encode g.id), ("entry", .orNull (g.entry.map JsonCodec.encode)),
      ("exit", .orNull (g.exit.map JsonCodec.encode)),
      ("blocks", .array (g.blocks.map exportBlock)),
      ("edges", .array (g.edges.map JsonCodec.encode))]

/-- The text of the JSON export, indented. -/
def exportText (g : Graph) : String :=
  g.exportJson.pretty

end FlowIR.Graph
