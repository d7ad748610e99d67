import FlowIR.Instr

/-!
# Basic blocks

A block is a labelled sequence of instructions with the id that its graph gave it.  A block taken
out of its graph keeps that id, which then resolves nowhere.  The operations here change only the
block's own sequence and its liveness; what involves other blocks belongs to the graph.
-/

namespace FlowIR

/-- The number of a graph. -/
abbrev GraphId := Nat

/-- A graph is shown as `cfg#number`. -/
def GraphId.render (graph : GraphId) : String :=
  "cfg#" ++ toString graph

/-- The identity of a block: the graph that allocated it and its index there. -/
structure BlockId where
  graph : GraphId
  index : Nat
deriving DecidableEq

namespace BlockId

/-- A block is shown by its index alone. -/
def render (id : BlockId) : String :=
  toString id.index

/-- The full form of a block id, with its graph. -/
def renderFull (id : BlockId) : String :=
  "BlockId \x7b graph: CfgId(" ++ toString id.graph ++ "), index: " ++ toString id.index ++ " \x7d"

end BlockId

/-- Where the instruction at which a sequence is cut ends up. -/
inductive Placement where
  /-- It becomes the first instruction of the tail. -/
  | opensTail
  /-- It stays behind as the last instruction of the head. -/
  | closesHead
deriving DecidableEq

/-! ## Cutting a sequence -/

/-- Cut a sequence at the first instruction equal to `point`; there is no cut when it is absent. -/
def cut (point : Instr) (placement : Placement) : List Instr → Option (List Instr × List Instr)
  | [] => none
  | instr :: rest =>
      if instr = point then
        match placement with
        | .opensTail => some ([], instr :: rest)
        | .closesHead => some ([instr], rest)
      else
        (cut point placement rest).map fun halves => (instr :: halves.1, halves.2)

/-- The two halves of a cut make up the whole sequence. -/
theorem append_of_cut {point : Instr} {placement : Placement} {instrs head tail : List Instr}
    (cutEq : cut point placement instrs = some (head, tail)) : head ++ tail = instrs := by
  induction instrs generalizing head tail with
  | nil => simp [cut] at cutEq
  | cons instr rest ih =>
      simp only [cut] at cutEq
      split at cutEq
      · cases placement <;> simp at cutEq <;> obtain ⟨rfl, rfl⟩ := cutEq <;> rfl
      · cases inner : cut point placement rest with
        | none => simp [inner] at cutEq
        | some halves =>
            simp only [inner, Option.map_some, Option.some.injEq, Prod.mk.injEq] at cutEq
            obtain ⟨rfl, rfl⟩ := cutEq
            simp [ih inner]

/-- A cut exists exactly when the instruction occurs. -/
theorem isSome_cut_iff {point : Instr} {placement : Placement} {instrs : List Instr} :
    (cut point placement instrs).isSome ↔ point ∈ instrs := by
  induction instrs with
  | nil => simp [cut]
  | cons instr rest ih =>
      simp only [cut, List.mem_cons]
      split
      next same =>
        subst same
        cases placement <;> simp
      next different =>
        rw [Option.isSome_map, ih]
        simp [Ne.symm different]

/-- The halves of a sequence that is cut at `point`, which stands between `pre` and `post`. -/
def Placement.halves (pre : List Instr) (point : Instr) (post : List Instr) :
    Placement → List Instr × List Instr
  | opensTail => (pre, point :: post)
  | closesHead => (pre ++ [point], post)

/-- A sequence is cut at the first occurrence. -/
theorem cut_eq_halves {point : Instr} {pre : List Instr} (first : point ∉ pre) (post : List Instr)
    (placement : Placement) :
    cut point placement (pre ++ point :: post) = some (placement.halves pre point post) := by
  induction pre with
  | nil => cases placement <;> simp [cut, Placement.halves]
  | cons instr rest ih =>
      rw [List.mem_cons, not_or] at first
      simp only [List.cons_append, cut, if_neg (Ne.symm first.1), ih first.2, Option.map_some]
      cases placement <;> rfl

/-! ## Blocks -/

/-- A labelled sequence of instructions. -/
structure Block where
  id : BlockId
  label : Label
  instrs : List Instr := []
  live : Bool := true
deriving DecidableEq

namespace Block

/-- Add an instruction at the end. -/
def append (block : Block) (instr : Instr) : Block :=
  { block with instrs := block.instrs ++ [instr] }

/-- Add an instruction in front. -/
def insertFirst (block : Block) (instr : Instr) : Block :=
  { block with instrs := instr :: block.instrs }

/-- Drop the first instruction equal to the given one, if there is one. -/
def erase (block : Block) (instr : Instr) : Block :=
  { block with instrs := block.instrs.erase instr }

/-- The block holds an instruction equal to the given one. -/
def holds (block : Block) (instr : Instr) : Bool :=
  block.instrs.contains instr

/-- The last instruction. -/
def last? (block : Block) : Option Instr :=
  block.instrs.getLast?

/-- Set the liveness of a block. -/
def mark (block : Block) (live : Bool) : Block :=
  { block with live := live }

/-- Put another sequence of instructions into a block. -/
def withInstrs (block : Block) (instrs : List Instr) : Block :=
  { block with instrs := instrs }

/-- Cut off the tail that starts at or after `point`.  Without such an instruction nothing is cut
off, which the absent tail tells apart from an empty one. -/
def splitOff (block : Block) (point : Instr) (placement : Placement) :
    Block × Option (List Instr) :=
  match cut point placement block.instrs with
  | some (head, tail) => (block.withInstrs head, some tail)
  | none => (block, none)

/-- Add the instructions of another block at the end. -/
def swallow (block food : Block) : Block :=
  { block with instrs := block.instrs ++ food.instrs }

/-- A block is shown as `BB [index:label]`. -/
def render (block : Block) : String :=
  "BB [" ++ block.id.render ++ ":" ++ block.label.name ++ "]"

/-- A block's heading, then its instructions, each on a line of its own behind a tab. -/
def renderListing (block : Block) : String :=
  block.render ++ "\n" ++ String.join (block.instrs.map fun instr => "\t" ++ instr.render ++ "\n")

@[simp] theorem holds_iff (block : Block) (instr : Instr) :
    block.holds instr = true ↔ instr ∈ block.instrs := by
  simp [holds]

@[simp] theorem mark_id (block : Block) (live : Bool) : (block.mark live).id = block.id :=
  rfl

@[simp] theorem withInstrs_id (block : Block) (instrs : List Instr) :
    (block.withInstrs instrs).id = block.id :=
  rfl

end Block

end FlowIR
