import FlowIR.Inlining.Splice

/-!
# The image of a body under a substitution

What carrying a body over is meant to compute, said without a pass: one substitution for the whole
body, and for each kind of transformation a rule for single instructions.  New literals take
consecutive identities in the order in which the body is read, so a rule also hands on the next
free identity.
-/

namespace FlowIR.Inlining

/-- What the blocks, variables and labels of a body become. -/
structure Substitution where
  block : BlockId → BlockId
  var : Variable → Variable
  label : Label → Label

/-- A rule says what becomes of an instruction, if anything, when the next new literal gets the
given identity, and which identity is the next one afterwards. -/
abbrev Rule := Substitution → Nat → Instr → Option Instr × Nat

namespace Substitution

/-- The operand with its names replaced. -/
def operand (σ : Substitution) (operand : Operand) : Operand :=
  operand.mapNames σ.var σ.label

/-- The instruction with its names replaced. -/
def instr (σ : Substitution) (instr : Instr) : Instr :=
  instr.mapNames σ.var σ.label

/-- The edge between what its ends become. -/
def edge (σ : Substitution) (edge : Edge) : Edge :=
  ⟨σ.block edge.source, σ.block edge.destination, edge.kind, edge.data.map σ.operand⟩

end Substitution

/-- The operand, or a new `nil` with the given identity, and the next identity. -/
def supply (nextLiteral : Nat) : Option Operand → Operand × Nat
  | some operand => (operand, nextLiteral)
  | none => (.lit ⟨nextLiteral, .nil⟩, nextLiteral + 1)

/-- A body in the place of a call: receives copy the operands of the call, returns copy to its
result, if it has one. -/
def CallBinding.rule (call : CallBinding) : Rule
  | σ, next, .receiveSelf result => (some (.copy (σ.var result) call.receiver), next)
  | σ, next, .receiveArgument result index =>
      let (source, next) := supply next call.args[index]?
      (some (.copy (σ.var result) source), next)
  | σ, next, .receiveClosure result =>
      let (source, next) := supply next call.closure
      (some (.copy (σ.var result) source), next)
  | σ, next, .methodReturn value =>
      (call.result.map fun result => .copy result (σ.operand value), next)
  | _, next, .nop => (none, next)
  | σ, next, instr => (some (σ.instr instr), next)

/-- A body that is copied: only names change. -/
def copyRule : Rule
  | _, next, .nop => (none, next)
  | σ, next, instr => (some (σ.instr instr), next)

/-- A body in the place of a yield: the first receive of an argument copies that of the yield, any
other one `nil`, and so does a receive of a closure; closure returns copy to the yield's result. -/
def YieldBinding.rule (yielded : YieldBinding) : Rule
  | σ, next, .receiveArgument result index =>
      let (source, next) := supply next (if index = 0 then yielded.arg else none)
      (some (.copy (σ.var result) source), next)
  | σ, next, .closureReturn value =>
      (yielded.result.map fun result => .copy result (σ.operand value), next)
  | σ, next, .receiveClosure result =>
      (some (.copy (σ.var result) (.lit ⟨next, .nil⟩)), next + 1)
  | _, next, .nop => (none, next)
  | σ, next, instr => (some (σ.instr instr), next)

namespace Rule

/-- The images of instructions in order. -/
def instrs (rule : Rule) (σ : Substitution) : Nat → List Instr → List Instr × Nat
  | next, [] => ([], next)
  | next, instr :: rest =>
      let (image, next) := rule σ next instr
      let (images, next) := rule.instrs σ next rest
      (image.toList ++ images, next)

/-- The image of a block keeps its liveness. -/
def block (rule : Rule) (σ : Substitution) (next : Nat) (block : Block) : Block × Nat :=
  let (instrs, next) := rule.instrs σ next block.instrs
  ({ id := σ.block block.id, label := σ.label block.label, instrs := instrs
     live := block.live }, next)

/-- The images of blocks in order. -/
def blocks (rule : Rule) (σ : Substitution) : Nat → List Block → List Block × Nat
  | next, [] => ([], next)
  | next, block :: rest =>
      let (image, next) := rule.block σ next block
      let (images, next) := rule.blocks σ next rest
      (image :: images, next)

variable {rule : Rule} {σ : Substitution}

theorem blocks_cons (next : Nat) (block : Block) (rest : List Block) :
    rule.blocks σ next (block :: rest) =
      ((rule.block σ next block).1 :: (rule.blocks σ (rule.block σ next block).2 rest).1,
        (rule.blocks σ (rule.block σ next block).2 rest).2) :=
  rfl

/-- The image of one more block follows the images of the others. -/
theorem blocks_concat (next : Nat) (blocks : List Block) (last : Block) :
    rule.blocks σ next (blocks ++ [last]) =
      ((rule.blocks σ next blocks).1 ++ [(rule.block σ (rule.blocks σ next blocks).2 last).1],
        (rule.block σ (rule.blocks σ next blocks).2 last).2) := by
  induction blocks generalizing next with
  | nil => rfl
  | cons block rest ih =>
      rw [List.cons_append, blocks_cons, ih, blocks_cons, List.cons_append]

@[simp] theorem length_blocks (next : Nat) (blocks : List Block) :
    (rule.blocks σ next blocks).1.length = blocks.length := by
  induction blocks generalizing next with
  | nil => rfl
  | cons block rest ih => exact congrArg (· + 1) (ih _)

theorem instrs_cons (next : Nat) (instr : Instr) (rest : List Instr) :
    (rule.instrs σ next (instr :: rest)).1 =
      (rule σ next instr).1.toList ++ (rule.instrs σ (rule σ next instr).2 rest).1 :=
  rfl

/-- The image of one more instruction follows the images of the others. -/
theorem exists_instrs_concat (next : Nat) (instrs : List Instr) (last : Instr) :
    ∃ literal, (rule.instrs σ next (instrs ++ [last])).1 =
      (rule.instrs σ next instrs).1 ++ (rule σ literal last).1.toList := by
  induction instrs generalizing next with
  | nil => exact ⟨next, List.append_nil _⟩
  | cons instr rest ih =>
      rcases ih (rule σ next instr).2 with ⟨literal, same⟩
      refine ⟨literal, ?_⟩
      rw [List.cons_append, instrs_cons, same, instrs_cons, List.append_assoc]

/-- What holds of the images of single instructions holds of the images of a sequence. -/
theorem forall_mem_instrs {holds : Instr → Prop} {instrs : List Instr}
    (single : ∀ instr ∈ instrs, ∀ next, ∀ image ∈ (rule σ next instr).1, holds image) (next : Nat) :
    ∀ image ∈ (rule.instrs σ next instrs).1, holds image := by
  induction instrs generalizing next with
  | nil => simp [instrs]
  | cons instr rest ih =>
      intro image member
      rw [instrs_cons] at member
      rcases List.mem_append.mp member with here | later
      · exact single instr List.mem_cons_self next image (Option.mem_toList.mp here)
      · exact ih (fun other listed => single other (List.mem_cons_of_mem _ listed)) _ image later

/-- Every block has an image under its id and its label. -/
theorem exists_getElem?_blocks (next : Nat) {blocks : List Block} {i : Nat} {block : Block}
    (at_i : blocks[i]? = some block) :
    ∃ literal, (rule.blocks σ next blocks).1[i]? = some (rule.block σ literal block).1 := by
  induction blocks generalizing next i with
  | nil => simp at at_i
  | cons first rest ih =>
      rw [blocks_cons]
      cases i with
      | zero =>
          obtain rfl := Option.some.inj at_i
          exact ⟨next, rfl⟩
      | succ i => exact ih _ at_i

/-- Every image is that of a block. -/
theorem exists_source_of_getElem? (next : Nat) {blocks : List Block} {i : Nat} {image : Block}
    (at_i : (rule.blocks σ next blocks).1[i]? = some image) :
    ∃ block literal, blocks[i]? = some block ∧ image = (rule.block σ literal block).1 := by
  rcases List.getElem?_eq_some_iff.mp at_i with ⟨below, -⟩
  rw [length_blocks] at below
  obtain ⟨literal, same⟩ :
      ∃ literal, (rule.blocks σ next blocks).1[i]? = some (rule.block σ literal blocks[i]).1 :=
    exists_getElem?_blocks next (List.getElem?_eq_getElem below)
  rw [at_i] at same
  exact ⟨_, literal, List.getElem?_eq_getElem below, Option.some.inj same⟩

theorem map_id_blocks (next : Nat) (blocks : List Block) :
    (rule.blocks σ next blocks).1.map (·.id) = blocks.map (σ.block ·.id) := by
  induction blocks generalizing next with
  | nil => rfl
  | cons block rest ih => exact congrArg (σ.block block.id :: ·) (ih _)

theorem map_label_blocks (next : Nat) (blocks : List Block) :
    (rule.blocks σ next blocks).1.map (·.label) = blocks.map (σ.label ·.label) := by
  induction blocks generalizing next with
  | nil => rfl
  | cons block rest ih => exact congrArg (σ.label block.label :: ·) (ih _)

end Rule

/-- What becomes of a block that is copied. -/
def Substitution.copied (σ : Substitution) (block : Block) : Block :=
  { id := σ.block block.id, label := σ.label block.label
    instrs := (block.instrs.filter (· ≠ .nop)).map σ.instr, live := block.live }

theorem copyRule_instrs (σ : Substitution) (next : Nat) (instrs : List Instr) :
    copyRule.instrs σ next instrs = ((instrs.filter (· ≠ .nop)).map σ.instr, next) := by
  induction instrs with
  | nil => rfl
  | cons instr rest ih => cases instr <;> simp [Rule.instrs, copyRule, ih]

/-- Copying blocks takes no new literals. -/
theorem copyRule_blocks (σ : Substitution) (next : Nat) (blocks : List Block) :
    copyRule.blocks σ next blocks = (blocks.map σ.copied, next) := by
  induction blocks with
  | nil => rfl
  | cons block rest ih =>
      rw [Rule.blocks_cons]
      simp [Rule.block, copyRule_instrs, ih, Substitution.copied]

/-- The edges of a body between live blocks. -/
def liveEdges (body : Graph) : List Edge :=
  body.edges.filter fun edge => edge.source ∈ body.liveIds ∧ edge.destination ∈ body.liveIds

/-- The images of the edges of a body between its live blocks. -/
def edgeImages (σ : Substitution) (body : Graph) : List Edge :=
  (liveEdges body).map σ.edge

end FlowIR.Inlining
