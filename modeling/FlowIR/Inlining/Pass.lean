import FlowIR.Renaming
import FlowIR.Scope

/-!
# Passes

A pass carries code from one graph into the graph of a host scope.  It remembers what every block,
variable and label of the source has become, so that each is renamed once and every later mention
agrees with the first.  It also holds the operands of the call or yield that the code is put in
place of, and a log of the yields found on the way.

Fresh temporaries and labels come from the host, fresh literals from a counter that the pass
shares with everything else that makes literals.  When a step of a pass fails, what the host has
handed out by then stays handed out.
-/

namespace FlowIR

/-- A scope that receives code, with the counter from which new literals get their identity. -/
structure Host where
  scope : Scope
  nextLiteral : Nat
deriving DecidableEq

namespace Host

/-- The scope of a host. -/
def scopeFocus : Focus Host Scope where
  get := Host.scope
  set scope host := { host with scope := scope }

/-- The graph of a host. -/
def graphFocus : Focus Host Graph :=
  scopeFocus.comp Scope.graphFocus

/-- A new literal `nil`. -/
def freshNil (host : Host) : Operand × Host :=
  let (literal, next) := Literal.fresh .nil host.nextLiteral
  (.lit literal, { host with nextLiteral := next })

end Host

namespace Inlining

/-- What a pass does with a body. -/
inductive Mode where
  /-- A method body takes the place of a call. -/
  | inlineMethod
  /-- A closure body is copied into another closure of the same nesting. -/
  | cloneClosure
  /-- A closure body moves into the scope that yields to it. -/
  | inlineClosure
deriving DecidableEq

/-- The operands of a call, in terms of the host. -/
structure CallBinding where
  receiver : Operand
  args : List Operand
  closure : Option Operand
  result : Option Variable
deriving DecidableEq

/-- The operands of an instruction that is a call. -/
def CallBinding.of? : Instr → Option CallBinding
  | .call result receiver _ args closure => some ⟨receiver, args, closure, result⟩
  | _ => none

/-- The operands of a yield, in terms of the host. -/
structure YieldBinding where
  arg : Option Operand
  result : Option Variable
deriving DecidableEq

/-- The operands of an instruction that is a yield. -/
def YieldBinding.of? : Instr → Option YieldBinding
  | .yield result _ arg => some ⟨arg, result⟩
  | _ => none

/-- The state of a pass. -/
structure Pass where
  host : Host
  mode : Mode
  call : Option CallBinding := none
  yielded : Option YieldBinding := none
  /-- Whether yields are logged. -/
  logging : Bool := true
  blocks : Renaming BlockId BlockId := {}
  vars : Renaming Variable Variable := {}
  labels : Renaming Label Label := {}
  /-- The yields logged so far, each with the host block that holds it. -/
  sites : List (BlockId × Instr) := []
deriving DecidableEq

/-- A step of a pass. -/
abbrev Step (α : Type) := EStateM Fault Pass α

namespace Pass

/-- A pass that puts a method body in the place of a call. -/
def forMethod (call : CallBinding) (logging : Bool) (host : Host) : Pass :=
  { host := host, mode := .inlineMethod, call := some call, logging := logging }

/-- A pass that copies a closure body. -/
def forClone (host : Host) : Pass :=
  { host := host, mode := .cloneClosure }

/-- A pass that puts a closure body in the place of a yield. -/
def forClosure (yielded : YieldBinding) (host : Host) : Pass :=
  { host := host, mode := .inlineClosure, yielded := some yielded }

/-- The host of a pass. -/
def hostFocus : Focus Pass Host where
  get := Pass.host
  set host pass := { pass with host := host }

/-- The host's graph. -/
def graphFocus : Focus Pass Graph :=
  hostFocus.comp Host.graphFocus

end Pass

/-- Run a pass on a host.  The host keeps what the pass did to it, also when the pass fails. -/
def runPass {α : Type} (start : Host → Pass) (step : Step α) : EStateM Fault Host (α × Pass) :=
  fun host =>
    match step (start host) with
    | .ok value pass => .ok (value, pass) pass.host
    | .error fault pass => .error fault pass.host

/-! ## Allocation in the host -/

/-- Run an edit on the host's graph. -/
def onGraph {α : Type} (edit : Graph.Edit α) : Step α :=
  Pass.graphFocus.run edit

/-- Change the host's scope by an allocation that cannot fail. -/
def allocate {α : Type} (take : Scope → α × Scope) : Step α := fun pass =>
  let (value, scope) := take pass.host.scope
  .ok value { pass with host := { pass.host with scope := scope } }

/-- A new literal `nil`. -/
def freshNil : Step Operand := fun pass =>
  let (nil, host) := pass.host.freshNil
  .ok nil { pass with host := host }

/-! ## Renaming -/

/-- Record what a block has become. -/
def recordBlock (source target : BlockId) : Step Unit := fun pass =>
  match pass.blocks.insert BlockId.render BlockId.render source target with
  | .ok blocks => .ok () { pass with blocks := blocks }
  | .error fault => .error fault pass

/-- Record what a variable has become. -/
def recordVariable (source target : Variable) : Step Unit := fun pass =>
  match pass.vars.insert Variable.render Variable.render source target with
  | .ok vars => .ok () { pass with vars := vars }
  | .error fault => .error fault pass

/-- Record what a label has become. -/
def recordLabel (source target : Label) : Step Unit := fun pass =>
  match pass.labels.insert Label.name Label.name source target with
  | .ok labels => .ok () { pass with labels := labels }
  | .error fault => .error fault pass

/-- The host variable for a source variable that has none yet.  A closure's locals move one scope
up, and no further than the host, when it is inlined, and are shared when it is cloned.  In all
other cases the variable gets storage of its own: temporaries of different scopes never denote the
same storage, and a method's locals are not its caller's. -/
def allocateVariable (v : Variable) : Step Variable := do
  let pass ← get
  match pass.mode, v with
  | .inlineClosure, .named place =>
      allocate (·.addressLocal place.name (if 1 < place.depth then place.depth - 1 else 1))
  | .cloneClosure, .named _ => return v
  | _, _ => allocate Scope.freshTemp

/-- What a variable becomes; the first mention decides. -/
def renameVariable (v : Variable) : Step Variable := do
  let pass ← get
  match pass.vars.target? v with
  | some target => return target
  | none =>
      let target ← allocateVariable v
      recordVariable v target
      return target

/-- What a label becomes; the first mention takes a fresh label of the host. -/
def renameLabel (label : Label) : Step Label := do
  let pass ← get
  match pass.labels.target? label with
  | some target => return target
  | none =>
      let target ← allocate Scope.freshLabel
      recordLabel label target
      return target

/-- What an operand becomes; a literal stays the same literal. -/
def renameOperand : Operand → Step Operand
  | .var v => return .var (← renameVariable v)
  | .label label => return .label (← renameLabel label)
  | .lit literal => return .lit literal

/-- The host block for a source block, made empty on the first request. -/
def blockFor (source : Block) : Step BlockId := do
  let pass ← get
  match pass.blocks.target? source.id with
  | some target => return target
  | none =>
      let label ← renameLabel source.label
      let target ← onGraph (Graph.createBlock label)
      recordBlock source.id target
      return target

/-- Log a yield and the host block that holds it, if the pass keeps a log. -/
def logSite (block : BlockId) (instr : Instr) : Step Unit :=
  modify fun pass =>
    if pass.logging then { pass with sites := pass.sites ++ [(block, instr)] } else pass

end Inlining

end FlowIR
