import FlowIR.Proofs.Inlining.Transformations
import FlowIR.Proofs.Inlining.Upkeep

/-!
# Lasting invariants through a pass

A pass is made of few things: it asks its host for names, records what it has named, logs yields,
and edits the graph of the host in a few ways.  An invariant of the pass that survives each of these
survives every step of a pass, whether the step ends or fails.

An invariant of the host that also survives opening, linking, pruning and the handing over of roles
survives each of the three transformations.  An invariant of graphs that lasts is of this kind.
Nothing is asked of the host, of the body or of the tables of the pass.
-/

namespace FlowIR.Inlining

open FlowIR.Graph (Lasting)

variable {α : Type}

/-! ## Invariants of a pass -/

/-- An invariant that survives whatever a pass is made of. -/
structure Enduring (inv : Pass → Prop) : Prop where
  freshNil : Preserves inv freshNil
  addressLocal : ∀ name depth, Preserves inv (allocate (·.addressLocal name depth))
  freshTemp : Preserves inv (allocate Scope.freshTemp)
  renameLabel : ∀ label, Preserves inv (renameLabel label)
  recordBlock : ∀ source target, Preserves inv (recordBlock source target)
  recordVariable : ∀ source target, Preserves inv (recordVariable source target)
  logSite : ∀ block instr, Preserves inv (logSite block instr)
  createBlock : ∀ label, Preserves inv (onGraph (Graph.createBlock label))
  adoptBlock : ∀ block, Preserves inv (onGraph (Graph.adoptBlock block))
  editBlock : ∀ id {change : Block → Block}, Graph.KeepsName change →
    Preserves inv (onGraph (Graph.editBlock id change))
  insertEdge : ∀ edge, Preserves inv (onGraph (Graph.insertEdge edge))

/-- An invariant that survives the naming of a variable as a whole, and whatever
else a pass is made of. -/
structure Durable (inv : Pass → Prop) : Prop where
  renameVariable : ∀ v, Preserves inv (renameVariable v)
  renameLabel : ∀ label, Preserves inv (renameLabel label)
  freshNil : Preserves inv freshNil
  recordBlock : ∀ source target, Preserves inv (recordBlock source target)
  logSite : ∀ block instr, Preserves inv (logSite block instr)
  createBlock : ∀ label, Preserves inv (onGraph (Graph.createBlock label))
  adoptBlock : ∀ block, Preserves inv (onGraph (Graph.adoptBlock block))
  editBlock : ∀ id {change : Block → Block}, Graph.KeepsName change →
    Preserves inv (onGraph (Graph.editBlock id change))
  insertEdge : ∀ edge, Preserves inv (onGraph (Graph.insertEdge edge))

section Steps

variable {inv : Pass → Prop}

/-- What survives the parts of the naming of a variable survives the whole. -/
theorem Enduring.durable (enduring : Enduring inv) : Durable inv where
  renameVariable := by
    intro v
    apply Preserves.of_get.bind
    intro pass
    cases pass.vars.target? v with
    | some target => exact .of_pure _
    | none =>
        have allocated : Preserves inv (allocateVariable v) := by
          apply Preserves.of_get.bind
          intro pass
          split
          · exact enduring.addressLocal _ _
          · exact .of_pure _
          · exact enduring.freshTemp
        apply allocated.bind
        intro target
        exact (enduring.recordVariable v target).bind fun _ => .of_pure _
  renameLabel := enduring.renameLabel
  freshNil := enduring.freshNil
  recordBlock := enduring.recordBlock
  logSite := enduring.logSite
  createBlock := enduring.createBlock
  adoptBlock := enduring.adoptBlock
  editBlock := enduring.editBlock
  insertEdge := enduring.insertEdge

/-! ### Steps that read or repeat -/

theorem keeps_boundCall : Preserves inv boundCall := by
  apply Preserves.of_get.bind
  intro pass
  cases pass.call with
  | some call => exact .of_pure _
  | none => exact .of_throw _

theorem keeps_boundYield : Preserves inv boundYield := by
  apply Preserves.of_get.bind
  intro pass
  cases pass.yielded with
  | some yielded => exact .of_pure _
  | none => exact .of_throw _

theorem keeps_carried (id : BlockId) : Preserves inv (carried id) := by
  apply Preserves.of_get.bind
  intro pass
  cases pass.blocks.target? id with
  | some target => exact .of_pure _
  | none => exact .of_throw _

theorem keeps_carryBlocks {carry : Block → Step BlockId} {blocks : List Block}
    (each : ∀ block ∈ blocks, Preserves inv (carry block)) :
    Preserves inv (carryBlocks carry blocks) := by
  induction blocks with
  | nil => exact .of_pure _
  | cons block rest ih =>
      have others := ih fun other member => each other (List.mem_cons_of_mem _ member)
      exact (each block List.mem_cons_self).bind fun _ => others.bind fun _ => .of_pure _

section Durable

variable (durable : Durable inv)

include durable

/-! ### Steps that name -/

/-- Whichever variables are named. -/
theorem Durable.upholds : Upholds (fun _ => True) inv fun _ => inv where
  renameVariable := fun v _ => durable.renameVariable v
  renameLabel := durable.renameLabel
  freshNil := durable.freshNil

theorem keeps_renameOperand? (operand : Option Operand) : Preserves inv (renameOperand? operand) :=
  durable.upholds.renameOperand? fun _ _ => trivial

theorem keeps_cloneForCall (instr : Instr) : Preserves inv (cloneForCall instr) :=
  durable.upholds.cloneForCall (fun _ _ => trivial) keeps_boundCall

theorem keeps_cloneForCopy (instr : Instr) : Preserves inv (cloneForCopy instr) :=
  durable.upholds.cloneForCopy fun _ _ => trivial

theorem keeps_cloneForYield (instr : Instr) : Preserves inv (cloneForYield instr) :=
  durable.upholds.cloneForYield (fun _ _ => trivial) keeps_boundYield

theorem keeps_renameAhead (instrs : List Instr) : Preserves inv (renameAhead instrs) :=
  durable.upholds.renameAhead fun _ _ _ _ => trivial

/-! ### Steps that edit the graph -/

theorem keeps_blockFor (source : Block) : Preserves inv (blockFor source) := by
  apply Preserves.of_get.bind
  intro pass
  cases pass.blocks.target? source.id with
  | some target => exact .of_pure _
  | none =>
      apply (durable.renameLabel source.label).bind
      intro label
      apply (durable.createBlock label).bind
      intro target
      exact (durable.recordBlock source.id target).bind fun _ => .of_pure _

theorem keeps_cloneInto {clone : Instr → Step (Option Instr)}
    (each : ∀ instr, Preserves inv (clone instr)) (target : BlockId) (log : Bool)
    (instrs : List Instr) :
    Preserves inv (cloneInto target clone log instrs) := by
  induction instrs with
  | nil => exact .of_pure _
  | cons instr rest ih =>
      apply (each instr).bind
      intro cloned
      cases cloned with
      | none => exact ih
      | some image =>
          have added : Preserves inv (do
              onGraph (Graph.editBlock target (·.append image))
              cloneInto target clone log rest) :=
            (durable.editBlock target (Graph.keepsName_append image)).bind fun _ => ih
          dsimp only
          split
          · exact (durable.logSite target image).bind fun _ => added
          · exact added

theorem keeps_cloneBlockForCall (source : Block) : Preserves inv (cloneBlockForCall source) := by
  apply (keeps_blockFor durable source).bind
  intro target
  exact (keeps_cloneInto durable (keeps_cloneForCall durable) target true source.instrs).bind
    fun _ => .of_pure _

theorem keeps_cloneBlockForCopy (source : Block) : Preserves inv (cloneBlockForCopy source) := by
  apply (keeps_blockFor durable source).bind
  intro target
  exact (keeps_cloneInto durable (keeps_cloneForCopy durable) target false source.instrs).bind
    fun _ => .of_pure _

theorem keeps_migrate (source : Block) : Preserves inv (migrate source) := by
  apply (durable.renameLabel source.label).bind
  intro label
  apply (durable.adoptBlock _).bind
  intro target
  apply (durable.recordBlock source.id target).bind
  intro _
  apply (keeps_renameAhead durable source.instrs).bind
  intro _
  apply (Maintains.cloneAll fun instr _ => keeps_cloneForYield durable instr).bind
  intro instrs
  exact (durable.editBlock target (Graph.keepsName_withInstrs instrs)).bind
    fun _ => .of_pure _

theorem keeps_migrateBlocks (body : Graph) (ids : List BlockId) :
    Preserves inv (migrateBlocks body ids) := by
  induction ids generalizing body with
  | nil => exact .of_pure _
  | cons id rest ih =>
      unfold migrateBlocks
      cases Graph.removeBlock id body with
      | ok block left =>
          exact (keeps_migrate durable block).bind fun _ => (ih left).bind fun _ => .of_pure _
      | error fault left => exact .of_throw _

theorem keeps_copyEdges (edges : List Edge) : Preserves inv (copyEdges edges) := by
  induction edges with
  | nil => exact .of_pure _
  | cons edge rest ih =>
      apply Preserves.of_get.bind
      intro pass
      dsimp only
      split
      · apply (keeps_renameOperand? durable edge.data).bind
        intro data
        exact (durable.insertEdge _).bind fun _ => ih
      · exact ih

end Durable

end Steps

/-! ## Invariants of the host -/

section OfHost

variable (kept : Host → Prop)

theorem keeps_recordBlock (source target : BlockId) :
    Preserves (fun pass : Pass => kept pass.host) (recordBlock source target) := by
  intro pass holds
  unfold Ensures recordBlock
  cases pass.blocks.insert BlockId.render BlockId.render source target <;> exact holds

theorem keeps_recordVariable (source target : Variable) :
    Preserves (fun pass : Pass => kept pass.host) (recordVariable source target) := by
  intro pass holds
  unfold Ensures recordVariable
  cases pass.vars.insert Variable.render Variable.render source target <;> exact holds

theorem keeps_recordLabel (source target : Label) :
    Preserves (fun pass : Pass => kept pass.host) (recordLabel source target) := by
  intro pass holds
  unfold Ensures recordLabel
  cases pass.labels.insert Label.name Label.name source target <;> exact holds

theorem keeps_logSite (block : BlockId) (instr : Instr) :
    Preserves (fun pass : Pass => kept pass.host) (logSite block instr) := by
  apply Preserves.of_modify
  intro pass holds
  split <;> exact holds

theorem keeps_renameLabel
    (freshLabel : ∀ host, kept host → kept { host with scope := host.scope.freshLabel.2 })
    (label : Label) :
    Preserves (fun pass : Pass => kept pass.host) (renameLabel label) := by
  apply Preserves.of_get.bind
  intro pass
  cases pass.labels.target? label with
  | some target => exact .of_pure _
  | none =>
      have allocated : Preserves (fun pass : Pass => kept pass.host) (allocate Scope.freshLabel) :=
        fun pass holds => freshLabel pass.host holds
      apply allocated.bind
      intro target
      exact (keeps_recordLabel kept label target).bind fun _ => .of_pure _

end OfHost

section OfGraph

variable {inv : Graph → Prop}

/-- Whatever its outcome, the step of a pass keeps the invariant of the host's graph. -/
abbrev Keeps (inv : Graph → Prop) (step : Step α) : Prop :=
  Preserves (fun pass : Pass => inv pass.host.scope.graph) step

/-- What an edit keeps is kept when a pass runs it on the host's graph. -/
theorem keeps_onGraph {edit : Graph.Edit α} (kept : Preserves inv edit) :
    Keeps inv (onGraph edit) :=
  kept.focus (fun _ holds => holds) fun _ _ _ holds => holds

theorem enduring_graph (lasting : Lasting inv) : Enduring fun pass => inv pass.graph where
  freshNil := fun _ holds => holds
  addressLocal := by
    intro name depth pass holds
    show inv (pass.host.scope.addressLocal name depth).2.graph
    rw [Scope.addressLocal_graph]
    exact holds
  freshTemp := fun _ holds => holds
  renameLabel := keeps_renameLabel (fun host => inv host.scope.graph) fun _ holds => holds
  recordBlock := keeps_recordBlock fun host => inv host.scope.graph
  recordVariable := keeps_recordVariable fun host => inv host.scope.graph
  logSite := keeps_logSite fun host => inv host.scope.graph
  createBlock := fun label => keeps_onGraph (lasting.createBlock label)
  adoptBlock := fun block => keeps_onGraph (lasting.adoptBlock block)
  editBlock := fun id _ keeps => keeps_onGraph (lasting.editBlock id keeps)
  insertEdge := fun edge => keeps_onGraph (lasting.insertEdge edge)

theorem durable_graph (lasting : Lasting inv) : Durable fun pass => inv pass.graph :=
  (enduring_graph lasting).durable

end OfGraph

/-! ## The transformations -/

/-- An invariant of a host that survives whatever a transformation is made of. -/
structure DurableHost (kept : Host → Prop) : Prop where
  pass : Durable fun pass => kept pass.host
  freshLabel : ∀ host, kept host → kept { host with scope := host.scope.freshLabel.2 }
  openAt : ∀ block site label, Preserves kept (editHost (openAt block site label))
  link : ∀ siteBlock entry exit continuation,
    Preserves kept (editHost (link siteBlock entry exit continuation))
  setEntry : ∀ id, Preserves kept (editHost (Graph.setEntry id))
  setExit : ∀ id, Preserves kept (editHost (Graph.setExit id))
  pruneBy : ∀ policy, Preserves kept (editHost (pruneBy policy))

/-- Handing the roles of the host over and pruning it keeps what each of the edits keeps. -/
theorem keeps_takeRoles {kept : Host → Prop} {policy : Policy}
    (entering : ∀ id, Preserves kept (editHost (Graph.setEntry id)))
    (exiting : ∀ id, Preserves kept (editHost (Graph.setExit id)))
    (pruning : Preserves kept (editHost (pruneBy policy))) (entry exit : Option BlockId)
    (report : Nat → CloneReport) :
    Preserves kept (do
      if let some id := entry then
        editHost (Graph.setEntry id)
      if let some id := exit then
        editHost (Graph.setExit id)
      let pruned ← editHost (pruneBy policy)
      return report pruned) := by
  have closing : Preserves kept (do
      let pruned ← editHost (pruneBy policy)
      return report pruned) := pruning.bind fun _ => .of_pure _
  cases entry with
  | none =>
      cases exit with
      | none => exact closing
      | some exit => exact (exiting exit).bind fun _ => closing
  | some entry =>
      apply (entering entry).bind
      intro _
      cases exit with
      | none => exact closing
      | some exit => exact (exiting exit).bind fun _ => closing

section Transformations

variable {kept : Host → Prop}

theorem keeps_ofExcept {value : Except Fault α} :
    Preserves kept (MonadExcept.ofExcept value : HostStep α) := by
  cases value with
  | ok value => exact .of_pure _
  | error fault => exact .of_throw _

/-- What a step of a pass keeps of the host is kept when a pass that begins
with the host runs it. -/
theorem keeps_runPass {start : Host → Pass} {step : Step α}
    (atHost : ∀ host, (start host).host = host)
    (inside : Preserves (fun pass => kept pass.host) step) :
    Preserves kept (runPass start step) := by
  intro host holds
  apply ensures_runPass
  apply inside
  rw [atHost]
  exact holds

namespace DurableHost

variable (durable : DurableHost kept)

include durable

theorem splitAtSite (block : BlockId) (site : Instr) : Preserves kept (splitAtSite block site) := by
  intro host holds
  apply Ensures.get_bind
  apply (keeps_ofExcept host holds).bind
  intro held after afterHolds
  dsimp only
  split
  · exact Ensures.throw_bind afterHolds
  · apply Ensures.set_bind
    exact durable.openAt block site _ _ (durable.freshLabel host holds)

/-- Splicing keeps what laying the body keeps besides. -/
theorem splice (policy : Policy) {start : Host → Pass} {lay : Step (List BlockId)} (body : Graph)
    (block : BlockId) (site : Instr) (atHost : ∀ host, (start host).host = host)
    (laying : Preserves (fun pass => kept pass.host) lay) :
    Preserves kept (splice policy start lay body block site) := by
  apply keeps_ofExcept.bind
  rintro ⟨entry, exit⟩
  dsimp only
  cases excess? policy body with
  | some excess => exact .of_pure _
  | none =>
      have inside : Preserves (fun pass => kept pass.host) (layBody lay body entry exit) :=
        laying.bind fun _ => (keeps_copyEdges durable.pass body.edges).bind fun _ =>
          (keeps_carried entry).bind fun _ => (keeps_carried exit).bind fun _ => .of_pure _
      apply (durable.splitAtSite block site).bind
      intro continuation
      apply (keeps_runPass atHost inside).bind
      rintro ⟨⟨blocks, entryId, exitId⟩, pass⟩
      apply (durable.link block entryId exitId continuation).bind
      intro _
      exact (durable.pruneBy policy).bind fun _ => .of_pure _

theorem inlineMethod (policy : Policy) (callee : Graph) (block : BlockId) (call : Instr) :
    Preserves kept (inlineMethod policy callee block call) := by
  unfold Inlining.inlineMethod
  cases CallBinding.of? call with
  | none => exact .of_throw _
  | some binding =>
      exact durable.splice policy callee block call (fun _ => rfl)
        (keeps_carryBlocks fun source _ => keeps_cloneBlockForCall durable.pass source)

theorem inlineClosure (policy : Policy) (closure : Graph) (block : BlockId) (yielding : Instr) :
    Preserves kept (inlineClosure policy closure block yielding) := by
  unfold Inlining.inlineClosure
  cases YieldBinding.of? yielding with
  | none => exact .of_throw _
  | some binding =>
      exact durable.splice policy closure block yielding (fun _ => rfl)
        ((keeps_migrateBlocks durable.pass closure closure.liveIds).bind fun _ => .of_pure _)

theorem cloneClosure (policy : Policy) (source : Graph) :
    Preserves kept (cloneClosure policy source) := by
  have copying : Preserves (fun pass => kept pass.host) (do
      let blocks ← carryBlocks cloneBlockForCopy source.liveBlocks
      copyEdges source.edges
      return blocks) :=
    (keeps_carryBlocks fun block _ => keeps_cloneBlockForCopy durable.pass block).bind fun _ =>
      (keeps_copyEdges durable.pass source.edges).bind fun _ => .of_pure _
  apply (keeps_runPass (fun _ => rfl) copying).bind
  rintro ⟨blocks, pass⟩
  exact keeps_takeRoles durable.setEntry durable.setExit (durable.pruneBy policy) _ _ _

/-- Whatever becomes of it, a transformation keeps the invariant. -/
theorem leaves (t : Transformation) (policy : Policy) {host : Host} (holds : kept host) :
    kept (t.leaves policy host) := by
  cases t with
  | inlineMethod callee block call =>
      exact (durable.inlineMethod policy callee block call).left holds
  | cloneClosure source => exact (durable.cloneClosure policy source).left holds
  | inlineClosure closure block yielding =>
      exact (durable.inlineClosure policy closure block yielding).left holds

end DurableHost

end Transformations

/-! ### Invariants of the host's graph -/

section OfHostGraph

variable {inv : Graph → Prop}

/-- Whatever its outcome, the step on a host keeps the invariant of its graph. -/
abbrev KeepsHost (inv : Graph → Prop) (step : HostStep α) : Prop :=
  Preserves (fun host : Host => inv host.scope.graph) step

theorem keeps_editHost {edit : Graph.Edit α} (kept : Preserves inv edit) :
    KeepsHost inv (editHost edit) :=
  kept.focus (fun _ holds => holds) fun _ _ _ holds => holds

variable (lasting : Lasting inv)

include lasting

theorem keeps_pruneBy (policy : Policy) : Preserves inv (pruneBy policy) := by
  unfold pruneBy
  split
  · exact lasting.pruned
  · exact .of_pure _

theorem durableHost_graph : DurableHost fun host => inv host.scope.graph where
  pass := durable_graph lasting
  freshLabel := fun _ holds => holds
  openAt := fun block site label => keeps_editHost (openAt_preserves lasting block site label)
  link := fun siteBlock entry exit continuation =>
    keeps_editHost (link_preserves lasting siteBlock entry exit continuation)
  setEntry := fun id => keeps_editHost (lasting.setEntry id)
  setExit := fun id => keeps_editHost (lasting.setExit id)
  pruneBy := fun policy => keeps_editHost (keeps_pruneBy lasting policy)

theorem keeps_splitAtSite (block : BlockId) (site : Instr) :
    KeepsHost inv (splitAtSite block site) :=
  (durableHost_graph lasting).splitAtSite block site

/-- The graph that a transformation leaves has come of the host's. -/
theorem keeps_leaves (t : Transformation) (policy : Policy) {host : Host}
    (holds : inv host.scope.graph) : inv (t.leaves policy host).scope.graph :=
  (durableHost_graph lasting).leaves t policy holds

end OfHostGraph

end FlowIR.Inlining
