import FlowIR.Proofs.Inlining.FirstMention
import FlowIR.Proofs.Inlining.Lasting

/-!
# Passes on their way

A pass begins with empty tables.  From then on it renames variables and labels, records blocks,
logs yields and draws on its host, whose graph may be edited in any way meanwhile.  Each of
these may fail, and the pass go on from what is left.  An instruction, a block or the edges of a
graph are carried over by such steps, so what holds of the passes that arise from them holds
throughout every transformation.

The tables of these passes are sound, whatever the graph of the host has been through: a scope that
has handed out nothing and binds no label is where all of them began.
-/

namespace FlowIR.Inlining

/-! ## How a pass arises -/

/-- A pass that has come from empty tables. -/
inductive Pass.Arises : Pass → Prop where
  | start {pass : Pass} (unused : pass.Unused) : Arises pass
  | renameVariable {pass : Pass} (arises : Arises pass) (v : Variable) :
      Arises (left (Inlining.renameVariable v) pass)
  | renameLabel {pass : Pass} (arises : Arises pass) (label : Label) :
      Arises (left (Inlining.renameLabel label) pass)
  | recordBlock {pass : Pass} (arises : Arises pass) (source target : BlockId) :
      Arises (left (Inlining.recordBlock source target) pass)
  | logSite {pass : Pass} (arises : Arises pass) (block : BlockId) (instr : Instr) :
      Arises (left (Inlining.logSite block instr) pass)
  | addressLocal {pass : Pass} (arises : Arises pass) (name : String) (depth : Nat) :
      Arises (left (allocate (·.addressLocal name depth)) pass)
  | freshTemp {pass : Pass} (arises : Arises pass) : Arises (left (allocate Scope.freshTemp) pass)
  | freshLabel {pass : Pass} (arises : Arises pass) : Arises (left (allocate Scope.freshLabel) pass)
  | freshNil {pass : Pass} (arises : Arises pass) : Arises (left Inlining.freshNil pass)
  | edit {pass : Pass} (arises : Arises pass) {α : Type} (edit : Graph.Edit α) :
      Arises (left (onGraph edit) pass)

/-- All that carrying code over is made of leaves passes that arise. -/
theorem durable_arises : Durable Pass.Arises where
  renameVariable := fun v => .of_left fun _ arises => arises.renameVariable v
  renameLabel := fun label => .of_left fun _ arises => arises.renameLabel label
  freshNil := .of_left fun _ arises => arises.freshNil
  recordBlock := fun source target => .of_left fun _ arises => arises.recordBlock source target
  logSite := fun block instr => .of_left fun _ arises => arises.logSite block instr
  createBlock := fun _ => .of_left fun _ arises => arises.edit _
  adoptBlock := fun _ => .of_left fun _ arises => arises.edit _
  editBlock := fun _ _ _ => .of_left fun _ arises => arises.edit _
  insertEdge := fun _ => .of_left fun _ arises => arises.edit _

/-! ## Their tables -/

/-- A scope that has handed out nothing and binds no label. -/
def nowhere : Scope :=
  .empty "" .method 0

/-- Where nothing was bound at first, the graph has no part in whether the tables are sound. -/
theorem Named.of_same_tables_nowhere {pass after : Pass} (named : Named nowhere pass)
    (mode : after.mode = pass.mode) (vars : after.vars = pass.vars)
    (labels : after.labels = pass.labels)
    (temps : pass.host.scope.nextTemp ≤ after.host.scope.nextTemp)
    (numbers : pass.host.scope.nextLabel ≤ after.host.scope.nextLabel) : Named nowhere after where
  vars_oneToOne := vars ▸ named.vars_oneToOne
  labels_oneToOne := labels ▸ named.labels_oneToOne
  var_target := by
    intro v target found
    rw [vars] at found
    rw [mode]
    rcases named.var_target v target found with settled | ⟨unsettled, n, rfl, above, below⟩
    · exact .inl settled
    · exact .inr ⟨unsettled, n, rfl, above, Nat.lt_of_lt_of_le below temps⟩
  label_target := by
    intro label target found
    rw [labels] at found
    rcases named.label_target label target found with ⟨⟨n, rfl, above, below⟩, free⟩
    exact ⟨⟨n, rfl, above, Nat.lt_of_lt_of_le below numbers⟩, free⟩
  nextTemp_le := Nat.zero_le _
  nextLabel_le := Nat.zero_le _
  binds_of_binds := nofun

/-- A step that translates keeps the tables sound, also where it fails. -/
theorem Translates.preserves_named {α : Type} {base : Scope} {step : Step α}
    {image : Substitution → Nat → α × Nat}
    (translates : ∀ frame, Translates base frame step image) :
    Preserves (Named base) step := by
  intro pass named
  apply (translates pass.frame pass named rfl).mono
  · exact fun _ _ done => done.named
  · exact fun _ _ failed => failed.named

/-- The tables of a pass that arises are sound. -/
theorem Pass.Arises.named {pass : Pass} (arises : pass.Arises) : Named nowhere pass := by
  induction arises with
  | @start pass unused =>
      have tables := named_start pass.host rfl unused.vars_eq unused.labels_eq
      refine ⟨tables.vars_oneToOne, tables.labels_oneToOne, ?_, ?_, Nat.zero_le _, Nat.zero_le _,
        nofun⟩
      · rw [unused.vars_eq]
        exact nofun
      · rw [unused.labels_eq]
        exact nofun
  | renameVariable _ v named =>
      exact (Translates.preserves_named fun _ => translates_renameVariable v).left named
  | renameLabel _ label named =>
      exact (Translates.preserves_named fun _ => translates_renameLabel label).left named
  | @recordBlock pass _ source target named =>
      unfold left Inlining.recordBlock
      cases pass.blocks.insert BlockId.render BlockId.render source target <;>
        exact named.of_same_names rfl rfl rfl rfl
  | @logSite pass _ block instr named =>
      have logged : (left (Inlining.logSite block instr) pass).host = pass.host ∧
          (left (Inlining.logSite block instr) pass).mode = pass.mode ∧
          (left (Inlining.logSite block instr) pass).vars = pass.vars ∧
          (left (Inlining.logSite block instr) pass).labels = pass.labels := by
        unfold left Inlining.logSite
        cases logging : pass.logging <;> simp [logging]
      exact named.of_same_names logged.1 logged.2.1 logged.2.2.1 logged.2.2.2
  | @addressLocal pass _ name depth named =>
      exact named.of_same_tables_nowhere rfl rfl rfl
        (Nat.le_of_eq (Scope.addressLocal_nextTemp pass.host.scope name depth).symm)
        (Nat.le_of_eq (Scope.addressLocal_nextLabel pass.host.scope name depth).symm)
  | freshTemp _ named =>
      exact named.of_same_tables_nowhere rfl rfl rfl (Nat.le_succ _) (Nat.le_refl _)
  | @freshLabel pass _ named =>
      exact named.of_same_tables_nowhere rfl rfl rfl (Nat.le_refl _)
        (Nat.le_succ_of_le pass.host.scope.nextLabel_le_labelNumber)
  | freshNil _ named =>
      exact named.of_same_tables_nowhere rfl rfl rfl (Nat.le_refl _) (Nat.le_refl _)
  | @edit pass _ α edit named =>
      unfold left onGraph Focus.run
      cases edit (Pass.graphFocus.get pass) <;>
        exact named.of_same_tables_nowhere rfl rfl rfl (Nat.le_refl _) (Nat.le_refl _)

/-! ## Ways to carry an instruction over -/

/-- The three ways to carry an instruction over. -/
inductive Way where
  | call
  | copy
  | yield
deriving DecidableEq

namespace Way

/-- The clone of an instruction. -/
def clone : Way → Instr → Step (Option Instr)
  | call => cloneForCall
  | copy => cloneForCopy
  | yield => cloneForYield

/-- The instruction is only renamed: it neither is dropped nor crosses the boundary of a scope that
disappears. -/
def renames : Way → Instr → Bool
  | _, .nop => false
  | call, .receiveSelf _ => false
  | call, .receiveArgument _ _ => false
  | call, .receiveClosure _ => false
  | call, .methodReturn _ => false
  | yield, .receiveArgument _ _ => false
  | yield, .receiveClosure _ => false
  | yield, .closureReturn _ => false
  | _, _ => true

theorem clone_eq_of_renames {way : Way} {instr : Instr} (renames : way.renames instr = true) :
    way.clone instr = do return some (← renameInstr instr) := by
  cases way <;> cases instr <;> first | rfl | contradiction

end Way

end FlowIR.Inlining
