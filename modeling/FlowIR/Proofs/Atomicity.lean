import FlowIR.Proofs.Graph.Rewire
import FlowIR.Proofs.Session

/-!
# Failing edits

An edit of a graph that fails has changed nothing, and it fails exactly when the graph has a reason
to refuse it.  The longer edits take edges or blocks out before their last steps, which can fail in
general; in a graph whose tables agree they cannot, so nothing is lost half way.
-/

namespace FlowIR

/-! ## What an edit needs -/

/-- The blocks that an edit works on, in the order in which they are looked up. -/
def GraphEdit.blocks : GraphEdit → List BlockId
  | createBlock _ => []
  | adoptBlock _ => []
  | removeBlock id => [id]
  | setEntry id => [id]
  | setExit id => [id]
  | insertEdge edge => [edge.source, edge.destination]
  | removeEdge _ => []
  | removeEdgesBetween _ _ => []
  | retarget source target => [source, target]
  | split id _ _ _ => [id]
  | merge into donor => [into, donor]
  | editBlock id _ => [id]
  | prune => []

/-- The label under which an edit adds a block. -/
def GraphEdit.label? : GraphEdit → Option Label
  | createBlock label => some label
  | adoptBlock block => some block.label
  | split _ _ label _ => some label
  | _ => none

namespace Graph

/-- The graph has a reason to refuse the edit. -/
inductive Refuses (g : Graph) : GraphEdit → Fault → Prop where
  /-- A block that the edit works on was allocated by another graph. -/
  | foreign {edit : GraphEdit} {id : BlockId} (needed : id ∈ edit.blocks)
      (elsewhere : id.graph ≠ g.id) :
      g.Refuses edit (.foreignBlock id g.id)
  /-- A block that the edit works on is not there, or not any more. -/
  | missing {edit : GraphEdit} {id : BlockId} (needed : id ∈ edit.blocks) (here : id.graph = g.id)
      (absent : g.block? id = none) : g.Refuses edit (.blockNotFound id)
  /-- The label of the block to be added is bound. -/
  | taken {edit : GraphEdit} {label : Label} (needed : edit.label? = some label)
      (bound : g.binds label = true) : g.Refuses edit (.duplicateLabel label)
  | selfMerge (id : BlockId) : g.Refuses (.merge id id) (.invalidTransform .selfMerge)
  /-- Some edge leads to the donor from another block than the one that is to swallow it. -/
  | sharedDonor {into donor : BlockId} {edge : Edge} (member : edge ∈ g.edges)
      (enters : edge.destination = donor) (other : edge.source ≠ into) :
      g.Refuses (.merge into donor) (.invalidTransform (.sharedDonor donor into))

/-- The graph has all that the edit needs. -/
structure Accepts (g : Graph) (edit : GraphEdit) : Prop where
  owned : ∀ id ∈ edit.blocks, g.Owns id
  free : ∀ label, edit.label? = some label → g.binds label = false
  mergeable : ∀ into donor, edit = .merge into donor → into ≠ donor ∧ g.SolePredecessor into donor

section Reasons

variable {g : Graph} {edit : GraphEdit}

/-- A block that cannot be looked up is a reason, with the fault of the look-up. -/
theorem Refuses.of_owned_eq_error {id : BlockId} {fault : Fault} (needed : id ∈ edit.blocks)
    (failed : g.owned id = .error fault) : g.Refuses edit fault := by
  unfold owned at failed
  split at failed
  next here =>
    cases absent : g.block? id with
    | some block => simp [absent] at failed
    | none =>
        rw [absent] at failed
        obtain rfl := Except.error.inj failed
        exact .missing needed here absent
  next elsewhere =>
    obtain rfl := Except.error.inj failed
    exact .foreign needed elsewhere

/-- A graph that has all that the edit needs has no reason to refuse it. -/
theorem Accepts.not_refuses (accepts : g.Accepts edit) (fault : Fault) :
    ¬ g.Refuses edit fault := by
  rintro (⟨needed, elsewhere⟩ | ⟨needed, -, absent⟩ | ⟨needed, bound⟩ | id |
    ⟨member, enters, other⟩)
  · exact elsewhere (owns_iff.mp (accepts.owned _ needed)).1
  · have present := (owns_iff.mp (accepts.owned _ needed)).2
    rw [absent] at present
    contradiction
  · rw [accepts.free _ needed] at bound
    contradiction
  · exact (accepts.mergeable id id rfl).1 rfl
  · exact other ((accepts.mergeable _ _ rfl).2 _ member enters)

end Reasons

end Graph

/-! ## Each edit -/

namespace GraphEdit

open FlowIR.Graph

variable {g : Graph}

/-- Begun in the graph, the step fails only where the graph refuses the edit, and has changed
nothing then; it ends only where the graph has all that the edit needs. -/
abbrev Decides {α : Type} (edit : GraphEdit) (step : Edit α) (g : Graph) : Prop :=
  Ensures step g (fun _ _ => g.Accepts edit) (fun fault after => after = g ∧ g.Refuses edit fault)

/-- A look-up of a block that the edit works on may refuse it. -/
theorem decides_require_bind {α : Type} {edit : GraphEdit} {id : BlockId} {next : Block → Edit α}
    (needed : id ∈ edit.blocks)
    (rest : ∀ block, g.owned id = .ok block → edit.Decides (next block) g) :
    edit.Decides (require id >>= next) g :=
  ensures_require_bind (fun _ failed => ⟨rfl, .of_owned_eq_error needed failed⟩) rest

/-- A result that is thrown away decides nothing. -/
theorem decides_forget {α : Type} {edit : GraphEdit} {step : Edit α}
    (decides : edit.Decides step g) :
    edit.Decides (do let _ ← step : Edit Unit) g :=
  decides.bind fun _ _ accepts => Ensures.of_pure accepts

/-- An edit of one block, which adds none, needs that block. -/
theorem accepts_of_block {edit : GraphEdit} {id : BlockId} {block : Block}
    (needed : edit.blocks = [id]) (unlabelled : edit.label? = none)
    (noMerge : ∀ into donor, edit ≠ .merge into donor) (found : g.owned id = .ok block) :
    g.Accepts edit where
  owned := by
    rw [needed]
    exact List.forall_mem_singleton.mpr ⟨block, found⟩
  free := by
    rw [unlabelled]
    exact nofun
  mergeable := fun into donor same => absurd same (noMerge into donor)

theorem decides_createBlock (label : Label) :
    (createBlock label).Decides (Graph.createBlock label) g := by
  unfold Decides Ensures Graph.createBlock
  by_cases bound : g.binds label
  · rw [if_pos bound]
    exact ⟨rfl, .taken rfl bound⟩
  · rw [if_neg bound]
    refine ⟨nofun, ?_, nofun⟩
    rintro _ ⟨⟩
    exact Bool.eq_false_iff.mpr bound

theorem decides_adoptBlock (block : Block) :
    (adoptBlock block).Decides (Graph.adoptBlock block) g := by
  unfold Decides Ensures Graph.adoptBlock
  by_cases bound : g.binds block.label
  · rw [if_pos bound]
    exact ⟨rfl, .taken rfl bound⟩
  · rw [if_neg bound]
    refine ⟨nofun, ?_, nofun⟩
    rintro _ ⟨⟩
    exact Bool.eq_false_iff.mpr bound

theorem decides_removeBlock (id : BlockId) : (removeBlock id).Decides (Graph.removeBlock id) g := by
  apply decides_require_bind List.mem_cons_self
  intro block found
  apply Ensures.modify_bind
  exact Ensures.of_pure (accepts_of_block rfl rfl nofun found)

theorem decides_setEntry (id : BlockId) : (setEntry id).Decides (Graph.setEntry id) g := by
  apply decides_require_bind List.mem_cons_self
  intro block found
  exact Ensures.of_modify (accepts_of_block rfl rfl nofun found)

theorem decides_setExit (id : BlockId) : (setExit id).Decides (Graph.setExit id) g := by
  apply decides_require_bind List.mem_cons_self
  intro block found
  exact Ensures.of_modify (accepts_of_block rfl rfl nofun found)

theorem decides_editBlock (id : BlockId) (edit : BlockEdit) :
    (editBlock id edit).Decides (Graph.editBlock id edit.run) g := by
  apply decides_require_bind List.mem_cons_self
  intro block found
  exact Ensures.of_modify (accepts_of_block rfl rfl nofun found)

theorem decides_insertEdge (edge : Edge) : (insertEdge edge).Decides (Graph.insertEdge edge) g := by
  apply decides_require_bind List.mem_cons_self
  intro source sourceFound
  apply decides_require_bind (List.mem_cons_of_mem _ List.mem_cons_self)
  intro destination destinationFound
  have accepts : g.Accepts (insertEdge edge) :=
    ⟨by simp [blocks, Owns, sourceFound, destinationFound], nofun, nofun⟩
  apply Ensures.get_bind
  split
  · exact Ensures.of_pure accepts
  · exact Ensures.set_bind (Ensures.of_pure accepts)

/-- The edges that were taken out come back without fail. -/
theorem decides_retarget (wf : g.WellFormed) (source target : BlockId) :
    (retarget source target).Decides (Graph.retarget source target) g := by
  apply decides_require_bind List.mem_cons_self
  intro block sourceFound
  apply decides_require_bind (List.mem_cons_of_mem _ List.mem_cons_self)
  intro other targetFound
  apply Ensures.get_bind
  apply Ensures.set_bind
  apply Ensures.of_eq_ok (wf.insertEdges_detached source ⟨other, targetFound⟩)
  exact ⟨by simp [blocks, Owns, sourceFound, targetFound], nofun, nofun⟩

theorem decides_split (wf : g.WellFormed) (id : BlockId) (point : Instr) (label : Label)
    (placement : Placement) :
    (split id point label placement).Decides (Graph.split id point label placement) g := by
  by_cases bound : g.binds label = true
  · apply decides_require_bind List.mem_cons_self
    intro block found
    have failed : Graph.createBlock label g = .error (.duplicateLabel label) g := if_pos bound
    exact Ensures.of_error_bind failed ⟨rfl, .taken rfl bound⟩
  · have free : g.binds label = false := Bool.eq_false_iff.mpr bound
    cases looked : g.owned id with
    | error fault =>
        have failed : Graph.require id g = .error fault g := by rw [require_apply, looked]
        exact Ensures.of_error_bind failed ⟨rfl, .of_owned_eq_error List.mem_cons_self looked⟩
    | ok block =>
        apply Ensures.of_eq_ok (wf.split_eq_ok looked free)
        refine ⟨by simp [blocks, Owns, looked], ?_, nofun⟩
        rintro _ ⟨⟩
        exact free

/-- The edges that a donor hands over are inserted without fail after the donor is gone. -/
theorem decides_merge (wf : g.WellFormed) (into donor : BlockId) :
    (merge into donor).Decides (Graph.merge into donor) g := by
  by_cases accepted : g.Owns into ∧ g.Owns donor ∧ into ≠ donor ∧ g.SolePredecessor into donor
  · rcases accepted with ⟨intoOwned, donorOwned, apart, sole⟩
    have accepts : g.Accepts (merge into donor) := by
      refine ⟨by simp [blocks, intoOwned, donorOwned], nofun, ?_⟩
      rintro _ _ ⟨⟩
      exact ⟨apart, sole⟩
    rcases donorOwned with ⟨food, found⟩
    have inserted := wf.insertEdges_swallowing food intoOwned ⟨food, found⟩ apart
    unfold Decides Ensures
    rw [merge_eq_insertEdges intoOwned found apart sole, bind_of_ok inserted]
    exact accepts
  · -- One of the four checks fails, and nothing has changed before the last of them.
    apply decides_require_bind List.mem_cons_self
    intro held intoFound
    apply decides_require_bind (List.mem_cons_of_mem _ List.mem_cons_self)
    intro food donorFound
    by_cases apart : into = donor
    · subst apart
      rw [if_pos rfl]
      exact Ensures.throw_bind ⟨rfl, .selfMerge into⟩
    · have notSole : ¬ g.SolePredecessor into donor := fun sole =>
        accepted ⟨⟨held, intoFound⟩, ⟨food, donorFound⟩, apart, sole⟩
      obtain ⟨edge, member, enters, other⟩ :
          ∃ edge ∈ g.edges, edge.destination = donor ∧ edge.source ≠ into := by
        simpa only [SolePredecessor, not_forall, exists_prop] using notSole
      rw [if_neg apart]
      apply Ensures.get_bind
      rw [if_pos (any_predecessors_iff.mpr notSole)]
      exact Ensures.throw_bind ⟨rfl, .sharedDonor member enters other⟩

/-- Every edit takes place as a whole or not at all. -/
theorem decides (wf : g.WellFormed) (edit : GraphEdit) : edit.Decides edit.run g := by
  cases edit with
  | createBlock label => exact decides_forget (decides_createBlock label)
  | adoptBlock block => exact decides_forget (decides_adoptBlock block)
  | removeBlock id => exact decides_forget (decides_removeBlock id)
  | setEntry id => exact decides_setEntry id
  | setExit id => exact decides_setExit id
  | insertEdge edge => exact decides_forget (decides_insertEdge edge)
  | removeEdge link => exact Ensures.of_eq_ok rfl ⟨nofun, nofun, nofun⟩
  | removeEdgesBetween source destination => exact Ensures.of_eq_ok rfl ⟨nofun, nofun, nofun⟩
  | retarget source target => exact decides_forget (decides_retarget wf source target)
  | split id point label placement =>
      exact decides_forget (decides_split wf id point label placement)
  | merge into donor => exact decides_merge wf into donor
  | editBlock id edit => exact decides_editBlock id edit
  | prune => exact Ensures.of_eq_ok rfl ⟨nofun, nofun, nofun⟩

end GraphEdit

/-! ## All edits of a graph -/

namespace Graph

/-- Edits of the graph take place as a whole or not at all. -/
structure Atomic (g : Graph) : Prop where
  /-- An edit that fails has had a reason, which its fault names, and has changed nothing. -/
  failed : ∀ (edit : GraphEdit) (fault : Fault) (after : Graph),
    edit.run g = .error fault after → after = g ∧ g.Refuses edit fault
  /-- An edit fails wherever there is a reason. -/
  refused : ∀ (edit : GraphEdit) (fault : Fault), g.Refuses edit fault →
    ∃ first, edit.run g = .error first g
  /-- Once the edges that leave a block are taken out, nothing stops them
  from leaving another one. -/
  retargeted : ∀ source target, g.Owns source → g.Owns target → ∃ count after,
    insertEdges ((g.outgoing source).map (·.leaving target)) (g.detached source) = .ok count after ∧
      retarget source target g = .ok count after
  /-- Once a donor is swallowed, nothing stops the edges that it hands over. -/
  merged : ∀ into donor food, g.Owns into → g.owned donor = .ok food → into ≠ donor →
    g.SolePredecessor into donor → ∃ count after,
      insertEdges (g.handedOver into donor) (g.swallowing into donor food) = .ok count after ∧
        merge into donor g = .ok () after

/-- Edits of a graph whose tables agree take place as a whole or not at all. -/
theorem WellFormed.atomic {g : Graph} (wf : g.WellFormed) : g.Atomic where
  failed edit _ _ outcome := (edit.decides wf).of_error outcome
  refused := by
    intro edit fault refuses
    cases outcome : edit.run g with
    | ok value after =>
        have accepts : g.Accepts edit := (edit.decides wf).of_ok outcome
        exact absurd refuses (accepts.not_refuses fault)
    | error first after =>
        obtain rfl := ((edit.decides wf).of_error outcome).1
        exact ⟨first, rfl⟩
  retargeted := by
    intro source target sourceOwned targetOwned
    have inserted := wf.insertEdges_detached source targetOwned
    exact ⟨_, _, inserted, (retarget_eq_insertEdges sourceOwned targetOwned).trans inserted⟩
  merged := by
    intro into donor food intoOwned found apart sole
    have inserted := wf.insertEdges_swallowing food intoOwned ⟨food, found⟩ apart
    refine ⟨_, _, inserted, ?_⟩
    rw [merge_eq_insertEdges intoOwned found apart sole, bind_of_ok inserted]
    rfl

end Graph

namespace Session

/-- After every run, whichever of its actions failed, each edit of each graph takes place as a
whole or not at all: it fails exactly when a block that it works on is foreign or missing, the
label that it binds is taken, or a block is to be merged into itself or into one of several
predecessors, and the graph is then what it was.  The edges that are moved or handed over are
inserted without fail. -/
theorem atomic_of_held_run {actions : List Action} {name : Nat} {holding : Holding}
    (held : (run actions).held name = some holding) : holding.contents.Atomic := by
  have wf : (run actions).WellFormed := run_induction nofun (fun _ wf => wf.step) actions
  exact (wf name holding held).atomic

/-- Two blocks with an edge to a third one. -/
def joinActions : List Action :=
  [.newGraph 0, .edit 0 (.createBlock ⟨"left"⟩), .edit 0 (.createBlock ⟨"right"⟩),
   .edit 0 (.createBlock ⟨"join"⟩),
   .edit 0 (.insertEdge { source := ⟨1, 0⟩, destination := ⟨1, 2⟩, kind := .regular }),
   .edit 0 (.insertEdge { source := ⟨1, 1⟩, destination := ⟨1, 2⟩, kind := .regular }),
   .edit 0 (.merge ⟨1, 0⟩ ⟨1, 2⟩)]

theorem atomic_of_held_run_sample :
    ∃ g, (run joinActions).held 0 = some (.graph g) ∧ g.Atomic ∧
      Graph.merge ⟨1, 0⟩ ⟨1, 2⟩ g =
        .error (.invalidTransform (.sharedDonor ⟨1, 2⟩ ⟨1, 0⟩)) g := by
  refine ⟨_, rfl, @atomic_of_held_run joinActions 0 _ rfl, ?_⟩
  rfl

end Session

end FlowIR
