import FlowIR.Proofs.Graph.WellFormed

/-!
# Edits preserve well-formedness

An edit that fails leaves a graph as well formed as one that succeeds.  For the basic edits this is
the condition of the change that they make; the longer ones put basic edits in sequence, so they
keep every invariant that the basic ones keep.
-/

namespace FlowIR.Graph

/-- A change of a block's contents that keeps its id and its label. -/
def KeepsName (change : Block → Block) : Prop :=
  ∀ block, (change block).id = block.id ∧ (change block).label = block.label

theorem keepsName_append (instr : Instr) : KeepsName (·.append instr) :=
  fun _ => ⟨rfl, rfl⟩

theorem keepsName_withInstrs (instrs : List Instr) : KeepsName (·.withInstrs instrs) :=
  fun _ => ⟨rfl, rfl⟩

theorem keepsName_erase (instr : Instr) : KeepsName (·.erase instr) :=
  fun _ => ⟨rfl, rfl⟩

theorem keepsName_swallow (food : Block) : KeepsName (·.swallow food) :=
  fun _ => ⟨rfl, rfl⟩

theorem keepsName_mark (live : Bool) : KeepsName (·.mark live) :=
  fun _ => ⟨rfl, rfl⟩

/-- Cutting off the tail of a block keeps its id and its label. -/
theorem keepsName_splitOff (point : Instr) (placement : Placement) :
    KeepsName fun block => (block.splitOff point placement).1 := by
  intro block
  unfold Block.splitOff
  dsimp only
  split <;> exact ⟨rfl, rfl⟩

/-! ## Basic edits -/

/-- What follows a required block starts from the same graph, which has the block. -/
theorem ensures_require_bind {α : Type} {id : BlockId} {next : Block → Edit α} {g : Graph}
    {post : α → Graph → Prop} {fail : Fault → Graph → Prop}
    (absent : ∀ fault, g.owned id = .error fault → fail fault g)
    (present : ∀ block, g.owned id = .ok block → Ensures (next block) g post fail) :
    Ensures (require id >>= next) g post fail := by
  have required : Ensures (require id) g (fun block after => g.owned id = .ok block ∧ after = g)
      fail := by
    unfold Ensures
    rw [require_apply]
    cases found : g.owned id with
    | ok block => exact ⟨rfl, rfl⟩
    | error fault => exact absent fault found
  apply required.bind
  rintro block after ⟨found, rfl⟩
  exact present block found

/-- Requiring a block changes nothing. -/
theorem require_preserves {inv : Graph → Prop} (id : BlockId) : Preserves inv (require id) := by
  intro g holds
  unfold Ensures
  rw [require_apply]
  cases g.owned id with
  | ok block => exact holds
  | error fault => exact holds

/-- Making a block needs a free label and adds an empty block that carries it. -/
theorem ensures_createBlock (label : Label) (g : Graph) :
    Ensures (createBlock label) g
      (fun id after => g.binds label = false ∧ id = g.freshId ∧
        after = g.register { id := g.freshId, label := label })
      (fun _ after => after = g) := by
  unfold Ensures createBlock
  by_cases bound : g.binds label
  · rw [if_pos bound]
  · rw [if_neg bound]
    exact ⟨Bool.eq_false_iff.mpr bound, rfl, rfl⟩

theorem createBlock_preserves (label : Label) : Preserves WellFormed (createBlock label) := by
  intro g wf
  apply (ensures_createBlock label g).mono
  · rintro _ _ ⟨free, -, rfl⟩
    exact wf.register free
  · rintro _ _ rfl
    exact wf

theorem adoptBlock_preserves (block : Block) : Preserves WellFormed (adoptBlock block) := by
  intro g wf
  unfold Ensures adoptBlock
  by_cases bound : g.binds block.label
  · rw [if_pos bound]
    exact wf
  · rw [if_neg bound]
    exact wf.register (Bool.eq_false_iff.mpr bound)

/-- Editing a block needs its change to keep id and label only on the block that is there. -/
theorem ensures_editBlock {g : Graph} (wf : g.WellFormed) {id : BlockId} {change : Block → Block}
    (keeps : ∀ block, g.owned id = .ok block →
      (change block).id = block.id ∧ (change block).label = block.label) :
    Ensures (editBlock id change) g (fun _ => WellFormed) (fun _ => WellFormed) := by
  unfold Ensures
  rw [editBlock_apply]
  cases found : g.owned id with
  | ok block => exact wf.adjust keeps ⟨block, found⟩
  | error fault => exact wf

theorem editBlock_preserves (id : BlockId) {change : Block → Block} (keeps : KeepsName change) :
    Preserves WellFormed (editBlock id change) :=
  fun _ wf => ensures_editBlock wf fun block _ => keeps block

theorem removeBlock_preserves (id : BlockId) : Preserves WellFormed (removeBlock id) := by
  intro g wf
  unfold Ensures
  rw [removeBlock_apply]
  cases found : g.owned id with
  | ok block => exact wf.without found
  | error fault => exact wf

theorem setEntry_preserves (id : BlockId) : Preserves WellFormed (setEntry id) := by
  intro g wf
  unfold Ensures
  rw [setEntry_apply]
  cases found : g.owned id with
  | ok block => exact wf.withEntry ⟨block, found⟩
  | error fault => exact wf

theorem setExit_preserves (id : BlockId) : Preserves WellFormed (setExit id) := by
  intro g wf
  unfold Ensures
  rw [setExit_apply]
  cases found : g.owned id with
  | ok block => exact wf.withExit ⟨block, found⟩
  | error fault => exact wf

/-! ## Edges -/

theorem hasLink_iff {g : Graph} {link : Link} :
    g.hasLink link = true ↔ link ∈ g.edges.map Edge.link := by
  simp [hasLink]

/-- An edge between blocks of the graph with a link of its own may be added. -/
theorem WellFormed.addEdge {g : Graph} (wf : g.WellFormed) {edge : Edge}
    (source : g.Owns edge.source) (destination : g.Owns edge.destination)
    (unknown : g.hasLink edge.link = false) : { g with edges := g.edges ++ [edge] }.WellFormed := by
  apply wf.withEdges
  · intro other member
    rcases List.mem_append.mp member with old | new
    · exact wf.linked other old
    · obtain rfl := List.mem_singleton.mp new
      exact ⟨source, destination⟩
  · have absent : edge.link ∉ g.edges.map Edge.link := fun member =>
      Bool.eq_false_iff.mp unknown (hasLink_iff.mpr member)
    rw [List.map_append, List.nodup_append]
    refine ⟨wf.links_nodup, List.pairwise_singleton _ _, ?_⟩
    rintro link old other new rfl
    obtain rfl := List.mem_singleton.mp new
    exact absent old

/-- An edge between blocks of the graph whose link is not there yet is added. -/
theorem insertEdge_eq_ok {g : Graph} {edge : Edge} (source : g.Owns edge.source)
    (destination : g.Owns edge.destination) (unknown : g.hasLink edge.link = false) :
    insertEdge edge g = .ok true { g with edges := g.edges ++ [edge] } := by
  rcases source with ⟨_, sourceFound⟩
  rcases destination with ⟨_, destinationFound⟩
  rw [insertEdge_apply, sourceFound, destinationFound]
  simp [unknown]

theorem insertEdge_preserves (edge : Edge) : Preserves WellFormed (insertEdge edge) := by
  intro g wf
  unfold Ensures
  rw [insertEdge_apply]
  cases source : g.owned edge.source with
  | error fault => exact wf
  | ok _ =>
      cases destination : g.owned edge.destination with
      | error fault => exact wf
      | ok _ =>
          by_cases known : g.hasLink edge.link
          · simpa [known] using wf
          · simpa [known] using
              wf.addEdge ⟨_, source⟩ ⟨_, destination⟩ (Bool.eq_false_iff.mpr known)

/-! ## Splitting and pruning -/

theorem split_preserves (id : BlockId) (point : Instr) (label : Label) (placement : Placement) :
    Preserves WellFormed (split id point label placement) := by
  intro g wf
  unfold split
  apply ensures_require_bind (fun _ _ => wf)
  intro block found
  apply ((ensures_createBlock label g).mono (fun _ _ made => made) (fun _ _ same => same ▸ wf)).bind
  rintro tailId after ⟨free, rfl, rfl⟩
  have grown : (g.register { id := g.freshId, label := label }).WellFormed := wf.register free
  -- The head keeps the name only of the block that was cut, which is the one found at `id`.
  have kept : Ensures (editBlock id fun _ => (block.splitOff point placement).1)
      (g.register { id := g.freshId, label := label }) (fun _ => WellFormed)
      (fun _ => WellFormed) := by
    apply ensures_editBlock grown
    intro held heldFound
    rw [owned_register_of_owned _ found] at heldFound
    obtain rfl := Except.ok.inj heldFound
    exact keepsName_splitOff point placement block
  apply kept.bind
  intro _ after afterWf
  apply (editBlock_preserves _ (keepsName_withInstrs _) after afterWf).bind
  intro _ _ lastWf
  exact lastWf

/-- Marking blocks of the graph one after the other keeps the tables in agreement. -/
theorem WellFormed.markAll {g : Graph} (wf : g.WellFormed) {ids : List BlockId} (live : Bool)
    (owns : ∀ id ∈ ids, g.Owns id) :
    (ids.foldl (fun g id => g.adjust id (·.mark live)) g).WellFormed := by
  induction ids generalizing g with
  | nil => exact wf
  | cons id rest ih =>
      apply ih (wf.adjust (fun block _ => keepsName_mark live block) (owns id List.mem_cons_self))
      intro other member
      rw [owns_adjust]
      exact owns other (List.mem_cons_of_mem _ member)

/-- The live blocks are blocks of the graph. -/
theorem WellFormed.owns_of_mem_liveIds {g : Graph} (wf : g.WellFormed) {id : BlockId}
    (member : id ∈ g.liveIds) : g.Owns id := by
  rcases wf.mem_liveIds_iff.mp member with ⟨block, found, -⟩
  exact ⟨block, found⟩

theorem WellFormed.prune {g : Graph} (wf : g.WellFormed) : g.prune.2.WellFormed := by
  unfold Graph.prune
  cases g.entry with
  | none => exact wf
  | some _ =>
      apply wf.markAll
      intro id member
      exact wf.owns_of_mem_liveIds (List.mem_filter.mp member).1

theorem pruned_preserves : Preserves WellFormed pruned :=
  fun _ wf => wf.prune

/-! ## Lasting invariants -/

/-- No basic edit breaks the invariant, whether it ends or fails. -/
structure Lasting (inv : Graph → Prop) : Prop where
  createBlock : ∀ label, Preserves inv (Graph.createBlock label)
  adoptBlock : ∀ block, Preserves inv (Graph.adoptBlock block)
  removeBlock : ∀ id, Preserves inv (Graph.removeBlock id)
  editBlock : ∀ id {change : Block → Block}, KeepsName change →
    Preserves inv (Graph.editBlock id change)
  setEntry : ∀ id, Preserves inv (Graph.setEntry id)
  setExit : ∀ id, Preserves inv (Graph.setExit id)
  insertEdge : ∀ edge, Preserves inv (Graph.insertEdge edge)
  filterEdges : ∀ (g : Graph) (kept : Edge → Bool), inv g →
    inv { g with edges := g.edges.filter kept }
  split : ∀ id point label placement, Preserves inv (Graph.split id point label placement)
  pruned : Preserves inv Graph.pruned

theorem wellFormed_lasting : Lasting WellFormed where
  createBlock := createBlock_preserves
  adoptBlock := adoptBlock_preserves
  removeBlock := removeBlock_preserves
  editBlock := fun id _ keeps => editBlock_preserves id keeps
  setEntry := setEntry_preserves
  setExit := setExit_preserves
  insertEdge := insertEdge_preserves
  filterEdges := fun _ kept wf => wf.filterEdges kept
  split := split_preserves
  pruned := pruned_preserves

namespace Lasting

variable {inv : Graph → Prop} (lasting : Lasting inv)

include lasting

theorem insertEdges (edges : List Edge) : Preserves inv (Graph.insertEdges edges) := by
  induction edges with
  | nil => exact .of_pure 0
  | cons edge rest ih =>
      apply (lasting.insertEdge edge).bind
      intro added
      exact ih.bind fun more => .of_pure _

theorem removeEdge (link : Link) : Preserves inv (Graph.removeEdge link) :=
  fun g holds => lasting.filterEdges g _ holds

theorem removeEdgesBetween (source destination : BlockId) :
    Preserves inv (Graph.removeEdgesBetween source destination) :=
  fun g holds => lasting.filterEdges g _ holds

theorem retarget (source target : BlockId) : Preserves inv (Graph.retarget source target) := by
  apply (require_preserves source).bind
  intro _
  apply (require_preserves target).bind
  intro _ g holds
  apply Ensures.get_bind
  apply Ensures.set_bind
  exact lasting.insertEdges _ _ (lasting.filterEdges g _ holds)

theorem merge (into donor : BlockId) : Preserves inv (Graph.merge into donor) := by
  apply (require_preserves into).bind
  intro _
  apply (require_preserves donor).bind
  intro _
  dsimp only
  split
  · exact .throw_bind _
  apply Preserves.of_get.bind
  intro g
  split
  · exact .throw_bind _
  apply (lasting.removeBlock donor).bind
  intro food
  apply (lasting.editBlock into (keepsName_swallow food)).bind
  intro _
  exact (lasting.insertEdges _).bind fun _ => .of_pure _

end Lasting

/-- The second graph has come of the first one: it has every lasting invariant
that the first one has. -/
def Develops (g later : Graph) : Prop :=
  ∀ inv : Graph → Prop, Lasting inv → inv g → inv later

theorem Develops.refl (g : Graph) : g.Develops g :=
  fun _ _ holds => holds

/-- What comes of a well-formed graph is well formed. -/
theorem Develops.wellFormed {g later : Graph} (develops : g.Develops later) (wf : g.WellFormed) :
    later.WellFormed :=
  develops WellFormed wellFormed_lasting wf

end FlowIR.Graph
