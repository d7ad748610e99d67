import FlowIR.Proofs.Inlining.Provenance

/-!
# Tracking names through a pass

Every step of a pass keeps its tables sound, forgets nothing of them, and puts nothing into the host
but what the pass has made, of names of the body and of what is passed at the site.  The steps are
described one by one; what a step has met stays known, so that descriptions compose.  A failed step
is described as well as one that ends, and nothing is asked of the body.
-/

namespace FlowIR.Inlining

/-- What a pass spans it goes on to span. -/
theorem Pass.Grows.spans {before after : Pass} (grows : before.Grows after) {edge : Edge}
    (spans : before.spans edge = true) : after.spans edge = true := by
  simp only [Pass.spans, Bool.and_eq_true, Option.isSome_iff_exists] at spans ⊢
  exact spans.imp (Exists.imp fun _ found => grows.block _ _ found)
    (Exists.imp fun _ found => grows.block _ _ found)

/-- Every instruction of the block was there when the pass began with `base`, or the pass has made
it. -/
def Pass.AccountsFor (base : Scope) (passed : Operand → Prop) (pass : Pass)
    (block : Block) : Prop :=
  ∀ instr ∈ block.instrs, base.graph.HoldsAt block.id instr ∨ pass.Makes passed instr

/-- Every instruction of the graph was in its block when the pass began with `base`, or the pass has
made it, and all that is attached to an edge was so from the beginning, or the pass has made it. -/
def Pass.Accounts (base : Scope) (passed : Operand → Prop) (pass : Pass) (g : Graph) : Prop :=
  g.Each (pass.AccountsFor base passed) fun operand => base.graph.Attaches operand ∨
    pass.Emits operand

theorem Pass.Grows.accounts {base : Scope} {passed : Operand → Prop} {before after : Pass}
    (grows : before.Grows after) {g : Graph} (accounts : before.Accounts base passed g) :
    after.Accounts base passed g :=
  accounts.mono (fun _ held instr member => (held instr member).imp_right grows.makes)
    fun _ attached => attached.imp_right grows.emits

namespace Pass

variable {base : Scope} {passed : Operand → Prop} {pass : Pass} {block : Block}

/-- There is nothing to account for in an empty block. -/
theorem accountsFor_of_empty (block : Block) (empty : block.instrs = []) :
    pass.AccountsFor base passed block := by
  simp [AccountsFor, empty]

theorem AccountsFor.append (accounts : pass.AccountsFor base passed block) {instr : Instr}
    (made : pass.Makes passed instr) : pass.AccountsFor base passed (block.append instr) := by
  intro other member
  rcases List.mem_append.mp member with old | last
  · exact accounts other old
  · exact .inr (List.mem_singleton.mp last ▸ made)

end Pass

/-- The tables of the pass are sound, and it accounts for all that is in the host. -/
structure Tracked (base : Scope) (setting : Setting) (passed : Operand → Prop)
    (pass : Pass) : Prop where
  named : Named base pass
  setting_eq : pass.setting = setting
  accounts : pass.Accounts base passed pass.graph

/-- Whatever its outcome, the step keeps the pass tracked and forgets nothing; where it ends, `fine`
holds besides. -/
def Tracks {α : Type} (base : Scope) (setting : Setting) (passed : Operand → Prop) (step : Step α)
    (pass : Pass) (fine : α → Pass → Prop) : Prop :=
  Ensures step pass
    (fun value after => (Tracked base setting passed after ∧ pass.Grows after) ∧ fine value after)
    (fun _ after => Tracked base setting passed after ∧ pass.Grows after)

section Rules

variable {α β : Type} {base : Scope} {setting : Setting} {passed : Operand → Prop}
  {pass after : Pass}

namespace Tracks

variable {step : Step α} {next : α → Step β} {fine : α → Pass → Prop} {last : β → Pass → Prop}

theorem of_pure (tracked : Tracked base setting passed pass) {value : α} (holds : fine value pass) :
    Tracks base setting passed (pure value) pass fine :=
  Ensures.of_pure ⟨⟨tracked, .refl pass⟩, holds⟩

theorem of_throw (tracked : Tracked base setting passed pass) (fault : Fault) :
    Tracks base setting passed (throw fault) pass fine :=
  Ensures.of_throw ⟨tracked, .refl pass⟩

/-- One step after the other: what follows is described from wherever the first may end. -/
theorem bind (first : Tracks base setting passed step pass fine)
    (rest : ∀ value middle, Tracked base setting passed middle → pass.Grows middle →
      fine value middle → Tracks base setting passed (next value) middle last) :
    Tracks base setting passed (step >>= next) pass last := by
  apply Ensures.bind first
  rintro value middle ⟨⟨tracked, grows⟩, holds⟩
  apply (rest value middle tracked grows holds).mono
  · exact fun _ _ ⟨⟨ended, more⟩, done⟩ => ⟨⟨ended, grows.trans more⟩, done⟩
  · exact fun _ _ ⟨failed, more⟩ => ⟨failed, grows.trans more⟩

/-- Whatever its outcome, the step leaves a tracked pass. -/
theorem left (tracks : Tracks base setting passed step pass fine) :
    Tracked base setting passed (left step pass) := by
  have kept : Ensures step pass (fun _ after => Tracked base setting passed after)
      (fun _ after => Tracked base setting passed after) :=
    Ensures.mono tracks (fun _ _ done => done.1.1) (fun _ _ failed => failed.1)
  exact kept.left

theorem mono {other : α → Pass → Prop} (tracks : Tracks base setting passed step pass fine)
    (weaker : ∀ value after, Tracked base setting passed after → pass.Grows after →
      fine value after → other value after) :
    Tracks base setting passed step pass other :=
  Ensures.mono tracks
    (fun value after ⟨kept, holds⟩ => ⟨kept, weaker value after kept.1 kept.2 holds⟩)
    (fun _ _ kept => kept)

end Tracks

namespace Tracked

variable (tracked : Tracked base setting passed pass)

include tracked

/-- A change of the tables that forgets nothing keeps the pass tracked. -/
theorem of_grows (named : Named base after) (sameSetting : after.setting = pass.setting)
    (sameGraph : after.graph = pass.graph) (grows : pass.Grows after) :
    Tracked base setting passed after where
  named := named
  setting_eq := sameSetting.trans tracked.setting_eq
  accounts := by
    rw [sameGraph]
    exact grows.accounts tracked.accounts

/-- A step that translates changes nothing but the tables. -/
theorem of_translates {step : Step α} {image : Substitution → Nat → α × Nat}
    (translates : Translates base pass.frame step image) :
    Tracks base setting passed step pass (Translated base pass.frame image pass) := by
  have kept : ∀ after : Pass, Named base after → after.frame = pass.frame → pass.Grows after →
      Tracked base setting passed after := fun after named frameEq =>
    tracked.of_grows named (congrArg Frame.setting frameEq) (congrArg Frame.graph frameEq)
  apply (translates pass tracked.named rfl).mono
  · exact fun _ after done => ⟨⟨kept after done.named done.frame_eq done.grows, done.grows⟩, done⟩
  · exact fun _ after failed => ⟨kept after failed.named failed.frame_eq failed.grows, failed.grows⟩

/-- An edit of the host that adds nothing else and frees no label keeps the pass tracked. -/
theorem onGraph {edit : Graph.Edit α} (accounting : Preserves (pass.Accounts base passed) edit)
    (binding : ∀ label, Preserves (fun g => g.binds label = true) edit) :
    Tracks base setting passed (onGraph edit) pass fun _ _ => True := by
  have kept : ∀ g, pass.Accounts base passed g →
      (∀ label, pass.graph.binds label = true → g.binds label = true) →
      Tracked base setting passed (Pass.graphFocus.set g pass) := by
    intro g accounts bound
    exact ⟨tracked.named.setGraph bound, tracked.setting_eq,
      (grows_setGraph g pass).accounts accounts⟩
  have bound : Ensures edit pass.graph
      (fun _ g => ∀ label, pass.graph.binds label = true → g.binds label = true)
      (fun _ g => ∀ label, pass.graph.binds label = true → g.binds label = true) := by
    unfold Ensures
    cases outcome : edit pass.graph with
    | ok value g => exact fun label held => (binding label pass.graph held).of_ok outcome
    | error fault g => exact fun label held => (binding label pass.graph held).of_error outcome
  apply Ensures.focus
  apply ((accounting pass.graph tracked.accounts).and bound).mono
  · exact fun _ g ⟨accounts, bound⟩ => ⟨⟨kept g accounts bound, grows_setGraph g pass⟩, trivial⟩
  · exact fun _ g ⟨accounts, bound⟩ => ⟨kept g accounts bound, grows_setGraph g pass⟩

end Tracked

end Rules

/-! ## Edits that free no label -/

section Binding

open FlowIR.Graph

variable (label : Label)

theorem createBlock_binding (name : Label) :
    Preserves (fun g => g.binds label = true) (createBlock name) := by
  intro g bound
  apply (ensures_createBlock name g).mono
  · rintro _ _ ⟨-, -, rfl⟩
    exact (binds_register _ label).mpr (.inl bound)
  · rintro _ _ rfl
    exact bound

theorem adoptBlock_binding (block : Block) :
    Preserves (fun g => g.binds label = true) (adoptBlock block) := by
  intro g bound
  unfold Ensures adoptBlock
  by_cases taken : g.binds block.label
  · rw [if_pos taken]
    exact bound
  · rw [if_neg taken]
    exact (binds_register _ label).mpr (.inl bound)

theorem editBlock_binding (id : BlockId) (change : Block → Block) :
    Preserves (fun g => g.binds label = true) (editBlock id change) := by
  intro g bound
  unfold Ensures
  rw [editBlock_apply]
  cases g.owned id with
  | ok block =>
      show (g.adjust id change).binds label = true
      rw [binds, byLabel?_adjust]
      exact bound
  | error fault => exact bound

theorem insertEdge_binding (edge : Edge) :
    Preserves (fun g => g.binds label = true) (insertEdge edge) := by
  intro g bound
  unfold Ensures
  rw [insertEdge_apply]
  cases g.owned edge.source with
  | error fault => exact bound
  | ok _ =>
      cases g.owned edge.destination with
      | error fault => exact bound
      | ok _ =>
          dsimp only
          by_cases known : g.hasLink edge.link
          · rw [if_pos known]
            exact bound
          · rw [if_neg known]
            exact bound

end Binding

/-! ## The steps of a pass -/

section Steps

variable {base : Scope} {setting : Setting} {passed : Operand → Prop} {pass : Pass}
  {clone : Instr → Step (Option Instr)} {rule : Rule} (tracked : Tracked base setting passed pass)

include tracked

namespace Tracked

/-- A block that has been recorded is in the table. -/
theorem recordBlock (source target : BlockId) :
    Tracks base setting passed (recordBlock source target) pass
      fun _ after => after.blocks.target? source = some target := by
  unfold Tracks Ensures Inlining.recordBlock
  cases inserted : pass.blocks.insert BlockId.render BlockId.render source target with
  | error fault => exact ⟨tracked, .refl pass⟩
  | ok blocks =>
      have targets := Renaming.target?_of_insert inserted
      have kept : ∀ id held, pass.blocks.target? id = some held →
          blocks.target? id = some held := by
        intro id held found
        rw [targets]
        split
        next here =>
          subst here
          rcases Renaming.insert_eq_ok_iff.mp inserted with ⟨known, -⟩ | ⟨absent, -⟩
          · exact known.symm.trans found
          · rw [absent] at found
            contradiction
        next => exact found
      have grows : pass.Grows { pass with blocks := blocks } :=
        ⟨kept, fun _ _ found => found, fun _ _ found => found⟩
      exact ⟨⟨tracked.of_grows (tracked.named.of_same_names rfl rfl rfl rfl) rfl rfl grows, grows⟩,
        (targets source).trans (if_pos rfl)⟩

theorem logSite (block : BlockId) (instr : Instr) :
    Tracks base setting passed (logSite block instr) pass fun _ _ => True := by
  apply Ensures.of_modify
  refine ⟨?_, trivial⟩
  split
  · have grows : pass.Grows { pass with sites := pass.sites ++ [(block, instr)] } :=
      .of_tables rfl rfl rfl
    exact ⟨tracked.of_grows (tracked.named.of_same_names rfl rfl rfl rfl) rfl rfl grows, grows⟩
  · exact ⟨tracked, .refl pass⟩

/-- What is kept of an instruction is what the pass has made. -/
theorem cloneInstr (implements : Implements base setting clone rule) (draws : rule.Draws passed)
    (instr : Instr) :
    Tracks base setting passed (clone instr) pass fun cloned after =>
      ∀ image, cloned = some image → after.Makes passed image := by
  apply (tracked.of_translates (implements pass.frame tracked.setting_eq instr)).mono
  rintro cloned after - - done image rfl
  have becomes : ∀ σ, after.Agrees σ → Becomes passed σ instr image :=
    fun σ agrees => draws σ _ instr image (Prod.mk.inj (done.image_eq σ agrees)).1.symm
  constructor
  · apply Pass.emits_of_agrees
    intro σ agrees operand member
    rcases (becomes σ agrees).drawn operand member with allowed | literal | ⟨source, -, same⟩
    · exact .inl allowed
    · exact .inr (.inl literal)
    · exact .inr (.inr ⟨source, same⟩)
  · intro label target
    apply Pass.emits_of_image
    intro σ agrees
    rcases (becomes σ agrees).exists_label target with ⟨source, same⟩
    exact ⟨.label source, congrArg Operand.label same⟩

theorem cloneAll (implements : Implements base setting clone rule) (draws : rule.Draws passed)
    (instrs : List Instr) :
    Tracks base setting passed (cloneAll clone instrs) pass fun cloned after =>
      ∀ image ∈ cloned, after.Makes passed image := by
  induction instrs generalizing pass with
  | nil => exact .of_pure tracked (by simp)
  | cons instr rest ih =>
      apply (tracked.cloneInstr implements draws instr).bind
      intro cloned middle middleTracked _ first
      apply (ih middleTracked).bind
      intro others after afterTracked grows later
      apply Tracks.of_pure afterTracked
      intro image member
      rcases List.mem_append.mp member with here | there
      · exact grows.makes (first image (Option.mem_toList.mp here))
      · exact later image there

/-- Adding instructions that the pass has made keeps the pass tracked. -/
theorem editBlock {id : BlockId} {change : Block → Block}
    (kept : ∀ block, pass.AccountsFor base passed block →
      pass.AccountsFor base passed (change block)) :
    Tracks base setting passed (Inlining.onGraph (Graph.editBlock id change)) pass
      fun _ _ => True :=
  tracked.onGraph (Graph.editBlock_each id kept) fun label => editBlock_binding label id change

theorem cloneInto (implements : Implements base setting clone rule) (draws : rule.Draws passed)
    (target : BlockId) (log : Bool) (instrs : List Instr) :
    Tracks base setting passed (cloneInto target clone log instrs) pass fun _ _ => True := by
  induction instrs generalizing pass with
  | nil => exact .of_pure tracked trivial
  | cons instr rest ih =>
      apply (tracked.cloneInstr implements draws instr).bind
      intro cloned middle middleTracked _ made
      cases cloned with
      | none => exact ih middleTracked
      | some image =>
          have added : ∀ {next : Pass}, Tracked base setting passed next → middle.Grows next →
              Tracks base setting passed (do
                Inlining.onGraph (Graph.editBlock target (·.append image))
                Inlining.cloneInto target clone log rest) next fun _ _ => True := by
            intro next nextTracked grows
            apply (nextTracked.editBlock fun _ accounts =>
              accounts.append (grows.makes (made image rfl))).bind
            intro _ after afterTracked _ _
            exact ih afterTracked
          dsimp only
          split
          · apply (middleTracked.logSite target image).bind
            intro _ next nextTracked grows _
            exact added nextTracked grows
          · exact added middleTracked (.refl middle)

/-! ### Placing blocks -/

/-- The block that stands for a source is made, if it is not there yet. -/
theorem blockFor (source : Block) :
    Tracks base setting passed (blockFor source) pass fun _ _ => True := by
  apply Ensures.get_bind
  cases pass.blocks.target? source.id with
  | some target => exact Tracks.of_pure tracked trivial
  | none =>
      apply (tracked.of_translates (translates_renameLabel source.label)).bind
      intro label middle middleTracked _ _
      apply (middleTracked.onGraph (Graph.createBlock_each Pass.accountsFor_of_empty label)
        fun other => createBlock_binding other label).bind
      intro target placed placedTracked _ _
      apply (placedTracked.recordBlock source.id target).bind
      intro _ after afterTracked _ _
      exact .of_pure afterTracked trivial

/-- Cloning a block, in whichever way. -/
theorem cloneBlock (implements : Implements base setting clone rule) (draws : rule.Draws passed)
    (log : Bool) (source : Block) :
    Tracks base setting passed (do
      let target ← Inlining.blockFor source
      Inlining.cloneInto target clone log source.instrs
      return target) pass fun _ _ => True := by
  apply (tracked.blockFor source).bind
  intro target middle middleTracked _ _
  apply (middleTracked.cloneInto implements draws target log source.instrs).bind
  intro _ after afterTracked _ _
  exact .of_pure afterTracked trivial

/-! ### Moving blocks -/

theorem renameVariable (v : Variable) :
    Tracks base setting passed (renameVariable v) pass fun _ after => after.Knows v := by
  apply (tracked.of_translates (translates_renameVariable v)).mono
  intro target after _ _ done
  exact Pass.knows_of_agrees fun σ agrees => (Prod.mk.inj (done.image_eq σ agrees)).1.symm

theorem renameVariable? (v : Option Variable) :
    Tracks base setting passed (renameVariable? v) pass
      fun _ after => ∀ w, v = some w → after.Knows w := by
  cases v with
  | none => exact .of_pure tracked nofun
  | some v =>
      apply (tracked.renameVariable v).bind
      intro target after afterTracked _ known
      apply Tracks.of_pure afterTracked
      rintro _ ⟨⟩
      exact known

theorem renameMentioned (operands : List Operand) :
    Tracks base setting passed (renameMentioned operands) pass
      fun _ after => ∀ v, .var v ∈ operands → after.Knows v := by
  induction operands generalizing pass with
  | nil => exact .of_pure tracked nofun
  | cons operand rest ih =>
      cases operand with
      | var v =>
          apply (tracked.renameVariable v).bind
          intro target middle middleTracked _ known
          apply (ih middleTracked).mono
          intro _ after _ grows others w member
          rcases List.mem_cons.mp member with same | later
          · exact Operand.var.inj same ▸ grows.knows known
          · exact others w later
      | label label =>
          apply (ih tracked).mono
          intro _ after _ _ others w member
          exact others w (by simpa using member)
      | lit literal =>
          apply (ih tracked).mono
          intro _ after _ _ others w member
          exact others w (by simpa using member)

/-- Renaming ahead meets every variable that the instructions mention. -/
theorem renameAhead (instrs : List Instr) :
    Tracks base setting passed (renameAhead instrs) pass
      fun _ after => ∀ instr ∈ instrs, ∀ v, .var v ∈ instr.mentions → after.Knows v := by
  induction instrs generalizing pass with
  | nil => exact .of_pure tracked (by simp)
  | cons instr rest ih =>
      apply (tracked.renameMentioned instr.operands).bind
      intro _ middle middleTracked _ read
      apply (middleTracked.renameVariable? instr.result?).bind
      intro _ next nextTracked grows written
      apply (ih nextTracked).mono
      intro _ after _ more others other member v mentioned
      rcases List.mem_cons.mp member with rfl | later
      · rcases List.mem_append.mp mentioned with operand | result
        · exact more.knows (grows.knows (read v operand))
        · rcases Option.map_eq_some_iff.mp (Option.mem_toList.mp result) with ⟨w, resultEq, same⟩
          exact more.knows (written v (Operand.var.inj same ▸ resultEq))
      · exact others other later v mentioned

/-- Moving a block records what it has become and meets every variable that it mentions. -/
theorem migrate {yielded : YieldBinding} (bound : setting.yielded = some yielded)
    (draws : yielded.rule.Draws passed) (source : Block) :
    Tracks base setting passed (migrate source) pass fun _ after =>
      (∃ target, after.blocks.target? source.id = some target) ∧
        ∀ v, .var v ∈ source.mentions → after.Knows v := by
  apply (tracked.of_translates (translates_renameLabel source.label)).bind
  intro label labelled labelledTracked _ _
  apply (labelledTracked.onGraph (Graph.adoptBlock_each fun _ => Pass.accountsFor_of_empty _ rfl)
    fun other => adoptBlock_binding other _).bind
  intro target adopted adoptedTracked _ _
  apply (adoptedTracked.recordBlock source.id target).bind
  intro _ recorded recordedTracked _ known
  apply (recordedTracked.renameAhead source.instrs).bind
  intro _ ahead aheadTracked aheadGrows met
  apply (aheadTracked.cloneAll (cloneForYield_implements bound) draws source.instrs).bind
  intro instrs cloned clonedTracked clonedGrows made
  apply (clonedTracked.editBlock fun _ _ instr member => .inr (made instr member)).bind
  intro _ after afterTracked grows _
  apply Tracks.of_pure afterTracked
  refine ⟨⟨target, grows.block _ _ (clonedGrows.block _ _ (aheadGrows.block _ _ known))⟩, ?_⟩
  intro v mentioned
  rcases List.mem_flatMap.mp mentioned with ⟨instr, member, here⟩
  exact grows.knows (clonedGrows.knows (met instr member v here))

/-! ### Bodies -/

/-- What carrying over each block has met is met when all blocks have been carried over. -/
theorem carryBlocks {carry : Block → Step BlockId} {met : Block → Pass → Prop} (blocks : List Block)
    (stable : ∀ block before after, before.Grows after → met block before → met block after)
    (each : ∀ block pass, Tracked base setting passed pass →
      Tracks base setting passed (carry block) pass fun _ after => met block after) :
    Tracks base setting passed (carryBlocks carry blocks) pass
      fun _ after => ∀ block ∈ blocks, met block after := by
  induction blocks generalizing pass with
  | nil => exact .of_pure tracked (by simp)
  | cons block rest ih =>
      apply (each block pass tracked).bind
      intro target middle middleTracked _ here
      apply (ih middleTracked).bind
      intro targets after afterTracked grows others
      apply Tracks.of_pure afterTracked
      intro other member
      rcases List.mem_cons.mp member with rfl | later
      · exact stable other middle after grows here
      · exact others other later

/-- What is attached to an edge becomes something that the pass has made. -/
theorem renameOperand? (data : Option Operand) :
    Tracks base setting passed (renameOperand? data) pass fun renamed after =>
      (∀ operand, renamed = some operand → after.Emits operand) ∧
        ∀ v, data = some (.var v) → after.Knows v := by
  apply (tracked.of_translates (translates_renameOperand? data)).mono
  intro renamed after _ _ done
  have imageEq : ∀ σ, after.Agrees σ → renamed = data.map σ.operand :=
    fun σ agrees => (Prod.mk.inj (done.image_eq σ agrees)).1
  constructor
  · rintro operand rfl
    apply Pass.emits_of_image
    intro σ agrees
    rcases Option.map_eq_some_iff.mp (imageEq σ agrees).symm with ⟨source, -, same⟩
    exact ⟨source, same.symm⟩
  · rintro v rfl
    have always : ∀ σ, after.Agrees σ → σ.var v = after.substitution.var v := by
      intro σ agrees
      have same := (imageEq σ agrees).symm.trans (imageEq _ after.agrees_substitution)
      exact Operand.var.inj (Option.some.inj same)
    exact Pass.knows_of_agrees always

/-- Carrying edges over meets the variables that are attached to those that the pass spans. -/
theorem copyEdges (edges : List Edge) :
    Tracks base setting passed (copyEdges edges) pass fun _ after => ∀ edge ∈ edges,
      pass.spans edge = true → ∀ v, edge.data = some (.var v) → after.Knows v := by
  induction edges generalizing pass with
  | nil => exact .of_pure tracked (by simp)
  | cons edge rest ih =>
      have skipped : pass.spans edge = false →
          Tracks base setting passed (Inlining.copyEdges rest) pass
          fun _ after => ∀ other ∈ edge :: rest, pass.spans other = true →
            ∀ v, other.data = some (.var v) → after.Knows v := by
        intro apart
        apply (ih tracked).mono
        intro _ after _ _ others other member spans
        rcases List.mem_cons.mp member with rfl | later
        · rw [apart] at spans
          contradiction
        · exact others other later spans
      apply Ensures.get_bind
      cases sourceEq : pass.blocks.target? edge.source with
      | none => exact skipped (by simp [Pass.spans, sourceEq])
      | some source =>
          cases destinationEq : pass.blocks.target? edge.destination with
          | none => exact skipped (by simp [Pass.spans, destinationEq])
          | some destination =>
              apply (tracked.renameOperand? edge.data).bind
              rintro data middle middleTracked grows ⟨emitted, met⟩
              have added : Tracks base setting passed
                  (Inlining.onGraph (Graph.insertEdge ⟨source, destination, edge.kind, data⟩))
                  middle fun _ _ => True :=
                middleTracked.onGraph
                  (Graph.insertEdge_each fun operand attached => .inr (emitted operand attached))
                  fun label => insertEdge_binding label _
              apply added.bind
              intro _ next nextTracked more _
              apply (ih nextTracked).mono
              intro _ after _ last others other member spans v attached
              rcases List.mem_cons.mp member with rfl | later
              · exact last.knows (more.knows (met v attached))
              · exact others other later ((grows.trans more).spans spans) v attached

theorem carried (id : BlockId) : Tracks base setting passed (carried id) pass fun _ _ => True := by
  apply Ensures.get_bind
  cases pass.blocks.target? id with
  | some target => exact Tracks.of_pure tracked trivial
  | none => exact Tracks.of_throw tracked _

end Tracked

end Steps

/-! ## Bodies -/

section Bodies

variable {base : Scope} {setting : Setting} {passed : Operand → Prop} {pass : Pass} {body : Graph}
  {entry exit : BlockId}

/-- Laying a body meets what carrying its blocks over meets, and the variables that are attached to
the edges between these blocks. -/
theorem Tracks.layInside {lay : Step (List BlockId)} {met : Pass → Prop}
    (stable : ∀ before after, before.Grows after → met before → met after)
    (laying : Tracks base setting passed lay pass fun _ after => met after) :
    Tracks base setting passed (layInside lay body) pass fun _ after => met after ∧
      ∃ middle, met middle ∧ ∀ edge ∈ body.edges, middle.spans edge = true →
        ∀ v, edge.data = some (.var v) → after.Knows v := by
  apply laying.bind
  intro blocks middle middleTracked _ laid
  apply (middleTracked.copyEdges body.edges).bind
  intro _ after afterTracked grows edges
  exact Tracks.of_pure afterTracked ⟨stable middle after grows laid, middle, laid, edges⟩

/-- Looking up the ends of a body that was laid forgets nothing of what was met. -/
theorem Tracks.layBody {lay : Step (List BlockId)} {met : Pass → Prop}
    (stable : ∀ before after, before.Grows after → met before → met after)
    (laying : Tracks base setting passed (Inlining.layInside lay body) pass
      fun _ after => met after) :
    Tracks base setting passed (layBody lay body entry exit) pass fun _ after => met after := by
  rw [layBody_eq]
  apply laying.bind
  intro blocks laid laidTracked _ known
  apply (laidTracked.carried entry).bind
  intro entryBlock entered enteredTracked enteredGrows _
  apply (enteredTracked.carried exit).bind
  intro exitBlock after afterTracked grows _
  exact Tracks.of_pure afterTracked (stable laid after (enteredGrows.trans grows) known)

/-- Cloning the live blocks of a body, in whichever way. -/
theorem Tracked.cloneBlocks (tracked : Tracked base setting passed pass)
    {clone : Instr → Step (Option Instr)} {rule : Rule}
    (implements : Implements base setting clone rule) (draws : rule.Draws passed) (log : Bool)
    (blocks : List Block) :
    Tracks base setting passed (Inlining.carryBlocks (fun source => do
      let target ← Inlining.blockFor source
      Inlining.cloneInto target clone log source.instrs
      return target) blocks) pass fun _ _ => True := by
  have carrying := tracked.carryBlocks blocks (fun _ _ _ _ _ => trivial)
    fun block _ here => here.cloneBlock implements draws log block
  exact carrying.mono fun _ _ _ _ _ => trivial

/-- All that the live blocks of a body and the edges between them refer to. -/
def liveMentions (body : Graph) : List Operand :=
  body.liveBlocks.flatMap Block.mentions ++ (liveEdges body).filterMap (·.data)

/-- Moving a closure meets every variable in its live part. -/
theorem Tracked.migrateBody (tracked : Tracked base setting passed pass) {yielded : YieldBinding}
    (bound : setting.yielded = some yielded) (draws : yielded.rule.Draws passed) :
    Tracks base setting passed
      (Inlining.layInside (Inlining.carryBlocks Inlining.migrate body.liveBlocks) body) pass
      fun _ after => ∀ v, .var v ∈ liveMentions body → after.Knows v := by
  let met (block : Block) (pass : Pass) : Prop :=
    (∃ target, pass.blocks.target? block.id = some target) ∧
      ∀ v, .var v ∈ block.mentions → pass.Knows v
  have stable : ∀ block before after, Pass.Grows before after → met block before →
      met block after := by
    rintro block before after grows ⟨⟨target, found⟩, known⟩
    exact ⟨⟨target, grows.block _ _ found⟩, fun v mentioned => grows.knows (known v mentioned)⟩
  have laying := tracked.carryBlocks body.liveBlocks stable
    fun block _ here => here.migrate bound draws block
  apply (Tracks.layInside (fun before after grows laid block member =>
    stable block before after grows (laid block member)) laying).mono
  rintro _ after - - ⟨blocksMet, middle, placed, edgesMet⟩ v mentioned
  rcases List.mem_append.mp mentioned with inBlock | onEdge
  · rcases List.mem_flatMap.mp inBlock with ⟨block, member, here⟩
    exact (blocksMet block member).2 v here
  · rcases List.mem_filterMap.mp onEdge with ⟨edge, member, attached⟩
    rcases List.mem_filter.mp member with ⟨held, live⟩
    have ends := of_decide_eq_true live
    have known : ∀ id ∈ body.liveIds, (middle.blocks.target? id).isSome = true := by
      intro id liveId
      rcases List.mem_map.mp liveId with ⟨block, blockMember, rfl⟩
      rcases (placed block blockMember).1 with ⟨target, found⟩
      rw [found]
      rfl
    have spans : middle.spans edge = true := by
      rw [Pass.spans, known _ ends.1, known _ ends.2]
      rfl
    exact edgesMet edge held spans v attached

/-- A pass starts with nothing made. -/
theorem tracked_start {start : Host → Pass} {host : Host} (starts : Starts start setting)
    (wf : host.scope.graph.WellFormed) : Tracked host.scope setting passed (start host) where
  named := named_start host (starts.host_eq host) (starts.vars_eq host) (starts.labels_eq host)
  setting_eq := starts.setting_eq host
  accounts := by
    rw [Pass.graph, starts.host_eq]
    constructor
    · intro block held instr member
      exact .inl ⟨block, wf.mem_blocks_iff.mp held, member⟩
    · exact fun edge held operand attached => .inl ⟨edge, held, attached⟩

end Bodies

end FlowIR.Inlining
