import FlowIR.Proofs.Graph.Grow
import FlowIR.Proofs.Inlining.Cloning

/-!
# Carrying blocks over

A block is carried over by making an empty block for it in the host and filling that with the images
of its instructions.  Whichever of the three ways is taken, the host's graph afterwards is the graph
before with the image of the block added, where the image is that of the substitution known at the
end.  The loop over all blocks therefore has an invariant that speaks of the blocks done so far: the
graph is the one at the start with the images of these blocks added under consecutive ids.
-/

namespace FlowIR.Inlining

/-! ## The graph of a pass -/

section SetGraph

variable (g : Graph) (pass : Pass)

@[simp] theorem graph_setGraph : (Pass.graphFocus.set g pass).graph = g := rfl
@[simp] theorem setting_setGraph : (Pass.graphFocus.set g pass).setting = pass.setting := rfl
@[simp] theorem blocks_setGraph : (Pass.graphFocus.set g pass).blocks = pass.blocks := rfl
@[simp] theorem labels_setGraph : (Pass.graphFocus.set g pass).labels = pass.labels := rfl
@[simp] theorem sites_setGraph : (Pass.graphFocus.set g pass).sites = pass.sites := rfl
@[simp] theorem nextLiteral_setGraph :
    (Pass.graphFocus.set g pass).host.nextLiteral = pass.host.nextLiteral := rfl

theorem grows_setGraph : pass.Grows (Pass.graphFocus.set g pass) :=
  .of_tables rfl rfl rfl

end SetGraph

/-- A graph that binds no label less may be put in. -/
theorem Named.setGraph {base : Scope} {pass : Pass} (named : Named base pass) {g : Graph}
    (kept : ∀ label, pass.graph.binds label = true → g.binds label = true) :
    Named base (Pass.graphFocus.set g pass) where
  vars_oneToOne := named.vars_oneToOne
  labels_oneToOne := named.labels_oneToOne
  var_target := named.var_target
  label_target := named.label_target
  nextTemp_le := named.nextTemp_le
  nextLabel_le := named.nextLabel_le
  binds_of_binds := fun label bound => kept label (named.binds_of_binds label bound)

/-- A change of the block table and of the log leaves the names alone. -/
theorem Named.of_same_names {base : Scope} {pass after : Pass} (named : Named base pass)
    (host : after.host = pass.host) (mode : after.mode = pass.mode) (vars : after.vars = pass.vars)
    (labels : after.labels = pass.labels) : Named base after where
  vars_oneToOne := vars ▸ named.vars_oneToOne
  labels_oneToOne := labels ▸ named.labels_oneToOne
  var_target := by
    rw [vars, mode, host]
    exact named.var_target
  label_target := by
    rw [labels, host]
    exact named.label_target
  nextTemp_le := host ▸ named.nextTemp_le
  nextLabel_le := host ▸ named.nextLabel_le
  binds_of_binds := by
    rw [Pass.graph, host]
    exact named.binds_of_binds

/-- Two locals of an inlined closure would become one.  The graph is well
formed where this shows. -/
def Aborted (setting : Setting) (fault : Fault) (pass : Pass) : Prop :=
  setting.mode = .inlineClosure ∧
    (∃ source target holder, fault = .renameConflict source target holder) ∧ pass.graph.WellFormed

theorem Conflict.aborted {base : Scope} {frame : Frame} {before after : Pass} {fault : Fault}
    (conflict : Conflict base frame before fault after) (wf : frame.graph.WellFormed) :
    Aborted frame.setting fault after := by
  refine ⟨conflict.closure, conflict.fault_eq, ?_⟩
  rw [show after.graph = frame.graph from congrArg Frame.graph conflict.frame_eq]
  exact wf

/-- A step that translates, begun on a well-formed graph, is aborted where it fails. -/
theorem Translates.ensures {base : Scope} {setting : Setting} {α : Type} {step : Step α}
    {pass : Pass} {image : Substitution → Nat → α × Nat}
    (translates : Translates base pass.frame step image) (named : Named base pass)
    (settingEq : pass.setting = setting) (wf : pass.graph.WellFormed) :
    Ensures step pass (Translated base pass.frame image pass) (Aborted setting) := by
  subst settingEq
  apply (translates pass named rfl).mono
  · exact fun _ _ done => done
  · exact fun _ _ failed => failed.aborted wf

/-! ## Filling a block -/

/-- The yields among the instructions of a block, each with the id of the block. -/
def yieldsIn (id : BlockId) (instrs : List Instr) : List (BlockId × Instr) :=
  (instrs.filter (·.isYield)).map fun instr => (id, instr)

theorem yieldsIn_append (id : BlockId) (first second : List Instr) :
    yieldsIn id (first ++ second) = yieldsIn id first ++ yieldsIn id second := by
  simp [yieldsIn]

/-- What filling the last block of the graph with images of `source` has done. -/
structure Filled (base : Scope) (rule : Rule) (log : Bool) (g : Graph) (block : Block)
    (source : List Instr) (before after : Pass) : Prop where
  named : Named base after
  setting_eq : after.setting = before.setting
  blocks_eq : after.blocks = before.blocks
  grows : before.Grows after
  /-- The images stand after the instructions that the block held before. -/
  image : ∀ σ, after.Agrees σ →
    after.graph = g.register
      { block with instrs := block.instrs ++ (rule.instrs σ before.host.nextLiteral source).1 } ∧
    after.host.nextLiteral = (rule.instrs σ before.host.nextLiteral source).2 ∧
    after.sites = before.sites ++
      if log && before.logging then
        yieldsIn g.freshId (rule.instrs σ before.host.nextLiteral source).1
      else []

section Fill

variable {base : Scope} {setting : Setting} {clone : Instr → Step (Option Instr)} {rule : Rule}
  {log : Bool} {g : Graph} {block : Block}

/-- The image of one more instruction stands before the images of the others. -/
theorem Filled.cons {instr : Instr} {rest : List Instr} {value : Option Instr}
    {before middle start after : Pass}
    (others : Filled base rule log g { block with instrs := block.instrs ++ value.toList } rest
      start after)
    (first : Translated base before.frame (fun σ n => rule σ n instr) before value middle)
    (settingEq : start.setting = middle.setting) (blocksEq : start.blocks = middle.blocks)
    (literalEq : start.host.nextLiteral = middle.host.nextLiteral) (grows : middle.Grows start)
    (sitesEq : start.sites = middle.sites ++
      if log && before.logging then yieldsIn g.freshId value.toList else []) :
    Filled base rule log g block (instr :: rest) before after where
  named := others.named
  setting_eq := (others.setting_eq.trans settingEq).trans (congrArg Frame.setting first.frame_eq)
  blocks_eq := (others.blocks_eq.trans blocksEq).trans (congrArg Frame.blocks first.frame_eq)
  grows := (first.grows.trans grows).trans others.grows
  image := by
    intro σ agrees
    rcases others.image σ agrees with ⟨graphEq, nextEq, sitesAfter⟩
    have head := first.image_eq σ ((grows.trans others.grows).agrees agrees)
    rcases Prod.mk.inj head with ⟨valueEq, literal⟩
    have logging : start.logging = before.logging :=
      congrArg Setting.logging (settingEq.trans (congrArg Frame.setting first.frame_eq))
    have sites : middle.sites = before.sites := congrArg Frame.sites first.frame_eq
    rw [literalEq, literal] at graphEq nextEq sitesAfter
    rw [sitesEq, sites, logging, valueEq] at sitesAfter
    rw [valueEq] at graphEq
    refine ⟨?_, nextEq, ?_⟩
    · simpa only [Rule.instrs, List.append_assoc] using graphEq
    · rw [sitesAfter, List.append_assoc]
      simp only [Rule.instrs, yieldsIn_append]
      split <;> rfl

/-- Adding an instruction to the last block of the graph. -/
theorem ensures_append_bind {α : Type} (wf : g.WellFormed) (image : Instr) {next : Unit → Step α}
    {start : Pass} {post : α → Pass → Prop} {fail : Fault → Pass → Prop}
    (graphEq : start.graph = g.register block)
    (rest : Ensures (next ())
      (Pass.graphFocus.set (g.register { block with instrs := block.instrs ++ [image] }) start)
      post fail) :
    Ensures (onGraph (Graph.editBlock g.freshId (·.append image)) >>= next) start post fail := by
  have edited : Graph.editBlock g.freshId (·.append image) (Pass.graphFocus.get start) =
      .ok () (g.register { block with instrs := block.instrs ++ [image] }) := by
    rw [show Pass.graphFocus.get start = g.register block from graphEq]
    exact wf.editBlock_register rfl rfl
  unfold Ensures
  rw [bind_apply, onGraph, Focus.run_eq_ok _ edited]
  exact rest

/-- The pass with an image logged, if it is a yield and both the step and the pass keep a log. -/
def Pass.logged (log : Bool) (id : BlockId) (image : Instr) (pass : Pass) : Pass :=
  { pass with
    sites := pass.sites ++ if log && pass.logging then yieldsIn id [image] else [] }

theorem Pass.logged_of_silent {id : BlockId} {image : Instr} {pass : Pass}
    (silent : (log && image.isYield && pass.logging) = false) :
    pass.logged log id image = pass := by
  have none : (if log && pass.logging then yieldsIn id [image] else []) = [] := by
    cases log <;> cases yields : image.isYield <;> cases logging : pass.logging <;>
      simp_all [yieldsIn]
  rw [Pass.logged, none, List.append_nil]

/-- An image that is kept is logged if it is to be, and then added to the last block. -/
theorem ensures_keep_bind {α : Type} (wf : g.WellFormed) (image : Instr) {next : Unit → Step α}
    {start : Pass} {post : α → Pass → Prop} {fail : Fault → Pass → Prop}
    (graphEq : start.graph = g.register block)
    (rest : Ensures (next ())
      (Pass.graphFocus.set (g.register { block with instrs := block.instrs ++ [image] })
        (start.logged log g.freshId image)) post fail) :
    Ensures
      (if log && image.isYield then do
        logSite g.freshId image
        onGraph (Graph.editBlock g.freshId (·.append image)) >>= next
      else
        onGraph (Graph.editBlock g.freshId (·.append image)) >>= next) start post fail := by
  split
  next logs =>
    apply Ensures.modify_bind
    by_cases logging : start.logging
    · rw [if_pos logging]
      rw [Bool.and_eq_true] at logs
      have loggedEq : start.logged log g.freshId image =
          { start with sites := start.sites ++ [(g.freshId, image)] } := by
        simp [Pass.logged, logging, logs, yieldsIn]
      rw [loggedEq] at rest
      exact ensures_append_bind wf image graphEq rest
    · rw [if_neg logging]
      rw [Pass.logged_of_silent (by simp [logging])] at rest
      exact ensures_append_bind wf image graphEq rest
  next unlogged =>
    rw [Pass.logged_of_silent (by simp [Bool.eq_false_iff.mpr unlogged])] at rest
    exact ensures_append_bind wf image graphEq rest

/-- Cloning instructions into the last block of the graph fills it with their images. -/
theorem ensures_cloneInto (implements : Implements base setting clone rule) (wf : g.WellFormed)
    (log : Bool) (source : List Instr) (free : g.binds block.label = false)
    {pass : Pass} (named : Named base pass) (settingEq : pass.setting = setting)
    (graphEq : pass.graph = g.register block) :
    Ensures (cloneInto g.freshId clone log source) pass
      (fun _ => Filled base rule log g block source pass) (Aborted setting) := by
  induction source generalizing block pass with
  | nil =>
      refine Ensures.of_pure ⟨named, rfl, rfl, .refl pass, fun σ _ => ?_⟩
      simp [Rule.instrs, graphEq, yieldsIn]
  | cons instr rest ih =>
      have wfHere : pass.graph.WellFormed := by
        rw [graphEq]
        exact wf.register free
      unfold cloneInto
      apply ((implements pass.frame settingEq instr).ensures named settingEq wfHere).bind
      intro value middle first
      have middleSetting : middle.setting = setting :=
        (congrArg Frame.setting first.frame_eq).trans settingEq
      have middleGraph : middle.graph = g.register block :=
        (congrArg Frame.graph first.frame_eq).trans graphEq
      cases value with
      | none =>
          apply (ih free first.named middleSetting middleGraph).mono
          · intro _ after others
            have same : { block with instrs := block.instrs ++ [] } = block := by
              rw [List.append_nil]
            rw [← same] at others
            exact others.cons first rfl rfl rfl (.refl middle) (by simp [yieldsIn])
          · exact fun _ _ failed => failed
      | some image =>
          let longer : Block := { block with instrs := block.instrs ++ [image] }
          let logged := middle.logged log g.freshId image
          let grown := Pass.graphFocus.set (g.register longer) logged
          have longerFree : g.binds longer.label = false := free
          have loggedNamed : Named base logged := first.named.of_same_names rfl rfl rfl rfl
          have loggedGraph : logged.graph = g.register block := middleGraph
          have grownNamed : Named base grown := by
            apply loggedNamed.setGraph
            intro label bound
            rw [loggedGraph] at bound
            exact bound
          have others : Ensures (cloneInto g.freshId clone log rest) grown
              (fun _ => Filled base rule log g longer rest grown) (Aborted setting) :=
            ih longerFree grownNamed middleSetting rfl
          have logging : middle.logging = pass.logging :=
            congrArg (·.setting.logging) first.frame_eq
          apply ensures_keep_bind wf image middleGraph
          apply others.mono
          · intro _ after others
            have grows : middle.Grows grown := .of_tables rfl rfl rfl
            have settings : grown.setting = middle.setting := rfl
            have literals : grown.host.nextLiteral = middle.host.nextLiteral := rfl
            exact others.cons first settings rfl literals grows (by rw [← logging]; rfl)
          · exact fun _ _ failed => failed

end Fill

/-! ## Placing a block -/

/-- The pass can carry over `source`: nothing in its tables or in the host stands in the way. -/
structure Ready (base : Scope) (setting : Setting) (source : Block) (pass : Pass) : Prop where
  named : Named base pass
  setting_eq : pass.setting = setting
  wellFormed : pass.graph.WellFormed
  blocks_oneToOne : pass.blocks.OneToOne
  unplaced : pass.blocks.target? source.id = none
  unused : ∀ id, pass.blocks.target? id ≠ some pass.graph.freshId
  /-- A bound label was bound at the start, or is what another label has become. -/
  bound : ∀ label, pass.graph.binds label = true → base.graph.binds label = true ∨
    ∃ other, other ≠ source.label ∧ pass.labels.target? other = some label

/-- What making an empty block for `source` has done. -/
structure Placed (base : Scope) (source : Block) (before : Pass) (target : BlockId) (label : Label)
    (after : Pass) : Prop where
  named : Named base after
  target_eq : target = before.graph.freshId
  free : before.graph.binds label = false
  setting_eq : after.setting = before.setting
  sites_eq : after.sites = before.sites
  literal_eq : after.host.nextLiteral = before.host.nextLiteral
  graph_eq : after.graph = before.graph.register { id := target, label := label }
  blocks_eq : ∀ id, after.blocks.target? id =
    if id = source.id then some target else before.blocks.target? id
  blocks_oneToOne : after.blocks.OneToOne
  grows : before.Grows after
  label_eq : after.labels.target? source.label = some label

section Place

variable {base : Scope} {setting : Setting} {source : Block} {pass : Pass} {α : Type}
  {post : α → Pass → Prop}

/-- An edit of the graph whose outcome is known hands that to what follows. -/
theorem ensures_onGraph_bind {β : Type} {edit : Graph.Edit β} {next : β → Step α} {value : β}
    {g : Graph} {fail : Fault → Pass → Prop} (edited : edit pass.graph = .ok value g)
    (rest : Ensures (next value) (Pass.graphFocus.set g pass) post fail) :
    Ensures (onGraph edit >>= next) pass post fail := by
  have ran : Pass.graphFocus.run edit pass = .ok value (Pass.graphFocus.set g pass) :=
    Focus.run_eq_ok _ edited
  unfold Ensures onGraph
  rw [bind_apply, ran]
  exact rest

/-- The label that the source's label becomes is free. -/
theorem Ready.binds_eq_false (ready : Ready base setting source pass) {after : Pass} {label : Label}
    (named : Named base after) (grows : pass.Grows after)
    (known : after.labels.target? source.label = some label) : pass.graph.binds label = false := by
  apply Bool.eq_false_iff.mpr
  intro bound
  rcases ready.bound label bound with old | ⟨other, different, taken⟩
  · rw [(named.label_target source.label label known).2] at old
    contradiction
  · exact different (named.labels_oneToOne.source_eq (grows.label other label taken) known)

/-- Placing succeeds and leaves the variables alone, and what follows starts with the block made. -/
theorem ensures_place_bind {make : Label → Graph.Edit BlockId} {next : BlockId → Step α}
    {fail : Fault → Pass → Prop} (ready : Ready base setting source pass)
    (makes : ∀ g label, Graph.binds g label = false →
      make label g = .ok g.freshId (g.register { id := g.freshId, label := label }))
    (rest : ∀ target label after, Placed base source pass target label after →
      after.vars = pass.vars → Ensures (next target) after post fail) :
    Ensures (do
      let label ← renameLabel source.label
      let target ← onGraph (make label)
      recordBlock source.id target
      next target) pass post fail := by
  apply (ensures_renameLabel source.label ready.named (Eq.refl pass.frame)).bind
  rintro label middle ⟨renamed, sameVars⟩
  have sameGraph : middle.graph = pass.graph := congrArg Frame.graph renamed.frame_eq
  have sameBlocks : middle.blocks = pass.blocks := congrArg Frame.blocks renamed.frame_eq
  have known : middle.labels.target? source.label = some label :=
    Pass.target?_of_agrees fun σ agrees => (Prod.mk.inj (renamed.image_eq σ agrees)).1.symm
  have free := ready.binds_eq_false renamed.named renamed.grows known
  have made : make label middle.graph =
      .ok pass.graph.freshId
        (pass.graph.register { id := pass.graph.freshId, label := label }) := by
    rw [sameGraph]
    exact makes pass.graph label free
  apply ensures_onGraph_bind made
  have recorded : ∃ blocks, middle.blocks.insert BlockId.render BlockId.render source.id
      pass.graph.freshId = .ok blocks := by
    rw [sameBlocks]
    exact Renaming.exists_insert_eq_ok ready.unplaced
      (ready.blocks_oneToOne.source?_eq_none ready.unused)
  rcases recorded with ⟨blocks, inserted⟩
  have targets := Renaming.target?_of_insert inserted
  let grown := pass.graph.register { id := pass.graph.freshId, label := label }
  let placed : Pass := { Pass.graphFocus.set grown middle with blocks := blocks }
  have record : recordBlock source.id pass.graph.freshId (Pass.graphFocus.set grown middle) =
      .ok () placed := by
    unfold recordBlock
    rw [blocks_setGraph, inserted]
  have placedNamed : Named base placed := by
    have kept := renamed.named.setGraph (g := grown) (by
      intro other bound
      rw [sameGraph] at bound
      exact (Graph.binds_register _ other).mpr (.inl bound))
    exact kept.of_same_names rfl rfl rfl rfl
  have made : Placed base source pass pass.graph.freshId label placed := by
    refine ⟨placedNamed, rfl, free, congrArg Frame.setting renamed.frame_eq,
      congrArg Frame.sites renamed.frame_eq, ?_, rfl, ?_, ?_, ?_, known⟩
    · exact (Prod.mk.inj (renamed.image_eq _ middle.agrees_substitution)).2
    · intro id
      rw [← sameBlocks]
      exact targets id
    · exact (sameBlocks ▸ ready.blocks_oneToOne : middle.blocks.OneToOne).insert inserted
    · refine ⟨fun id target found => ?_, renamed.grows.var, renamed.grows.label⟩
      rw [show placed.blocks.target? id = _ from targets id, if_neg, sameBlocks, found]
      rintro rfl
      rw [ready.unplaced] at found
      contradiction
  unfold Ensures
  rw [bind_apply, record]
  exact rest _ _ _ made sameVars

end Place

/-! ## The three ways to carry a block over -/

/-- What carrying `source` over has done. -/
structure CarriedBlock (base : Scope) (rule : Rule) (log : Bool) (source : Block) (before : Pass)
    (target : BlockId) (after : Pass) : Prop where
  named : Named base after
  target_eq : target = before.graph.freshId
  setting_eq : after.setting = before.setting
  blocks_eq : ∀ id, after.blocks.target? id =
    if id = source.id then some target else before.blocks.target? id
  blocks_oneToOne : after.blocks.OneToOne
  grows : before.Grows after
  labelled : ∃ label,
    after.labels.target? source.label = some label ∧ before.graph.binds label = false
  image : ∀ σ, after.Agrees σ →
    after.graph = before.graph.register (rule.block σ before.host.nextLiteral source).1 ∧
    after.host.nextLiteral = (rule.block σ before.host.nextLiteral source).2 ∧
    after.sites = before.sites ++
      if log && before.logging then
        yieldsIn target (rule.block σ before.host.nextLiteral source).1.instrs
      else []

/-- A placed block that has been filled has been carried over. -/
theorem Placed.carried {base : Scope} {rule : Rule} {log : Bool} {source : Block}
    {before middle after : Pass} {target : BlockId} {label : Label} (live : source.live = true)
    (placed : Placed base source before target label middle)
    (filled : Filled base rule log before.graph { id := target, label := label } source.instrs
      middle after) : CarriedBlock base rule log source before target after where
  named := filled.named
  target_eq := placed.target_eq
  setting_eq := filled.setting_eq.trans placed.setting_eq
  blocks_eq := by
    rw [filled.blocks_eq]
    exact placed.blocks_eq
  blocks_oneToOne := by
    rw [filled.blocks_eq]
    exact placed.blocks_oneToOne
  grows := placed.grows.trans filled.grows
  labelled := ⟨label, filled.grows.label _ _ placed.label_eq, placed.free⟩
  image := by
    intro σ agrees
    rcases filled.image σ agrees with ⟨graphEq, nextEq, sitesEq⟩
    have labelEq : σ.label source.label = label :=
      agrees.label _ _ (filled.grows.label _ _ placed.label_eq)
    have logging : middle.logging = before.logging := congrArg Setting.logging placed.setting_eq
    rw [placed.literal_eq] at graphEq nextEq sitesEq
    rw [placed.sites_eq, logging, ← placed.target_eq] at sitesEq
    refine ⟨?_, nextEq, sitesEq⟩
    rw [graphEq]
    simp only [Rule.block, Graph.register, labelEq, live, List.nil_append]

section Carry

variable {base : Scope} {setting : Setting} {clone : Instr → Step (Option Instr)} {rule : Rule}

/-- In a pass of that setting, carrying over a live block adds its image under the rule. -/
def Carries (base : Scope) (setting : Setting) (carry : Block → Step BlockId) (rule : Rule)
    (log : Bool) : Prop :=
  ∀ source pass, source.live = true → Ready base setting source pass →
    Ensures (carry source) pass (CarriedBlock base rule log source pass) (Aborted setting)

/-- The block that stands for a source that has none is made. -/
theorem ensures_blockFor {source : Block} {pass : Pass} {fail : Fault → Pass → Prop}
    (ready : Ready base setting source pass) :
    Ensures (blockFor source) pass
      (fun target after => ∃ label, Placed base source pass target label after) fail := by
  unfold blockFor
  apply Ensures.get_bind
  rw [ready.unplaced]
  apply ensures_place_bind ready
  · intro g label free
    rw [Graph.createBlock, if_neg (Bool.eq_false_iff.mp free)]
  · intro target label after placed _
    exact Ensures.of_pure ⟨label, placed⟩

/-- Cloning into the block that stands for the source carries the source over. -/
theorem carries_blockFor (implements : Implements base setting clone rule) (log : Bool) :
    Carries base setting (fun source => do
      let target ← blockFor source
      cloneInto target clone log source.instrs
      return target) rule log := by
  intro source pass live ready
  apply (ensures_blockFor ready).bind
  rintro target middle ⟨label, placed⟩
  obtain rfl := placed.target_eq
  have filling : Ensures (cloneInto pass.graph.freshId clone log source.instrs) middle
      (fun _ => Filled base rule log pass.graph { id := pass.graph.freshId, label := label }
        source.instrs middle) (Aborted setting) :=
    ensures_cloneInto implements ready.wellFormed log source.instrs placed.free placed.named
      (placed.setting_eq.trans ready.setting_eq) placed.graph_eq
  apply filling.bind
  intro _ after filled
  exact Ensures.of_pure (placed.carried live filled)

theorem cloneBlockForCall_carries {call : CallBinding} (bound : setting.call = some call) :
    Carries base setting cloneBlockForCall call.rule true :=
  carries_blockFor (cloneForCall_implements bound) true

theorem cloneBlockForCopy_carries : Carries base setting cloneBlockForCopy copyRule false :=
  carries_blockFor (cloneForCopy_implements setting) false

/-- A live block that was emptied is adopted as an empty block. -/
theorem adoptBlock_emptied {source : Block} (live : source.live = true) {g : Graph} {label : Label}
    (free : g.binds label = false) :
    Graph.adoptBlock { source with label := label, instrs := [] } g =
      .ok g.freshId (g.register { id := g.freshId, label := label }) := by
  rw [Graph.adoptBlock, if_neg (Bool.eq_false_iff.mp free)]
  simp only [Graph.register, live]

/-- A block that is moved is emptied, adopted, and filled with the images of what it held. -/
theorem migrate_carries {yielded : YieldBinding} (bound : setting.yielded = some yielded) :
    Carries base setting migrate yielded.rule false := by
  intro source pass live ready
  unfold migrate
  apply ensures_place_bind ready (fun _ _ free => adoptBlock_emptied live free)
  intro target label placing placed _
  obtain rfl := placed.target_eq
  have settingEq := placed.setting_eq.trans ready.setting_eq
  have grownWf : placing.graph.WellFormed := by
    rw [placed.graph_eq]
    exact ready.wellFormed.register placed.free
  -- Renaming ahead changes the tables only.
  apply ((translates_renameAhead source.instrs).ensures placed.named settingEq grownWf).bind
  intro _ ahead renamed
  have aheadSetting : ahead.setting = setting :=
    (congrArg Frame.setting renamed.frame_eq).trans settingEq
  have aheadGraph : ahead.graph = placing.graph := congrArg Frame.graph renamed.frame_eq
  have cloning : Translates base ahead.frame (cloneAll cloneForYield source.instrs) fun σ n =>
      yielded.rule.instrs σ n source.instrs :=
    translates_cloneAll (cloneForYield_implements bound) aheadSetting source.instrs
  apply (cloning.ensures renamed.named aheadSetting (aheadGraph ▸ grownWf)).bind
  intro instrs cloned done
  have clonedGraph : cloned.graph =
      pass.graph.register { id := pass.graph.freshId, label := label } :=
    ((congrArg Frame.graph done.frame_eq).trans aheadGraph).trans placed.graph_eq
  have edited : Graph.editBlock pass.graph.freshId (·.withInstrs instrs) cloned.graph =
      .ok () (pass.graph.register
        { id := pass.graph.freshId, label := label, instrs := instrs }) := by
    rw [clonedGraph]
    exact ready.wellFormed.editBlock_register rfl rfl
  apply ensures_onGraph_bind edited
  apply Ensures.of_pure
  apply placed.carried live
  constructor
  · apply done.named.setGraph
    intro other binds
    rw [clonedGraph] at binds
    exact binds
  · exact (congrArg Frame.setting done.frame_eq).trans (aheadSetting.trans settingEq.symm)
  · exact (congrArg Frame.blocks done.frame_eq).trans (congrArg Frame.blocks renamed.frame_eq)
  · exact (renamed.grows.trans done.grows).trans (grows_setGraph _ cloned)
  · intro σ agrees
    have clonedAgrees : cloned.Agrees σ := (grows_setGraph _ cloned).agrees agrees
    rcases Prod.mk.inj (done.image_eq σ clonedAgrees) with ⟨instrsEq, nextEq⟩
    have aheadNext : ahead.host.nextLiteral = placing.host.nextLiteral :=
      (Prod.mk.inj (renamed.image_eq σ (done.grows.agrees clonedAgrees))).2
    rw [aheadNext] at instrsEq nextEq
    refine ⟨?_, nextEq, ?_⟩
    · rw [graph_setGraph, instrsEq, List.nil_append]
    · have clonedSites : cloned.sites = ahead.sites := congrArg Frame.sites done.frame_eq
      have aheadSites : ahead.sites = placing.sites := congrArg Frame.sites renamed.frame_eq
      simp [clonedSites, aheadSites]

end Carry

end FlowIR.Inlining
