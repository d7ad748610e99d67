import FlowIR.Proofs.Graph.Listing
import FlowIR.Proofs.Inlining.Provenance
import FlowIR.Proofs.Inlining.Transformations

/-!
# The first mention decides

A pass may be asked for what blocks, variables, labels and operands become, in any order and as
often as one likes.  Whatever was asked before, an answer is final: the tables only grow, no two
sources get one target, and a request that fails leaves them alone.  Each source block that is asked
for makes one block of the host, under the label that its own label becomes.

What holds of the tables of names is `Named`.  The invariant of a run adds which blocks the host has
got and for which sources, so that the label of a block that is asked for next is known to be free.
-/

namespace FlowIR.Inlining

/-! ## Requests -/

/-- What a pass may be asked to rename. -/
inductive Mention where
  | block (source : Block)
  | var (v : Variable)
  | label (name : Label)
  | operand (operand : Operand)
deriving DecidableEq

/-- What something becomes: a block of the host, or an operand in terms of the host. -/
inductive Target where
  | block (id : BlockId)
  | operand (operand : Operand)
deriving DecidableEq

namespace Mention

/-- The request. -/
def run : Mention → Step Target
  | block source => do return .block (← blockFor source)
  | var v => do return .operand (.var (← renameVariable v))
  | label name => do return .operand (.label (← renameLabel name))
  | operand value => do return .operand (← renameOperand value)

/-- A mentioned block is one of the source. -/
def Of (source : Graph) : Mention → Prop
  | block held => source.owned held.id = .ok held
  | _ => True

instance (source : Graph) : DecidablePred (Of source)
  | block held => inferInstanceAs (Decidable (source.owned held.id = .ok held))
  | var _ => isTrue trivial
  | label _ => isTrue trivial
  | operand _ => isTrue trivial

/-- What is mentioned, unless it is a block. -/
def operand? : Mention → Option Operand
  | block _ => none
  | var v => some (.var v)
  | label name => some (.label name)
  | operand value => some value

theorem block_or_operand (mention : Mention) :
    (∃ source, mention = .block source) ∨ ∃ operand, mention.operand? = some operand := by
  cases mention with
  | block source => exact .inl ⟨source, rfl⟩
  | var v => exact .inr ⟨_, rfl⟩
  | label name => exact .inr ⟨_, rfl⟩
  | operand value => exact .inr ⟨_, rfl⟩

/-- Variables and labels are renamed as operands. -/
theorem run_eq_renameOperand {mention : Mention} {operand : Operand}
    (named : mention.operand? = some operand) :
    mention.run = do return .operand (← renameOperand operand) := by
  cases mention with
  | block source => contradiction
  | var v =>
      obtain rfl := Option.some.inj named
      simp [run, renameOperand]
  | label name =>
      obtain rfl := Option.some.inj named
      simp [run, renameOperand]
  | operand other =>
      obtain rfl := Option.some.inj named
      rfl

end Mention

namespace Pass

/-- What the tables say that an operand becomes. -/
def operand? (pass : Pass) : Operand → Option Operand
  | .var v => (pass.vars.target? v).map .var
  | .label label => (pass.labels.target? label).map .label
  | .lit literal => some (.lit literal)

/-- What the tables say that something becomes. -/
def target? (pass : Pass) : Mention → Option Target
  | .block source => (pass.blocks.target? source.id).map .block
  | .var v => (pass.operand? (.var v)).map .operand
  | .label name => (pass.operand? (.label name)).map .operand
  | .operand value => (pass.operand? value).map .operand

/-- The tables of a pass. -/
structure Tables where
  blocks : Renaming BlockId BlockId
  vars : Renaming Variable Variable
  labels : Renaming Label Label

/-- The tables of the pass. -/
def tables (pass : Pass) : Tables :=
  ⟨pass.blocks, pass.vars, pass.labels⟩

/-- The pass after requests in sequence, whichever of them failed. -/
def asked (pass : Pass) (mentions : List Mention) : Pass :=
  mentions.foldl (fun pass mention => left mention.run pass) pass

theorem asked_append (pass : Pass) (first second : List Mention) :
    pass.asked (first ++ second) = (pass.asked first).asked second :=
  List.foldl_append

variable {before after pass : Pass}

/-! ### What the tables know -/

theorem target?_eq {mention : Mention} {operand : Operand}
    (named : mention.operand? = some operand) :
    pass.target? mention = (pass.operand? operand).map .operand := by
  cases mention with
  | block source => contradiction
  | _ =>
      obtain rfl := Option.some.inj named
      rfl

theorem Grows.operand? (grows : before.Grows after) {operand image : Operand}
    (known : before.operand? operand = some image) : after.operand? operand = some image := by
  cases operand with
  | var v =>
      rcases Option.map_eq_some_iff.mp known with ⟨target, found, rfl⟩
      exact Option.map_eq_some_iff.mpr ⟨target, grows.var v target found, rfl⟩
  | label label =>
      rcases Option.map_eq_some_iff.mp known with ⟨target, found, rfl⟩
      exact Option.map_eq_some_iff.mpr ⟨target, grows.label label target found, rfl⟩
  | lit literal => exact known

theorem Grows.target? (grows : before.Grows after) {mention : Mention} {target : Target}
    (known : before.target? mention = some target) : after.target? mention = some target := by
  rcases mention.block_or_operand with ⟨source, rfl⟩ | ⟨operand, named⟩
  · rcases Option.map_eq_some_iff.mp known with ⟨id, found, rfl⟩
    exact Option.map_eq_some_iff.mpr ⟨id, grows.block source.id id found, rfl⟩
  · rw [target?_eq named] at known ⊢
    rcases Option.map_eq_some_iff.mp known with ⟨image, found, rfl⟩
    exact Option.map_eq_some_iff.mpr ⟨image, grows.operand? found, rfl⟩

/-- What every substitution that agrees with the tables makes of an operand stands in the tables. -/
theorem operand?_of_agrees {operand image : Operand}
    (always : ∀ σ, pass.Agrees σ → image = σ.operand operand) :
    pass.operand? operand = some image := by
  have here := always _ pass.agrees_substitution
  cases operand with
  | var v =>
      obtain ⟨target, found⟩ : pass.Knows v := by
        apply knows_of_agrees
        intro σ agrees
        exact Operand.var.inj ((always σ agrees).symm.trans here)
      rw [here, Pass.operand?, found, Option.map_some]
      exact congrArg (some ∘ Operand.var) (pass.agrees_substitution.var v target found).symm
  | label label =>
      have found : pass.labels.target? label = some (pass.substitution.label label) := by
        apply target?_of_agrees
        intro σ agrees
        exact Operand.label.inj ((always σ agrees).symm.trans here)
      rw [here, Pass.operand?, found, Option.map_some]
      rfl
  | lit literal => exact congrArg some here.symm

/-- What the tables know is answered from them, and asking for it changes nothing. -/
theorem run_eq_of_target? {mention : Mention} {target : Target}
    (known : pass.target? mention = some target) : mention.run pass = .ok target pass := by
  rcases mention.block_or_operand with ⟨source, rfl⟩ | ⟨operand, named⟩
  · rcases Option.map_eq_some_iff.mp known with ⟨id, found, rfl⟩
    simp [Mention.run, blockFor, found]
  · rw [target?_eq named] at known
    rcases Option.map_eq_some_iff.mp known with ⟨image, found, rfl⟩
    have renamed : renameOperand operand pass = .ok image pass := by
      cases operand with
      | var v =>
          rcases Option.map_eq_some_iff.mp found with ⟨w, held, rfl⟩
          simp [renameOperand, renameVariable, held]
      | label label =>
          rcases Option.map_eq_some_iff.mp found with ⟨name, held, rfl⟩
          simp [renameOperand, renameLabel, held]
      | lit literal =>
          obtain rfl := Option.some.inj found
          rfl
    simp [Mention.run_eq_renameOperand named, renamed]

end Pass

/-! ## One request -/

/-- A variable that cannot be renamed leaves the tables alone. -/
theorem ensures_renameVariable_tables (v : Variable) (pass : Pass) :
    Ensures (renameVariable v) pass (fun _ _ => True)
      (fun _ after => after.tables = pass.tables) := by
  unfold renameVariable
  apply Ensures.get_bind
  cases pass.vars.target? v with
  | some target => exact Ensures.of_pure trivial
  | none =>
      apply ((ensures_allocateVariable v pass).mono (fun _ _ facts => facts)
        fun _ _ impossible => impossible.elim).bind
      rintro target middle ⟨sameFrame, sameVars, sameLabels, -⟩
      have same : middle.tables = pass.tables := by
        rw [Pass.tables, sameVars, sameLabels, show middle.blocks = pass.blocks from
          congrArg Frame.blocks sameFrame, Pass.tables]
      have recorded : Ensures (recordVariable v target) middle (fun _ _ => True)
          (fun _ after => after.tables = pass.tables) := by
        unfold Ensures recordVariable
        cases middle.vars.insert Variable.render Variable.render v target with
        | ok vars => trivial
        | error fault => exact same
      exact recorded.bind fun _ _ _ => Ensures.of_pure trivial

/-- Where an operand cannot be renamed, it is a variable, the pass inlines a closure, and the
tables are as they were. -/
structure Clash (base : Scope) (operand : Operand) (before after : Pass) : Prop where
  mode_eq : before.mode = .inlineClosure
  exists_variable : ∃ v, operand = .var v
  tables_eq : after.tables = before.tables
  named : Named base after
  frame_eq : after.frame = before.frame

/-- An operand has been renamed if nothing else has changed, and the tables know the image. -/
structure Renamed (base : Scope) (operand : Operand) (before : Pass) (image : Operand)
    (after : Pass) : Prop where
  named : Named base after
  frame_eq : after.frame = before.frame
  grows : before.Grows after
  known : after.operand? operand = some image

theorem ensures_renameOperand {base : Scope} {pass : Pass} (named : Named base pass)
    (operand : Operand) :
    Ensures (renameOperand operand) pass (Renamed base operand pass)
      (fun _ => Clash base operand pass) := by
  cases operand with
  | var v =>
      apply ((translates_renameVariable v pass named rfl).and
        (ensures_renameVariable_tables v pass)).mono
        (fun _ _ done => done.1) (fun _ after failed => (⟨failed.1.closure, ⟨v, rfl⟩, failed.2,
          failed.1.named, failed.1.frame_eq⟩ : Clash base (.var v) pass after)) |>.bind
      intro target after done
      refine Ensures.of_pure ⟨done.named, done.frame_eq, done.grows, Pass.operand?_of_agrees ?_⟩
      intro σ agrees
      exact congrArg Operand.var (Prod.mk.inj (done.image_eq σ agrees)).1
  | label label =>
      apply (ensures_renameLabel label named rfl).bind
      rintro target after ⟨done, -⟩
      refine Ensures.of_pure ⟨done.named, done.frame_eq, done.grows, Pass.operand?_of_agrees ?_⟩
      intro σ agrees
      exact congrArg Operand.label (Prod.mk.inj (done.image_eq σ agrees)).1
  | lit literal => exact Ensures.of_pure ⟨named, rfl, .refl pass, rfl⟩

/-! ## Which blocks the host has got -/

/-- The pass began with the scope `base` and has made a block of the host for each block of the
source that `made` lists, in this order. -/
structure Making (base : Scope) (source : Graph) (made : List (Block × Block))
    (pass : Pass) : Prop where
  named : Named base pass
  wellFormed : pass.graph.WellFormed
  blocks_oneToOne : pass.blocks.OneToOne
  blocks_eq : pass.graph.blocks = base.graph.blocks ++ made.map (·.2)
  nodup : (made.map (·.1)).Nodup
  taken : ∀ pair ∈ made, source.owned pair.1.id = .ok pair.1
  block_known : ∀ pair ∈ made, pass.blocks.target? pair.1.id = some pair.2.id
  label_known : ∀ pair ∈ made, pass.labels.target? pair.1.label = some pair.2.label
  others : ∀ id target, pass.blocks.target? id = some target → ∃ pair ∈ made, pair.1.id = id

namespace Making

variable {base : Scope} {source : Graph} {made : List (Block × Block)} {pass after : Pass}

/-- A change of names keeps the blocks. -/
theorem of_frame (making : Making base source made pass) (named : Named base after)
    (frameEq : after.frame = pass.frame)
    (labels : ∀ label target, pass.labels.target? label = some target →
      after.labels.target? label = some target) : Making base source made after := by
  have sameGraph : after.graph = pass.graph := congrArg Frame.graph frameEq
  have sameBlocks : after.blocks = pass.blocks := congrArg Frame.blocks frameEq
  refine ⟨named, ?_, ?_, ?_, making.nodup, making.taken, ?_, ?_, ?_⟩
  · rw [sameGraph]
    exact making.wellFormed
  · rw [sameBlocks]
    exact making.blocks_oneToOne
  · rw [sameGraph]
    exact making.blocks_eq
  · rw [sameBlocks]
    exact making.block_known
  · exact fun pair member => labels _ _ (making.label_known pair member)
  · rw [sameBlocks]
    exact making.others

/-- A block of the source that has not been asked for can be asked for next. -/
theorem ready (making : Making base source made pass) (baseWf : base.graph.WellFormed)
    (sourceWf : source.WellFormed) {block : Block} (found : source.owned block.id = .ok block)
    (absent : pass.blocks.target? block.id = none) : Ready base pass.setting block pass where
  named := making.named
  setting_eq := rfl
  wellFormed := making.wellFormed
  blocks_oneToOne := making.blocks_oneToOne
  unplaced := absent
  unused := by
    intro id known
    rcases making.others id _ known with ⟨pair, member, rfl⟩
    have same := Option.some.inj ((making.block_known pair member).symm.trans known)
    have held : pair.2 ∈ pass.graph.blocks := by
      rw [making.blocks_eq]
      exact List.mem_append_right _ (List.mem_map_of_mem member)
    exact making.wellFormed.ne_freshId ⟨_, making.wellFormed.mem_blocks_iff.mp held⟩ same
  bound := by
    intro label bound
    rcases Option.isSome_iff_exists.mp bound with ⟨id, indexed⟩
    rcases (making.wellFormed.labelled label id).mp indexed with ⟨held, heldFound, rfl⟩
    have member : held ∈ pass.graph.blocks := by
      rw [making.wellFormed.mem_blocks_iff, making.wellFormed.id_of_owned heldFound]
      exact heldFound
    rw [making.blocks_eq] at member
    rcases List.mem_append.mp member with old | new
    · left
      have there :=
        (baseWf.labelled held.label held.id).mpr ⟨held, baseWf.mem_blocks_iff.mp old, rfl⟩
      exact Option.isSome_iff_exists.mpr ⟨_, there⟩
    · right
      rcases List.mem_map.mp new with ⟨pair, listed, rfl⟩
      refine ⟨pair.1.label, fun same => ?_, making.label_known pair listed⟩
      have sameId := sourceWf.id_eq_of_label_eq (making.taken pair listed) found same
      rw [← sameId, making.block_known pair listed] at absent
      contradiction

/-- Placing a block of the source makes one block more. -/
theorem placed (making : Making base source made pass) {block : Block} {target : BlockId}
    {label : Label} (found : source.owned block.id = .ok block)
    (absent : pass.blocks.target? block.id = none)
    (placed : Placed base block pass target label after) :
    Making base source (made ++ [(block, { id := target, label := label })]) after where
  named := placed.named
  wellFormed := by
    rw [placed.graph_eq]
    exact making.wellFormed.register placed.free
  blocks_oneToOne := placed.blocks_oneToOne
  blocks_eq := by
    rw [placed.graph_eq, Graph.blocks_register, making.blocks_eq, placed.target_eq]
    simp
  nodup := by
    rw [List.map_append, List.nodup_append]
    refine ⟨making.nodup, by simp, ?_⟩
    rintro held listed _ last rfl
    rcases List.mem_map.mp listed with ⟨pair, member, rfl⟩
    have same : pair.1 = block := by simpa using last
    rw [← same, making.block_known pair member] at absent
    contradiction
  taken := by
    intro pair member
    rcases List.mem_append.mp member with old | last
    · exact making.taken pair old
    · obtain rfl := List.mem_singleton.mp last
      exact found
  block_known := by
    intro pair member
    rcases List.mem_append.mp member with old | last
    · exact placed.grows.block _ _ (making.block_known pair old)
    · obtain rfl := List.mem_singleton.mp last
      rw [placed.blocks_eq, if_pos rfl]
  label_known := by
    intro pair member
    rcases List.mem_append.mp member with old | last
    · exact placed.grows.label _ _ (making.label_known pair old)
    · obtain rfl := List.mem_singleton.mp last
      exact placed.label_eq
  others := by
    intro id image known
    rw [placed.blocks_eq] at known
    split at known
    next same => exact ⟨_, List.mem_append_right _ List.mem_cons_self, same.symm⟩
    next =>
      rcases making.others id image known with ⟨pair, member, rfl⟩
      exact ⟨pair, List.mem_append_left _ member, rfl⟩

/-- Which blocks the host has got is known from the table of blocks. -/
theorem mem_made_iff (making : Making base source made pass) {block : Block}
    (found : source.owned block.id = .ok block) :
    block ∈ made.map (·.1) ↔ ∃ target, pass.blocks.target? block.id = some target := by
  constructor
  · intro listed
    rcases List.mem_map.mp listed with ⟨pair, member, rfl⟩
    exact ⟨_, making.block_known pair member⟩
  · rintro ⟨target, known⟩
    rcases making.others _ _ known with ⟨pair, member, sameId⟩
    have taken := making.taken pair member
    rw [sameId, found] at taken
    obtain rfl := Except.ok.inj taken
    exact List.mem_map_of_mem member

end Making

/-! ## The outcome of a request -/

variable {base : Scope} {source : Graph} {made : List (Block × Block)}

/-- An answered request stands in the tables.  It has made a block if it asked for one for the first
time. -/
structure Answered (base : Scope) (source : Graph) (made : List (Block × Block)) (mention : Mention)
    (before : Pass) (target : Target) (after : Pass) : Prop where
  grows : before.Grows after
  setting_eq : after.setting = before.setting
  known : after.target? mention = some target
  making : ∃ added, Making base source (made ++ added) after ∧
    ∀ block, block ∈ added.map (·.1) ↔ mention = .block block ∧ block ∉ made.map (·.1)

/-- A refused request has asked a pass that inlines a closure for a variable, and
left the tables alone. -/
structure Denied (base : Scope) (source : Graph) (made : List (Block × Block)) (mention : Mention)
    (before after : Pass) : Prop where
  mode_eq : before.mode = .inlineClosure
  exists_variable : ∃ v, mention = .var v ∨ mention = .operand (.var v)
  tables_eq : after.tables = before.tables
  setting_eq : after.setting = before.setting
  making : Making base source made after

/-- What is known already is answered and changes nothing. -/
theorem Making.answered_of_known {mention : Mention} {pass : Pass} {target : Target}
    (making : Making base source made pass) (ofSource : mention.Of source)
    (known : pass.target? mention = some target) :
    Answered base source made mention pass target pass where
  grows := .refl pass
  setting_eq := rfl
  known := known
  making := by
    refine ⟨[], by simpa using making, fun block => ?_⟩
    refine iff_of_false List.not_mem_nil ?_
    rintro ⟨rfl, missing⟩
    rcases Option.map_eq_some_iff.mp known with ⟨id, found, -⟩
    exact missing ((making.mem_made_iff ofSource).mpr ⟨id, found⟩)

/-- A block that is asked for is answered. -/
theorem ensures_run_block {block : Block} {pass : Pass} (making : Making base source made pass)
    (baseWf : base.graph.WellFormed) (sourceWf : source.WellFormed)
    (found : source.owned block.id = .ok block) :
    Ensures (Mention.block block).run pass (Answered base source made (.block block) pass)
      (fun _ => Denied base source made (.block block) pass) := by
  cases known : pass.blocks.target? block.id with
  | some target =>
      have inTables : pass.target? (.block block) = some (.block target) := by
        rw [Pass.target?, known, Option.map_some]
      exact Ensures.of_eq_ok (Pass.run_eq_of_target? inTables)
        (making.answered_of_known found inTables)
  | none =>
      apply (ensures_blockFor (making.ready baseWf sourceWf found known)).bind
      rintro target after ⟨label, placed⟩
      refine Ensures.of_pure ⟨placed.grows, placed.setting_eq, ?_, _,
        making.placed found known placed, ?_⟩
      · rw [Pass.target?, placed.blocks_eq, if_pos rfl, Option.map_some]
      · intro other
        have missing : block ∉ made.map (·.1) := by
          rw [making.mem_made_iff found, known]
          exact nofun
        simp only [List.map_cons, List.map_nil, List.mem_singleton, Mention.block.injEq]
        constructor
        · rintro rfl
          exact ⟨rfl, missing⟩
        · exact fun asked => asked.1.symm

/-- A request is answered or refused. -/
theorem ensures_run {mention : Mention} {pass : Pass} (making : Making base source made pass)
    (baseWf : base.graph.WellFormed) (sourceWf : source.WellFormed) (ofSource : mention.Of source) :
    Ensures mention.run pass (Answered base source made mention pass)
      (fun _ => Denied base source made mention pass) := by
  rcases mention.block_or_operand with ⟨block, rfl⟩ | ⟨operand, named⟩
  · exact ensures_run_block making baseWf sourceWf ofSource
  rw [Mention.run_eq_renameOperand named]
  have noBlock : ∀ block, mention ≠ .block block := by
    rintro block rfl
    contradiction
  apply ((ensures_renameOperand making.named operand).mono
    (fun _ _ renamed => renamed) fun _ after clash => ?_).bind
  · intro image after renamed
    refine Ensures.of_pure ⟨renamed.grows, congrArg Frame.setting renamed.frame_eq, ?_, [], ?_, ?_⟩
    · rw [Pass.target?_eq named, renamed.known, Option.map_some]
    · simpa using making.of_frame renamed.named renamed.frame_eq renamed.grows.label
    · exact fun block => iff_of_false List.not_mem_nil fun asked => noBlock block asked.1
  · refine ⟨clash.mode_eq, ?_, clash.tables_eq, congrArg Frame.setting clash.frame_eq, ?_⟩
    · rcases clash.exists_variable with ⟨v, rfl⟩
      refine ⟨v, ?_⟩
      cases mention with
      | block block => contradiction
      | label name => cases Option.some.inj named
      | var w =>
          obtain rfl := Operand.var.inj (Option.some.inj named)
          exact .inl rfl
      | operand other =>
          obtain rfl := Option.some.inj named
          exact .inr rfl
    · apply making.of_frame clash.named clash.frame_eq
      rw [show after.labels = pass.labels from congrArg Pass.Tables.labels clash.tables_eq]
      exact fun _ _ found => found

/-! ## Requests in sequence -/

/-- No name and no block has been asked for yet. -/
structure Pass.Unused (pass : Pass) : Prop where
  blocks_eq : pass.blocks = {}
  vars_eq : pass.vars = {}
  labels_eq : pass.labels = {}

/-- After the requests, the host has got a block for each block that they ask for. -/
structure History (source : Graph) (start : Pass) (mentions : List Mention)
    (made : List (Block × Block)) (pass : Pass) : Prop where
  making : Making start.host.scope source made pass
  setting_eq : pass.setting = start.setting
  asked_for : ∀ block, block ∈ made.map (·.1) ↔ .block block ∈ mentions

section Sequence

variable {start pass : Pass} {mentions : List Mention}

theorem history_start (unused : start.Unused) (hostWf : start.graph.WellFormed) :
    History source start [] [] start where
  making :=
    { named := named_start start.host rfl unused.vars_eq unused.labels_eq
      wellFormed := hostWf
      blocks_oneToOne := by
        rw [unused.blocks_eq]
        exact Renaming.oneToOne_empty
      blocks_eq := by simp [Pass.graph]
      nodup := List.nodup_nil
      taken := fun _ member => absurd member List.not_mem_nil
      block_known := fun _ member => absurd member List.not_mem_nil
      label_known := fun _ member => absurd member List.not_mem_nil
      others := by
        rw [unused.blocks_eq]
        exact fun _ _ absent => absurd absent (Option.some_ne_none _).symm }
  setting_eq := rfl
  asked_for := by simp

/-- One request more. -/
theorem History.ask (history : History source start mentions made pass)
    (hostWf : start.graph.WellFormed) (sourceWf : source.WellFormed) {mention : Mention}
    (ofSource : mention.Of source) :
    pass.Grows (left mention.run pass) ∧
      ∃ made, History source start (mentions ++ [mention]) made (left mention.run pass) := by
  let Longer (after : Pass) : Prop :=
    pass.Grows after ∧ ∃ made, History source start (mentions ++ [mention]) made after
  suffices asked : Ensures mention.run pass (fun _ => Longer) (fun _ => Longer) from asked.left
  apply (ensures_run history.making hostWf sourceWf ofSource).mono
  · intro target after answered
    rcases answered.making with ⟨added, making, addedIff⟩
    refine ⟨answered.grows, _, making, answered.setting_eq.trans history.setting_eq,
      fun block => ?_⟩
    rw [List.map_append, List.mem_append, addedIff, history.asked_for, List.mem_append,
      List.mem_singleton, eq_comm (a := Mention.block block)]
    tauto
  · intro fault after denied
    refine ⟨?_, made, denied.making, denied.setting_eq.trans history.setting_eq, fun block => ?_⟩
    · exact .of_tables (congrArg Pass.Tables.blocks denied.tables_eq)
        (congrArg Pass.Tables.vars denied.tables_eq) (congrArg Pass.Tables.labels denied.tables_eq)
    · rw [history.asked_for, List.mem_append, List.mem_singleton, or_iff_left]
      rintro rfl
      rcases denied.exists_variable with ⟨v, same | same⟩ <;> contradiction

/-- Whatever is asked for afterwards, the tables only grow. -/
theorem History.asked (history : History source start mentions made pass)
    (hostWf : start.graph.WellFormed) (sourceWf : source.WellFormed) {more : List Mention}
    (ofSource : ∀ mention ∈ more, mention.Of source) :
    pass.Grows (pass.asked more) ∧
      ∃ made, History source start (mentions ++ more) made (pass.asked more) := by
  induction more generalizing pass mentions made with
  | nil => exact ⟨.refl pass, made, by simpa [Pass.asked] using history⟩
  | cons mention rest ih =>
      rcases history.ask hostWf sourceWf (ofSource mention List.mem_cons_self) with
        ⟨grows, longer, next⟩
      rcases ih next fun other member => ofSource other (List.mem_cons_of_mem _ member) with
        ⟨growsOn, final, last⟩
      refine ⟨grows.trans growsOn, final, ?_⟩
      rw [List.append_cons]
      exact last

end Sequence

/-- What holds of a pass after any requests, whichever of them failed. -/
structure RenamesOnce (source : Graph) (start : Pass) (mentions : List Mention) : Prop where
  /-- The tables only grow. -/
  grows : ∀ earlier later, mentions = earlier ++ later →
    (start.asked earlier).Grows (start.asked mentions)
  /-- What was answered is known at the end. -/
  answered : ∀ earlier mention later, mentions = earlier ++ mention :: later →
    ∀ target after, mention.run (start.asked earlier) = .ok target after →
      (start.asked mentions).target? mention = some target
  /-- What is known is answered in the same way, and nothing changes. -/
  repeated : ∀ mention target, (start.asked mentions).target? mention = some target →
    mention.run (start.asked mentions) = .ok target (start.asked mentions)
  blocks_oneToOne : (start.asked mentions).blocks.OneToOne
  vars_oneToOne : (start.asked mentions).vars.OneToOne
  labels_oneToOne : (start.asked mentions).labels.OneToOne
  /-- Only a variable of an inlined closure can be refused, and then the tables are as they were. -/
  refused : ∀ earlier mention later, mentions = earlier ++ mention :: later →
    ∀ fault after, mention.run (start.asked earlier) = .error fault after →
      after.tables = (start.asked earlier).tables ∧ start.mode = .inlineClosure ∧
        ∃ v, mention = .var v ∨ mention = .operand (.var v)
  /-- The host has got one block for each block that was asked for, and no other.  It carries what
  the label of the block has become. -/
  made : ∃ made : List (Block × Block),
    (start.asked mentions).graph.blocks = start.graph.blocks ++ made.map (·.2) ∧
    (made.map (·.1)).Nodup ∧
    (∀ block, block ∈ made.map (·.1) ↔ .block block ∈ mentions) ∧
    ∀ pair ∈ made, (start.asked mentions).target? (.block pair.1) = some (.block pair.2.id) ∧
      (start.asked mentions).target? (.label pair.1.label) = some (.operand (.label pair.2.label))
  /-- A copied closure keeps its locals. -/
  copied : start.mode = .cloneClosure → ∀ place target,
    (start.asked mentions).vars.target? (.named place) = some target → target = .named place
  /-- Nothing in an inlined method becomes a local. -/
  inlined : start.mode = .inlineMethod → ∀ v place,
    (start.asked mentions).vars.target? v ≠ some (.named place)

section Answers

variable {source : Graph} {start pass : Pass} {mentions : List Mention}
  {made : List (Block × Block)}

/-- Any requests make a history of a pass that begins with empty tables. -/
theorem exists_history (unused : start.Unused) (hostWf : start.graph.WellFormed)
    (sourceWf : source.WellFormed) (ofSource : ∀ mention ∈ mentions, mention.Of source) :
    ∃ made, History source start mentions made (start.asked mentions) :=
  ((history_start unused hostWf).asked hostWf sourceWf ofSource).2

/-- The tables after some of the requests grow to those after all. -/
theorem grows_asked (unused : start.Unused) (hostWf : start.graph.WellFormed)
    (sourceWf : source.WellFormed) {earlier later : List Mention}
    (ofSource : ∀ mention ∈ earlier ++ later, mention.Of source) :
    (start.asked earlier).Grows (start.asked (earlier ++ later)) := by
  rcases exists_history unused hostWf sourceWf fun mention member =>
    ofSource mention (List.mem_append_left _ member) with ⟨made, history⟩
  rw [Pass.asked_append]
  exact (history.asked hostWf sourceWf fun mention member =>
    ofSource mention (List.mem_append_right _ member)).1

/-- The answer to a request is known at the end. -/
theorem target?_asked (unused : start.Unused) (hostWf : start.graph.WellFormed)
    (sourceWf : source.WellFormed) {earlier later : List Mention} {mention : Mention}
    (ofSource : ∀ other ∈ earlier ++ mention :: later, other.Of source) {target : Target}
    {after : Pass} (run : mention.run (start.asked earlier) = .ok target after) :
    (start.asked (earlier ++ mention :: later)).target? mention = some target := by
  rcases exists_history unused hostWf sourceWf fun other member =>
    ofSource other (List.mem_append_left _ member) with ⟨made, history⟩
  have answered := (ensures_run history.making hostWf sourceWf
    (ofSource mention (List.mem_append_right _ List.mem_cons_self))).of_ok run
  have afterEq : start.asked (earlier ++ [mention]) = after := by
    rw [Pass.asked_append]
    show left mention.run (start.asked earlier) = after
    rw [left, run]
  rw [List.append_cons] at ofSource ⊢
  exact (grows_asked unused hostWf sourceWf ofSource).target? (afterEq ▸ answered.known)

namespace History

/-- A refused request leaves the tables, and is for a variable of an inlined closure. -/
theorem refused (history : History source start mentions made pass)
    (hostWf : start.graph.WellFormed) (sourceWf : source.WellFormed) {mention : Mention}
    (ofSource : mention.Of source) {fault : Fault} {after : Pass}
    (run : mention.run pass = .error fault after) :
    after.tables = pass.tables ∧ start.mode = .inlineClosure ∧
      ∃ v, mention = .var v ∨ mention = .operand (.var v) := by
  have denied := (ensures_run history.making hostWf sourceWf ofSource).of_error run
  exact ⟨denied.tables_eq, (congrArg Setting.mode history.setting_eq).symm.trans denied.mode_eq,
    denied.exists_variable⟩

/-- A block that was made stands for its source, and its label for the label of the source. -/
theorem target?_made (history : History source start mentions made pass) {pair : Block × Block}
    (member : pair ∈ made) :
    pass.target? (.block pair.1) = some (.block pair.2.id) ∧
      pass.target? (.label pair.1.label) = some (.operand (.label pair.2.label)) := by
  constructor
  · rw [Pass.target?, history.making.block_known pair member, Option.map_some]
  · simp [Pass.target?, Pass.operand?, history.making.label_known pair member]

theorem mode_eq (history : History source start mentions made pass) : pass.mode = start.mode :=
  congrArg Setting.mode history.setting_eq

theorem copied (history : History source start mentions made pass)
    (copies : start.mode = .cloneClosure) {place : Local} {target : Variable}
    (found : pass.vars.target? (.named place) = some target) :
    target = .named place := by
  rcases history.making.named.var_target _ _ found with settled | ⟨unsettled, -⟩
  · rw [history.mode_eq, copies] at settled
    exact (Option.some.inj settled).symm
  · rw [history.mode_eq, copies] at unsettled
    contradiction

theorem inlined (history : History source start mentions made pass)
    (inlines : start.mode = .inlineMethod) (v : Variable) (place : Local) :
    pass.vars.target? v ≠ some (.named place) := by
  intro found
  rcases history.making.named.var_target _ _ found with settled | ⟨-, n, same, -⟩
  · rw [history.mode_eq, inlines] at settled
    cases v <;> contradiction
  · contradiction

end History

end Answers

/-- The first mention decides: a pass that begins with empty tables renames once and for all,
whatever it is asked for and in whatever order. -/
theorem renames_once {source : Graph} {start : Pass} (unused : start.Unused)
    (hostWf : start.graph.WellFormed) (sourceWf : source.WellFormed) {mentions : List Mention}
    (ofSource : ∀ mention ∈ mentions, mention.Of source) : RenamesOnce source start mentions := by
  rcases exists_history unused hostWf sourceWf ofSource with ⟨made, history⟩
  refine
    { grows := ?_
      answered := ?_
      repeated := fun mention target => Pass.run_eq_of_target?
      blocks_oneToOne := history.making.blocks_oneToOne
      vars_oneToOne := history.making.named.vars_oneToOne
      labels_oneToOne := history.making.named.labels_oneToOne
      refused := ?_
      made := ⟨made, history.making.blocks_eq, history.making.nodup, history.asked_for,
        fun _ member => history.target?_made member⟩
      copied := fun copies _ _ found => history.copied copies found
      inlined := fun inlines => history.inlined inlines }
  · rintro earlier later rfl
    exact grows_asked unused hostWf sourceWf ofSource
  · rintro earlier mention later rfl target after run
    exact target?_asked unused hostWf sourceWf ofSource run
  · rintro earlier mention later rfl fault after run
    rcases exists_history unused hostWf sourceWf fun other member =>
      ofSource other (List.mem_append_left _ member) with ⟨madeBefore, before⟩
    exact before.refused hostWf sourceWf
      (ofSource mention (List.mem_append_right _ List.mem_cons_self)) run

/-- Requests that meet a label before its block, a block twice, and two locals that an inlined
closure cannot tell apart. -/
def sampleMentions : List Mention :=
  .label ⟨"done"⟩ :: sampleMethod.blocks.map .block ++
    [.var (.named ⟨"x", 1⟩), .operand (.var (.named ⟨"x", 2⟩))] ++ sampleMethod.blocks.map .block

/-- The sample requests are renamed once and for all, though one of them is refused. -/
theorem renames_once_sample :
    (Pass.forClosure ⟨none, none⟩ sampleHost).Unused ∧ sampleHost.scope.graph.WellFormed ∧
      sampleMethod.WellFormed ∧ (∀ mention ∈ sampleMentions, mention.Of sampleMethod) ∧
      RenamesOnce sampleMethod (Pass.forClosure ⟨none, none⟩ sampleHost) sampleMentions ∧
      Mention.run (.operand (.var (.named ⟨"x", 2⟩)))
          ((Pass.forClosure ⟨none, none⟩ sampleHost).asked (sampleMentions.take 4)) =
        .error (.renameConflict "x(2)" "x(1)" "x(1)")
          ((Pass.forClosure ⟨none, none⟩ sampleHost).asked (sampleMentions.take 5)) := by
  have unused : (Pass.forClosure ⟨none, none⟩ sampleHost).Unused := ⟨rfl, rfl, rfl⟩
  have hostWf : sampleHost.scope.graph.WellFormed := by decide +kernel
  have methodWf : sampleMethod.WellFormed := by decide +kernel
  have ofMethod : ∀ mention ∈ sampleMentions, mention.Of sampleMethod := by decide +kernel
  exact ⟨unused, hostWf, methodWf, ofMethod, renames_once unused hostWf methodWf ofMethod, by rfl⟩

end FlowIR.Inlining
