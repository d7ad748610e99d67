import FlowIR.Proofs.Inlining.Hygiene
import FlowIR.Proofs.Inlining.Lasting
import FlowIR.Proofs.Inlining.Literals

/-!
# Literals built in a pass

The literals that a pass builds are new: each is a `nil` that takes the next identity of the counter
which the host shares with all that builds literals.  A transformation is therefore a history of
this counter, whatever becomes of it, and the identities that it gives follow one another.

So a host whose `nil` literals have all been built before goes on to be one.  The literals of a
clone are those of the source, those that are passed at the site, and new ones, and nothing but
clones is added to the host.
-/

namespace FlowIR

/-! ## What a host builds -/

namespace Host

/-- The second state of a host has come of the first one by building the literals of the log, in
order.  In between the host may change in any way that leaves the counter alone. -/
inductive Builds (start : Host) : List Literal → Host → Prop where
  | start : Builds start [] start
  | literal {log : List Literal} {host : Host} (builds : Builds start log host) :
      Builds start (log ++ [(Literal.fresh .nil host.nextLiteral).1]) host.freshNil.2
  | change {log : List Literal} {host after : Host} (builds : Builds start log host)
      (same : after.nextLiteral = host.nextLiteral) : Builds start log after

/-- The `nil` literals whose identities lie between the counters of two states of a host. -/
def nilsUpTo (before after : Host) : List Literal :=
  (List.Ico before.nextLiteral after.nextLiteral).map (⟨·, .nil⟩)

variable {start host : Host} {log : List Literal}

theorem map_id_nilsUpTo (before after : Host) :
    (before.nilsUpTo after).map (·.id) = .Ico before.nextLiteral after.nextLiteral := by
  simp [nilsUpTo, Function.comp_def]

theorem Builds.nextLiteral_le (builds : start.Builds log host) :
    start.nextLiteral ≤ host.nextLiteral := by
  induction builds with
  | start => exact Nat.le_refl _
  | literal _ ih => exact Nat.le_succ_of_le ih
  | change _ same ih => exact same ▸ ih

/-- The counter tells what was built. -/
theorem Builds.log_eq (builds : start.Builds log host) : log = start.nilsUpTo host := by
  induction builds with
  | start => simp [nilsUpTo]
  | @literal log host builds ih =>
      have next : host.freshNil.2.nextLiteral = host.nextLiteral + 1 := rfl
      rw [nilsUpTo, next, List.Ico.succ_top builds.nextLiteral_le, List.map_append, ih]
      rfl
  | change _ same ih =>
      rw [nilsUpTo, same]
      exact ih

end Host

namespace Inlining

/-! ### Within a pass -/

section Pass

variable {start : Host}

/-- Nothing in a pass but a new `nil` moves the counter. -/
theorem enduring_builds (start : Host) :
    Enduring fun pass => ∃ log, start.Builds log pass.host where
  freshNil := fun _ ⟨_, builds⟩ => ⟨_, builds.literal⟩
  addressLocal := fun _ _ _ ⟨_, builds⟩ => ⟨_, builds.change rfl⟩
  freshTemp := fun _ ⟨_, builds⟩ => ⟨_, builds.change rfl⟩
  renameLabel :=
    keeps_renameLabel (fun host => ∃ log, start.Builds log host) fun _ ⟨_, builds⟩ =>
      ⟨_, builds.change rfl⟩
  recordBlock := keeps_recordBlock fun host => ∃ log, start.Builds log host
  recordVariable := keeps_recordVariable fun host => ∃ log, start.Builds log host
  logSite := keeps_logSite fun host => ∃ log, start.Builds log host
  createBlock := fun _ => Preserves.focus_of_forall fun _ _ ⟨_, builds⟩ => ⟨_, builds.change rfl⟩
  adoptBlock := fun _ => Preserves.focus_of_forall fun _ _ ⟨_, builds⟩ => ⟨_, builds.change rfl⟩
  editBlock := fun _ _ _ => Preserves.focus_of_forall fun _ _ ⟨_, builds⟩ => ⟨_, builds.change rfl⟩
  insertEdge := fun _ => Preserves.focus_of_forall fun _ _ ⟨_, builds⟩ => ⟨_, builds.change rfl⟩

theorem durable_builds (start : Host) : Durable fun pass => ∃ log, start.Builds log pass.host :=
  (enduring_builds start).durable

end Pass

/-! ### In a transformation -/

/-- Nor does anything in a transformation. -/
theorem durableHost_builds (start : Host) :
    DurableHost fun host => ∃ log, start.Builds log host where
  pass := durable_builds start
  freshLabel := fun _ ⟨_, builds⟩ => ⟨_, builds.change rfl⟩
  openAt := fun _ _ _ => Preserves.focus_of_forall fun _ _ ⟨_, builds⟩ => ⟨_, builds.change rfl⟩
  link := fun _ _ _ _ => Preserves.focus_of_forall fun _ _ ⟨_, builds⟩ => ⟨_, builds.change rfl⟩
  setEntry := fun _ => Preserves.focus_of_forall fun _ _ ⟨_, builds⟩ => ⟨_, builds.change rfl⟩
  setExit := fun _ => Preserves.focus_of_forall fun _ _ ⟨_, builds⟩ => ⟨_, builds.change rfl⟩
  pruneBy := fun _ => Preserves.focus_of_forall fun _ _ ⟨_, builds⟩ => ⟨_, builds.change rfl⟩

/-- A transformation builds the literals between the counters, whatever becomes of it. -/
theorem Transformation.builds (t : Transformation) (policy : Policy) (host : Host) :
    host.Builds (host.nilsUpTo (t.leaves policy host)) (t.leaves policy host) := by
  rcases (durableHost_builds host).leaves t policy ⟨[], .start⟩ with ⟨log, builds⟩
  obtain rfl := builds.log_eq
  exact builds

end Inlining

/-! ## Literals below the counter -/

/-- A `nil` literal whose identity is below the bound, or no `nil` literal at all. -/
def Operand.NilBelow (bound : Nat) : Operand → Prop
  | .lit ⟨id, constant⟩ => constant = .nil → id < bound
  | _ => True

instance (bound : Nat) : DecidablePred (Operand.NilBelow bound)
  | .lit ⟨id, constant⟩ => inferInstanceAs (Decidable (constant = .nil → id < bound))
  | .var _ => isTrue trivial
  | .label _ => isTrue trivial

/-- The `nil` literals that a graph mentions have identities below the bound.  All that were built
have identities below the counter from which the next one is taken. -/
def Graph.NilsBelow (bound : Nat) (g : Graph) : Prop :=
  ∀ operand ∈ g.mentions, operand.NilBelow bound

namespace Operand

variable {bound : Nat} {operand : Operand}

theorem NilBelow.mono (below : operand.NilBelow bound) {later : Nat} (le : bound ≤ later) :
    operand.NilBelow later := by
  rcases operand with v | label | ⟨id, constant⟩
  · trivial
  · trivial
  · exact fun isNil => Nat.lt_of_lt_of_le (below isNil) le

theorem nilBelow_iff :
    operand.NilBelow bound ↔
      ∀ literal, operand.lit? = some literal → literal.constant = .nil → literal.id < bound := by
  rcases operand with v | label | ⟨id, constant⟩
  · exact ⟨fun _ => nofun, fun _ => trivial⟩
  · exact ⟨fun _ => nofun, fun _ => trivial⟩
  · refine ⟨?_, fun below => below ⟨id, constant⟩ rfl⟩
    rintro below _ ⟨⟩
    exact below

end Operand

theorem Graph.NilsBelow.mono {bound later : Nat} {g : Graph} (below : g.NilsBelow bound)
    (le : bound ≤ later) : g.NilsBelow later :=
  fun operand mentioned => Operand.NilBelow.mono (below operand mentioned) le

/-- The literals that instructions mention are those that they read. -/
theorem nilBelow_mentions_iff {bound : Nat} {instrs : List Instr} :
    (∀ instr ∈ instrs, ∀ operand ∈ instr.mentions, operand.NilBelow bound) ↔
      ∀ literal ∈ literalsOf instrs, literal.constant = .nil → literal.id < bound := by
  simp only [literalsOf, Instr.literals, List.mem_flatMap, List.mem_filterMap]
  constructor
  · rintro below literal ⟨instr, member, operand, read, isLiteral⟩
    exact Operand.nilBelow_iff.mp (below instr member operand (List.mem_append_left _ read))
      literal isLiteral
  · intro below instr member operand mentioned
    rcases List.mem_append.mp mentioned with read | written
    · exact Operand.nilBelow_iff.mpr fun literal isLiteral =>
        below literal ⟨instr, member, operand, read, isLiteral⟩
    · rcases List.mem_map.mp (Option.toList_map .. ▸ written) with ⟨v, -, rfl⟩
      trivial

namespace Inlining

/-- Clones of what was built before have `nil` literals that have been built. -/
theorem TracedLiterals.nilBelow {passed : List Operand} {lost : Instr → Bool}
    {source images : List Instr} {next last : Nat}
    (traced : TracedLiterals passed lost source images next last)
    (below : ∀ instr ∈ source, ∀ operand ∈ instr.mentions, operand.NilBelow next)
    (passedBelow : ∀ operand ∈ passed, operand.NilBelow next) :
    ∀ instr ∈ images, ∀ operand ∈ instr.mentions, operand.NilBelow last := by
  rcases traced with ⟨trace, traces⟩
  have member_of : ∀ {literal origin}, (literal, origin) ∈ trace →
      literal ∈ ofOrigin origin trace := fun {literal origin} member =>
    List.mem_map.mpr ⟨(literal, origin), List.mem_filter.mpr ⟨member, decide_eq_true rfl⟩, rfl⟩
  rw [nilBelow_mentions_iff] at below ⊢
  intro literal member isNil
  rw [traces.literals_eq] at member
  rcases List.mem_map.mp member with ⟨⟨_, origin⟩, listed, rfl⟩
  -- Where the literal comes from says what bounds it: the counter before, or the one after.
  cases origin with
  | kept =>
      have kept := traces.kept_eq ▸ member_of listed
      rcases List.mem_flatMap.mp kept with ⟨instr, there, read⟩
      have old := below _ (List.mem_flatMap.mpr ⟨instr, (List.mem_filter.mp there).1, read⟩) isNil
      exact Nat.lt_of_lt_of_le old traces.next_le
  | passed =>
      have passed := passedBelow _ (traces.passed_mem _ (member_of listed))
      exact Nat.lt_of_lt_of_le (passed isNil) traces.next_le
  | built =>
      have built := traces.built_eq ▸ member_of listed
      rcases List.mem_map.mp built with ⟨id, between, rfl⟩
      exact (List.Ico.mem.mp between).2

/-! ### Within a pass -/

/-- The tables of the pass are sound, and all `nil` literals in its host have been built. -/
structure Pass.Stocked (setting : Setting) (floor : Nat) (pass : Pass) : Prop where
  named : Named nowhere pass
  setting_eq : pass.setting = setting
  floor_le : floor ≤ pass.host.nextLiteral
  nils : pass.graph.Within (Operand.NilBelow pass.host.nextLiteral)

section Stocked

variable {α : Type} {setting : Setting} {floor : Nat} {pass after : Pass}

namespace Pass.Stocked

/-- A step that translates may build literals, and leaves the graph alone. -/
theorem of_translates (stocked : pass.Stocked setting floor) {step : Step α}
    {image : Substitution → Nat → α × Nat} (translates : Translates nowhere pass.frame step image)
    (counts : Preserves (fun after => ∃ log, pass.host.Builds log after.host) step) :
    Ensures step pass
      (fun value after => after.Stocked setting floor ∧
        Translated nowhere pass.frame image pass value after)
      (fun _ after => after.Stocked setting floor) := by
  have kept : ∀ after : Pass, Named nowhere after → after.frame = pass.frame →
      (∃ log, pass.host.Builds log after.host) → after.Stocked setting floor := by
    rintro after named frameEq ⟨log, builds⟩
    have graphEq : after.graph = pass.graph := congrArg Frame.graph frameEq
    refine ⟨named, (congrArg Frame.setting frameEq).trans stocked.setting_eq,
      Nat.le_trans stocked.floor_le builds.nextLiteral_le, ?_⟩
    rw [graphEq]
    have weaker := fun operand (below : Operand.NilBelow _ operand) =>
      below.mono builds.nextLiteral_le
    exact stocked.nils.mono (fun _ within instr member operand mentioned =>
      weaker operand (within instr member operand mentioned)) weaker
  apply ((translates pass stocked.named rfl).and (counts pass ⟨[], .start⟩)).mono
  · exact fun _ after ⟨done, builds⟩ => ⟨kept after done.named done.frame_eq builds, done⟩
  · exact fun _ after ⟨failed, builds⟩ => kept after failed.named failed.frame_eq builds

/-- An edit of the graph that brings along nothing else builds nothing. -/
theorem onGraph (stocked : pass.Stocked setting floor) {edit : Graph.Edit α}
    (kept : Preserves (Graph.Within (Operand.NilBelow pass.host.nextLiteral)) edit) :
    Ensures (onGraph edit) pass (fun _ after => after.Stocked setting floor)
      (fun _ after => after.Stocked setting floor) := by
  have put : ∀ g : Graph, g.Within (Operand.NilBelow pass.host.nextLiteral) →
      (Pass.graphFocus.set g pass).Stocked setting floor := fun g within =>
    ⟨stocked.named.of_same_tables_nowhere rfl rfl rfl (Nat.le_refl _) (Nat.le_refl _),
      stocked.setting_eq, stocked.floor_le, within⟩
  apply Ensures.focus
  exact (kept _ stocked.nils).mono (fun _ => put) fun _ => put

/-- A change of the block table and of the log leaves the host alone. -/
theorem of_same_names (stocked : pass.Stocked setting floor) (host : after.host = pass.host)
    (sameSetting : after.setting = pass.setting) (vars : after.vars = pass.vars)
    (labels : after.labels = pass.labels) : after.Stocked setting floor where
  named := stocked.named.of_same_names host (congrArg Setting.mode sameSetting) vars labels
  setting_eq := sameSetting.trans stocked.setting_eq
  floor_le := host ▸ stocked.floor_le
  nils := by
    rw [Pass.graph, host]
    exact stocked.nils

end Pass.Stocked

theorem stocked_recordBlock (source target : BlockId) :
    Preserves (Pass.Stocked setting floor) (recordBlock source target) := by
  intro pass stocked
  unfold Ensures recordBlock
  cases pass.blocks.insert BlockId.render BlockId.render source target <;>
    exact stocked.of_same_names rfl rfl rfl rfl

theorem stocked_logSite (block : BlockId) (instr : Instr) :
    Preserves (Pass.Stocked setting floor) (logSite block instr) := by
  apply Preserves.of_modify
  intro pass stocked
  split
  · exact stocked.of_same_names rfl rfl rfl rfl
  · exact stocked

theorem stocked_renameLabel (label : Label) :
    Preserves (Pass.Stocked setting floor) (renameLabel label) := by
  intro pass stocked
  apply (stocked.of_translates (translates_renameLabel label)
    ((durable_builds pass.host).renameLabel label)).mono
  · exact fun _ _ done => done.1
  · exact fun _ _ failed => failed

theorem stocked_blockFor (source : Block) :
    Preserves (Pass.Stocked setting floor) (blockFor source) := by
  apply Preserves.of_get.bind
  intro pass
  cases pass.blocks.target? source.id with
  | some target => exact .of_pure _
  | none =>
      apply (stocked_renameLabel source.label).bind
      intro label
      have created : Preserves (Pass.Stocked setting floor) (onGraph (Graph.createBlock label)) :=
        fun _ stocked => stocked.onGraph
          (Graph.createBlock_each (fun _ => Block.within_of_empty) label)
      apply created.bind
      intro target
      exact (stocked_recordBlock source.id target).bind fun _ => .of_pure _

/-! ### Cloning -/

/-- Cloning an instruction follows a rule that loses track of no literal, and whatever else the rule
adds to a clone has been built when the pass begins. -/
structure Clones (setting : Setting) (floor : Nat) (clone : Instr → Step (Option Instr))
    (rule : Rule) (passed : List Operand) (lost : Instr → Bool) : Prop where
  implements : Implements nowhere setting clone rule
  traceable : rule.Traceable passed lost
  passed_below : ∀ operand ∈ passed, operand.NilBelow floor
  builds : ∀ (start : Host) (instr : Instr),
    Preserves (fun pass : Pass => ∃ log, start.Builds log pass.host) (clone instr)

section Cloning

variable {clone : Instr → Step (Option Instr)} {rule : Rule} {passed : List Operand}
  {lost : Instr → Bool}

theorem Clones.passed_built (clones : Clones setting floor clone rule passed lost)
    (stocked : pass.Stocked setting floor) :
    ∀ operand ∈ passed, operand.NilBelow pass.host.nextLiteral :=
  fun operand member => (clones.passed_below operand member).mono stocked.floor_le

/-- A clone of what was built before has been built. -/
theorem Clones.ensures_clone (clones : Clones setting floor clone rule passed lost)
    (stocked : pass.Stocked setting floor) {instr : Instr}
    (below : ∀ operand ∈ instr.mentions, operand.NilBelow floor) :
    Ensures (clone instr) pass
      (fun value after => after.Stocked setting floor ∧ ∀ image ∈ value.toList,
        ∀ operand ∈ image.mentions, operand.NilBelow after.host.nextLiteral)
      (fun _ after => after.Stocked setting floor) := by
  have translates := clones.implements pass.frame stocked.setting_eq instr
  apply (stocked.of_translates translates (clones.builds pass.host instr)).mono
  · rintro value after ⟨afterStocked, done⟩
    have traced := clones.traceable after.substitution pass.host.nextLiteral instr
    rw [← done.image_eq _ after.agrees_substitution] at traced
    refine ⟨afterStocked, traced.nilBelow ?_ (clones.passed_built stocked)⟩
    rintro _ member operand mentioned
    obtain rfl := List.mem_singleton.mp member
    exact (below operand mentioned).mono stocked.floor_le
  · exact fun _ _ failed => failed

/-- So have the clones of a sequence. -/
theorem Clones.ensures_cloneAll (clones : Clones setting floor clone rule passed lost)
    (stocked : pass.Stocked setting floor) {instrs : List Instr}
    (below : ∀ instr ∈ instrs, ∀ operand ∈ instr.mentions, operand.NilBelow floor) :
    Ensures (cloneAll clone instrs) pass
      (fun images after => after.Stocked setting floor ∧ ∀ image ∈ images,
        ∀ operand ∈ image.mentions, operand.NilBelow after.host.nextLiteral)
      (fun _ after => after.Stocked setting floor) := by
  have translates : Translates nowhere pass.frame (cloneAll clone instrs) fun σ next =>
      rule.instrs σ next instrs := translates_cloneAll clones.implements stocked.setting_eq instrs
  have counts : Preserves (fun after => ∃ log, pass.host.Builds log after.host)
      (cloneAll clone instrs) :=
    Maintains.cloneAll fun instr _ => clones.builds pass.host instr
  apply (stocked.of_translates translates counts).mono
  · rintro images after ⟨afterStocked, done⟩
    have traced := clones.traceable.instrs after.substitution pass.host.nextLiteral instrs
    rw [← done.image_eq _ after.agrees_substitution] at traced
    refine ⟨afterStocked, traced.nilBelow ?_ (clones.passed_built stocked)⟩
    exact fun instr member operand mentioned =>
      (below instr member operand mentioned).mono stocked.floor_le
  · exact fun _ _ failed => failed

theorem Clones.stocked_cloneInto (clones : Clones setting floor clone rule passed lost)
    (target : BlockId) (log : Bool) {instrs : List Instr}
    (below : ∀ instr ∈ instrs, ∀ operand ∈ instr.mentions, operand.NilBelow floor) :
    Preserves (Pass.Stocked setting floor) (cloneInto target clone log instrs) := by
  induction instrs with
  | nil => exact .of_pure _
  | cons instr rest ih =>
      have others := ih fun other member => below other (List.mem_cons_of_mem _ member)
      intro pass stocked
      apply (clones.ensures_clone stocked (below instr List.mem_cons_self)).bind
      rintro (_ | image) middle ⟨middleStocked, made⟩
      · exact others middle middleStocked
      · -- Writing to the log of sites comes in between at most, and leaves the host as it is.
        have added : ∀ start : Pass, start.Stocked setting floor → start.host = middle.host →
            Ensures (do
              onGraph (Graph.editBlock target (·.append image))
              cloneInto target clone log rest) start
              (fun _ after => after.Stocked setting floor)
              (fun _ after => after.Stocked setting floor) := by
          intro start startStocked same
          apply (startStocked.onGraph (Graph.editBlock_each target fun block within =>
            within.append (same ▸ made image List.mem_cons_self))).bind
          exact fun _ after afterStocked => others after afterStocked
        dsimp only
        split
        · have logged : Ensures (logSite target image) middle
              (fun _ after => after.Stocked setting floor ∧ after.host = middle.host)
              (fun _ after => after.Stocked setting floor) := by
            have kept := stocked_logSite target image middle middleStocked
            have same := keeps_logSite (· = middle.host) target image middle rfl
            exact (kept.and same).mono (fun _ _ done => done) fun _ _ failed => failed.1
          exact logged.bind fun _ start ⟨startStocked, same⟩ => added start startStocked same
        · exact added middle middleStocked rfl

/-- Cloning a block, in whichever way. -/
theorem Clones.stocked_cloneBlock (clones : Clones setting floor clone rule passed lost)
    (log : Bool) {source : Block} (below : source.Within (Operand.NilBelow floor)) :
    Preserves (Pass.Stocked setting floor) (do
      let target ← blockFor source
      cloneInto target clone log source.instrs
      return target) := by
  apply (stocked_blockFor source).bind
  intro target
  exact (clones.stocked_cloneInto target log below).bind fun _ => .of_pure _

/-! ### Moving blocks -/

theorem stocked_renameAhead (instrs : List Instr) :
    Preserves (Pass.Stocked setting floor) (renameAhead instrs) := by
  intro pass stocked
  apply (stocked.of_translates (translates_renameAhead instrs)
    (keeps_renameAhead (durable_builds pass.host) instrs)).mono
  · exact fun _ _ done => done.1
  · exact fun _ _ failed => failed

theorem Clones.stocked_migrate (clones : Clones setting floor cloneForYield rule passed lost)
    {source : Block} (below : source.Within (Operand.NilBelow floor)) :
    Preserves (Pass.Stocked setting floor) (migrate source) := by
  apply (stocked_renameLabel source.label).bind
  intro label
  have adopted : Preserves (Pass.Stocked setting floor)
      (onGraph (Graph.adoptBlock { source with label := label, instrs := [] })) :=
    fun _ stocked => stocked.onGraph (Graph.adoptBlock_each fun _ => Block.within_of_empty rfl)
  apply adopted.bind
  intro target
  apply (stocked_recordBlock source.id target).bind
  intro _
  apply (stocked_renameAhead source.instrs).bind
  intro _ pass stocked
  apply (clones.ensures_cloneAll stocked below).bind
  rintro instrs middle ⟨middleStocked, made⟩
  apply (middleStocked.onGraph (Graph.editBlock_each target fun _ _ =>
    Block.Within.withInstrs made)).bind
  exact fun _ _ stocked => Ensures.of_pure stocked

/-! ### Bodies -/

end Cloning

/-- Attachments of edges are renamed, and literals stay. -/
theorem stocked_copyEdges {edges : List Edge}
    (below : ∀ edge ∈ edges, ∀ operand, edge.data = some operand → operand.NilBelow floor) :
    Preserves (Pass.Stocked setting floor) (copyEdges edges) := by
  induction edges with
  | nil => exact .of_pure _
  | cons edge rest ih =>
      have others := ih fun other member => below other (List.mem_cons_of_mem _ member)
      intro pass stocked
      apply Ensures.get_bind
      dsimp only
      split
      next source destination _ _ =>
        apply (stocked.of_translates (translates_renameOperand? edge.data)
          (keeps_renameOperand? (durable_builds pass.host) edge.data)).bind
        rintro data middle ⟨middleStocked, done⟩
        have built : ∀ operand, data = some operand →
            operand.NilBelow middle.host.nextLiteral := by
          rintro operand rfl
          have image := (Prod.mk.inj (done.image_eq _ middle.agrees_substitution)).1
          rcases Option.map_eq_some_iff.mp image.symm with ⟨old, attached, rfl⟩
          have oldBelow := (below edge List.mem_cons_self old attached).mono middleStocked.floor_le
          rw [Operand.nilBelow_iff] at oldBelow ⊢
          rwa [lit?_operand]
        apply (middleStocked.onGraph (Graph.insertEdge_each built)).bind
        exact fun _ after afterStocked => others after afterStocked
      next => exact others pass stocked

/-- So do the two ends of a body that was laid, whatever becomes of them. -/
theorem stocked_layBody {lay : Step (List BlockId)} {body : Graph} {entry exit : BlockId}
    (laying : Preserves (Pass.Stocked setting floor) lay)
    (below : body.Within (Operand.NilBelow floor)) :
    Preserves (Pass.Stocked setting floor) (layBody lay body entry exit) := by
  apply laying.bind
  intro blocks
  apply (stocked_copyEdges below.edges).bind
  intro _
  apply (keeps_carried entry).bind
  intro entryBlock
  exact (keeps_carried exit).bind fun _ => .of_pure _

/-- A pass begins with the `nil` literals of its host. -/
theorem Pass.stocked_start {start : Host → Pass} (starts : Starts start setting) {host : Host}
    (nils : host.scope.graph.Within (Operand.NilBelow host.nextLiteral))
    (floor_le : floor ≤ host.nextLiteral) : (start host).Stocked setting floor where
  named := by
    have unused : (start host).Unused :=
      ⟨starts.blocks_eq host, starts.vars_eq host, starts.labels_eq host⟩
    exact (Pass.Arises.start unused).named
  setting_eq := starts.setting_eq host
  floor_le := (starts.host_eq host).symm ▸ floor_le
  nils := by
    rw [Pass.graph, starts.host_eq]
    exact nils

end Stocked

/-! ### In a transformation -/

namespace Transformation

variable {t : Transformation} {policy : Policy} {host : Host} {pass : Pass}

/-- A pass begins in a scope that mentions nothing but what the host does. -/
theorem Prepares.within {base : Scope} (prepares : t.Prepares host base)
    (wf : base.graph.WellFormed) {ok : Operand → Prop}
    (allowed : ∀ operand ∈ host.scope.graph.mentions, ok operand) : base.graph.Within ok where
  blocks := by
    intro block held instr member operand mentioned
    have holds : base.graph.HoldsAt block.id instr := ⟨block, wf.mem_blocks_iff.mp held, member⟩
    rcases prepares.holdsAt _ _ holds with same | ⟨_, _, -, -, moved⟩
    · exact allowed operand (same.mem_mentions mentioned)
    · exact allowed operand (moved.mem_mentions mentioned)
  edges := by
    intro edge held operand attached
    exact allowed operand (prepares.attaches operand ⟨edge, held, attached⟩).mem_mentions

/-- What is passed at the site is mentioned by the host. -/
theorem Prepares.nilBelow_site {bound : Nat} {base : Scope} (prepares : t.Prepares host base)
    (nils : host.scope.graph.NilsBelow bound) {block : BlockId} {site : Instr}
    (opens : t.site? = some (block, site)) {operand : Operand}
    (mentioned : operand ∈ site.mentions) : operand.NilBelow bound :=
  nils operand ((prepares.offers block site opens).mem_mentions mentioned)

/-- If all `nil` literals of the host and of the body have been built, then so have those in the
host of a pass, where it ends or fails. -/
theorem Enters.stocked (enters : t.Enters policy host pass) (wf : host.scope.graph.WellFormed)
    (bodyWf : t.body.WellFormed) (nils : host.scope.graph.NilsBelow host.nextLiteral)
    (bodyNils : t.body.NilsBelow host.nextLiteral) :
    ∃ setting, pass.Stocked setting host.nextLiteral := by
  have below : t.body.Within (Operand.NilBelow host.nextLiteral) := Graph.within_iff.mpr bodyNils
  have liveBelow : ∀ block ∈ t.body.liveBlocks, block.Within (Operand.NilBelow host.nextLiteral) :=
    fun block member => below.blocks block (List.mem_filter.mp member).1
  cases t with
  | inlineMethod callee block call =>
      rcases enters with ⟨-, binding, bound, lays⟩
      obtain ⟨opened, entry, exit, prepares, openedWf, sameCounter, rfl⟩ :=
        exists_opened_of_lays (t := inlineMethod callee block call) rfl wf lays
      have start : (Pass.forMethod binding policy.logYields opened).Stocked
          (binding.setting policy.logYields) host.nextLiteral :=
        Pass.stocked_start (forMethod_starts binding policy.logYields)
          (sameCounter ▸ prepares.within openedWf nils) (Nat.le_of_eq sameCounter.symm)
      have clones : Clones (binding.setting policy.logYields) host.nextLiteral cloneForCall
          binding.rule binding.mentions binding.loses :=
        ⟨cloneForCall_implements rfl, binding.traceable, fun operand mentioned =>
          prepares.nilBelow_site nils rfl (CallBinding.mentions_subset bound mentioned),
          fun start instr => keeps_cloneForCall (durable_builds start) instr⟩
      have laying := keeps_carryBlocks fun source member =>
        clones.stocked_cloneBlock true (liveBelow source member)
      exact ⟨_, (stocked_layBody laying below).left start⟩
  | cloneClosure source =>
      obtain rfl := enters
      have start : (Pass.forClone host).Stocked cloneSetting host.nextLiteral :=
        Pass.stocked_start forClone_starts (Graph.within_iff.mpr nils) (Nat.le_refl _)
      have clones : Clones cloneSetting host.nextLiteral cloneForCopy copyRule [] copyLoses :=
        ⟨cloneForCopy_implements _, copyRule_traceable, nofun,
          fun start instr => keeps_cloneForCopy (durable_builds start) instr⟩
      have laying := keeps_carryBlocks fun source member =>
        clones.stocked_cloneBlock false (liveBelow source member)
      have copying : Preserves (Pass.Stocked cloneSetting host.nextLiteral) (copyBody source) :=
        laying.bind fun _ => (stocked_copyEdges below.edges).bind fun _ => .of_pure _
      exact ⟨_, copying.left start⟩
  | inlineClosure closure block yielding =>
      rcases enters with ⟨-, binding, bound, lays⟩
      have closureWf : closure.WellFormed := bodyWf
      rw [migrateBlocks_liveIds_eq closureWf] at lays
      obtain ⟨opened, entry, exit, prepares, openedWf, sameCounter, rfl⟩ :=
        exists_opened_of_lays (t := inlineClosure closure block yielding) rfl wf lays
      have start : (Pass.forClosure binding opened).Stocked binding.setting host.nextLiteral :=
        Pass.stocked_start (forClosure_starts binding)
          (sameCounter ▸ prepares.within openedWf nils) (Nat.le_of_eq sameCounter.symm)
      have clones : Clones binding.setting host.nextLiteral cloneForYield binding.rule
          binding.mentions binding.loses :=
        ⟨cloneForYield_implements rfl, binding.traceable, fun operand mentioned =>
          prepares.nilBelow_site nils rfl (YieldBinding.mentions_subset bound mentioned),
          fun start instr => keeps_cloneForYield (durable_builds start) instr⟩
      have laying := keeps_carryBlocks fun source member =>
        clones.stocked_migrate (liveBelow source member)
      exact ⟨_, (stocked_layBody laying below).left start⟩

/-- A host whose `nil` literals have all been built is left as such a host by a transformation,
whatever its outcome. -/
theorem nilsBelow_leaves (wf : host.scope.graph.WellFormed) (bodyWf : t.body.WellFormed)
    (nils : host.scope.graph.NilsBelow host.nextLiteral)
    (bodyNils : t.body.NilsBelow host.nextLiteral) :
    (t.leaves policy host).scope.graph.NilsBelow (t.leaves policy host).nextLiteral := by
  rcases t.ends wf bodyWf with alone | ⟨pass, enters, finishes⟩
  · rw [alone]
    exact nils
  · obtain ⟨setting, stocked⟩ := enters.stocked wf bodyWf nils bodyNils
    rw [finishes.nextLiteral_eq]
    refine Graph.within_iff.mp (finishes.each stocked.nils ?_ fun _ within => within)
    intro held label _ within
    apply within.append
    intro operand mentioned
    obtain rfl := Instr.eq_label_of_mem_mentions_jump mentioned
    trivial

end Transformation

end Inlining

end FlowIR
