import FlowIR.Proofs.Ensures
import FlowIR.Proofs.Inlining.Image
import FlowIR.Proofs.Renaming
import FlowIR.Proofs.Scope

/-!
# Naming in a pass

A pass decides what a name becomes when it first meets it.  The result of a step is therefore
described relative to a substitution that is only known at the end: whatever substitution agrees
with the tables after the step also agrees with the tables before it, and it sends what the step
read to what the step returned.  Read this way, steps compose without any account of which names
have been met.

Naming touches nothing of a pass but its tables and the counters of the host.  It fails only where
two locals of an inlined closure would become one.
-/

namespace FlowIR.Inlining

/-- The graph into which a pass carries code. -/
def Pass.graph (pass : Pass) : Graph :=
  pass.host.scope.graph

/-- What a pass is started with and keeps. -/
structure Setting where
  mode : Mode
  call : Option CallBinding
  yielded : Option YieldBinding
  logging : Bool

/-- The setting of a pass. -/
def Pass.setting (pass : Pass) : Setting :=
  { mode := pass.mode, call := pass.call, yielded := pass.yielded, logging := pass.logging }

/-- What naming steps leave alone in a pass. -/
structure Frame where
  setting : Setting
  graph : Graph
  blocks : Renaming BlockId BlockId
  sites : List (BlockId × Instr)

/-- The frame of a pass. -/
def Pass.frame (pass : Pass) : Frame :=
  { setting := pass.setting, graph := pass.graph, blocks := pass.blocks, sites := pass.sites }

/-! ## What the tables hold -/

/-- The local that a local becomes.  A method's locals become temporaries, a copied closure keeps
its locals, and those of an inlined closure move one scope up. -/
def Mode.local? : Mode → Local → Option Local
  | .inlineMethod, _ => none
  | .cloneClosure, place => some place
  | .inlineClosure, place =>
      some (Local.atDepth place.name (if 1 < place.depth then place.depth - 1 else 1))

/-- The variable that a variable becomes without taking a fresh temporary. -/
def Mode.settled? (mode : Mode) : Variable → Option Variable
  | .named place => (mode.local? place).map .named
  | .temporary _ => none

/-- What holds of the tables of a pass that began with the scope `base`. -/
structure Named (base : Scope) (pass : Pass) : Prop where
  vars_oneToOne : pass.vars.OneToOne
  labels_oneToOne : pass.labels.OneToOne
  /-- A variable becomes what its mode settles, or a temporary handed out by the pass. -/
  var_target : ∀ v target, pass.vars.target? v = some target →
    pass.mode.settled? v = some target ∨ pass.mode.settled? v = none ∧
      ∃ n, target = .temporary n ∧ base.nextTemp ≤ n ∧ n < pass.host.scope.nextTemp
  /-- A label becomes one handed out by the pass that no block carried at the start. -/
  label_target : ∀ label target, pass.labels.target? label = some target →
    (∃ n, target = .numbered n ∧ base.nextLabel ≤ n ∧ n < pass.host.scope.nextLabel) ∧
      base.graph.binds target = false
  nextTemp_le : base.nextTemp ≤ pass.host.scope.nextTemp
  nextLabel_le : base.nextLabel ≤ pass.host.scope.nextLabel
  /-- Labels stay bound. -/
  binds_of_binds : ∀ label, base.graph.binds label = true → pass.graph.binds label = true

/-- The substitution extends the tables of the pass. -/
structure Pass.Agrees (pass : Pass) (σ : Substitution) : Prop where
  block : ∀ id target, pass.blocks.target? id = some target → σ.block id = target
  var : ∀ v target, pass.vars.target? v = some target → σ.var v = target
  label : ∀ label target, pass.labels.target? label = some target → σ.label label = target

/-- The tables of the pass only got more entries. -/
structure Pass.Grows (before after : Pass) : Prop where
  block : ∀ id target, before.blocks.target? id = some target →
    after.blocks.target? id = some target
  var : ∀ v target, before.vars.target? v = some target → after.vars.target? v = some target
  label : ∀ label target,
    before.labels.target? label = some target → after.labels.target? label = some target

namespace Pass

variable {before middle after pass : Pass} {σ : Substitution}

theorem Grows.refl (pass : Pass) : pass.Grows pass :=
  ⟨fun _ _ found => found, fun _ _ found => found, fun _ _ found => found⟩

theorem Grows.of_tables (blocks : after.blocks = before.blocks) (vars : after.vars = before.vars)
    (labels : after.labels = before.labels) : before.Grows after where
  block := fun _ _ found => blocks ▸ found
  var := fun _ _ found => vars ▸ found
  label := fun _ _ found => labels ▸ found

theorem Grows.trans (first : before.Grows middle) (second : middle.Grows after) :
    before.Grows after where
  block := fun id target found => second.block id target (first.block id target found)
  var := fun v target found => second.var v target (first.var v target found)
  label := fun label target found => second.label label target (first.label label target found)

/-- What agrees with the later tables agrees with the earlier ones. -/
theorem Grows.agrees (grows : before.Grows after) (agrees : after.Agrees σ) : before.Agrees σ where
  block := fun id target found => agrees.block id target (grows.block id target found)
  var := fun v target found => agrees.var v target (grows.var v target found)
  label := fun label target found => agrees.label label target (grows.label label target found)

/-- The substitution that leaves alone what the tables do not know. -/
def substitution (pass : Pass) : Substitution where
  block id := (pass.blocks.target? id).getD id
  var v := (pass.vars.target? v).getD v
  label label := (pass.labels.target? label).getD label

theorem agrees_substitution (pass : Pass) : pass.Agrees pass.substitution where
  block := fun id target found => by simp [substitution, found]
  var := fun v target found => by simp [substitution, found]
  label := fun label target found => by simp [substitution, found]

/-- What every substitution that agrees with the tables says of a label stands in the table: for a
label that is not there, substitutions differ. -/
theorem target?_of_agrees {label target : Label}
    (always : ∀ σ, pass.Agrees σ → σ.label label = target) :
    pass.labels.target? label = some target := by
  cases found : pass.labels.target? label with
  | some known =>
      rw [← always _ pass.agrees_substitution]
      simp [substitution, found]
  | none =>
      let other : Label := ⟨target.name ++ "_"⟩
      have agrees : pass.Agrees { pass.substitution with
          label := fun l => if l = label then other else pass.substitution.label l } := by
        refine ⟨pass.agrees_substitution.block, pass.agrees_substitution.var, ?_⟩
        intro l image known
        have different : l ≠ label := by
          rintro rfl
          rw [found] at known
          contradiction
        simp only [if_neg different]
        exact pass.agrees_substitution.label l image known
      have same := congrArg (·.name.length) (always _ agrees)
      simp [other] at same

end Pass

/-- A pass starts with empty tables. -/
theorem named_start (host : Host) {pass : Pass} (atHost : pass.host = host) (vars : pass.vars = {})
    (labels : pass.labels = {}) : Named host.scope pass where
  vars_oneToOne := by
    rw [vars]
    exact Renaming.oneToOne_empty
  labels_oneToOne := by
    rw [labels]
    exact Renaming.oneToOne_empty
  var_target := by
    rw [vars]
    exact nofun
  label_target := by
    rw [labels]
    exact nofun
  nextTemp_le := Nat.le_of_eq (by rw [atHost])
  nextLabel_le := Nat.le_of_eq (by rw [atHost])
  binds_of_binds := by
    rw [Pass.graph, atHost]
    exact fun _ binds => binds

/-! ## Steps that translate -/

/-- Two names of the source would become one.  The tables are as sound as before, and nothing else
of the pass has changed. -/
structure Conflict (base : Scope) (frame : Frame) (before : Pass) (fault : Fault) (after : Pass) :
    Prop where
  closure : frame.setting.mode = .inlineClosure
  fault_eq : ∃ source target holder, fault = .renameConflict source target holder
  named : Named base after
  frame_eq : after.frame = frame
  grows : before.Grows after

/-- What a step that translates has done between two states of the pass. -/
structure Translated {α : Type} (base : Scope) (frame : Frame)
    (image : Substitution → Nat → α × Nat) (before : Pass) (value : α) (after : Pass) : Prop where
  named : Named base after
  frame_eq : after.frame = frame
  grows : before.Grows after
  image_eq : ∀ σ, after.Agrees σ → (value, after.host.nextLiteral) = image σ before.host.nextLiteral

/-- A step that keeps the frame, keeps the tables sound, and returns what `image` says. -/
def Translates {α : Type} (base : Scope) (frame : Frame) (step : Step α)
    (image : Substitution → Nat → α × Nat) : Prop :=
  ∀ pass, Named base pass → pass.frame = frame →
    Ensures step pass (Translated base frame image pass) (Conflict base frame pass)

theorem Conflict.of_grows {base : Scope} {frame : Frame} {before middle after : Pass}
    {fault : Fault} (conflict : Conflict base frame middle fault after)
    (grows : before.Grows middle) :
    Conflict base frame before fault after :=
  { conflict with grows := grows.trans conflict.grows }

namespace Translates

variable {α β : Type} {base : Scope} {frame : Frame} {step : Step α} {next : α → Step β}
  {image : Substitution → Nat → α × Nat} {imageNext : α → Substitution → Nat → β × Nat}

theorem of_pure (value : α) : Translates base frame (pure value) fun _ n => (value, n) :=
  fun pass named frameEq => Ensures.of_pure ⟨named, frameEq, .refl pass, fun _ _ => rfl⟩

/-- Translations follow one another; the second is given the image of the first. -/
theorem bind (first : Translates base frame step image)
    (rest : ∀ value, Translates base frame (next value) (imageNext value)) :
    Translates base frame (step >>= next) fun σ n =>
      imageNext (image σ n).1 σ (image σ n).2 := by
  intro pass named frameEq
  apply (first pass named frameEq).bind
  intro value middle done
  apply (rest value middle done.named done.frame_eq).mono
  · intro result after finished
    refine ⟨finished.named, finished.frame_eq, done.grows.trans finished.grows, ?_⟩
    intro σ agrees
    rw [finished.image_eq σ agrees, ← done.image_eq σ (finished.grows.agrees agrees)]
  · exact fun _ _ failed => failed.of_grows done.grows

/-- The image of a translation may be written differently. -/
theorem congr {other : Substitution → Nat → α × Nat} (translates : Translates base frame step image)
    (same : ∀ σ n, image σ n = other σ n) : Translates base frame step other := by
  obtain rfl : image = other := funext fun σ => funext (same σ)
  exact translates

end Translates

/-! ## Variables -/

section Steps

variable {base : Scope} {frame : Frame}

/-- A variable that is met for the first time becomes what its mode settles, or takes the next
temporary of the host; nothing else that matters to naming changes. -/
theorem ensures_allocateVariable (v : Variable) (pass : Pass) :
    Ensures (allocateVariable v) pass
      (fun target after => after.frame = pass.frame ∧ after.vars = pass.vars ∧
        after.labels = pass.labels ∧ after.host.nextLiteral = pass.host.nextLiteral ∧
        after.host.scope.nextLabel = pass.host.scope.nextLabel ∧
        (pass.mode.settled? v = some target ∧
            after.host.scope.nextTemp = pass.host.scope.nextTemp ∨
          pass.mode.settled? v = none ∧ target = .temporary pass.host.scope.nextTemp ∧
            after.host.scope.nextTemp = pass.host.scope.nextTemp + 1))
      (fun _ _ => False) := by
  unfold allocateVariable
  apply Ensures.get_bind
  cases mode : pass.mode with
  | inlineMethod =>
      cases v <;>
        exact ⟨rfl, rfl, rfl, rfl, rfl, .inr ⟨rfl, rfl, rfl⟩⟩
  | cloneClosure =>
      cases v with
      | named place => exact ⟨rfl, rfl, rfl, rfl, rfl, .inl ⟨rfl, rfl⟩⟩
      | temporary index => exact ⟨rfl, rfl, rfl, rfl, rfl, .inr ⟨rfl, rfl, rfl⟩⟩
  | inlineClosure =>
      cases v with
      | named place =>
          refine ⟨?_, rfl, rfl, rfl, Scope.addressLocal_nextLabel _ _ _,
            .inl ⟨rfl, Scope.addressLocal_nextTemp _ _ _⟩⟩
          exact congrArg (fun graph => { pass.frame with graph := graph })
            (Scope.addressLocal_graph _ _ _)
      | temporary index => exact ⟨rfl, rfl, rfl, rfl, rfl, .inr ⟨rfl, rfl, rfl⟩⟩

/-- What a variable is settled to is a local. -/
theorem Mode.settled?_ne_temporary (mode : Mode) (v : Variable) (n : Nat) :
    mode.settled? v ≠ some (.temporary n) := by
  cases v with
  | named place => cases mode <;> simp [settled?, local?]
  | temporary index => simp [settled?]

/-- A fresh temporary is the target of no variable. -/
theorem Named.source?_nextTemp {pass : Pass} (named : Named base pass) :
    pass.vars.source? (.temporary pass.host.scope.nextTemp) = none := by
  apply named.vars_oneToOne.source?_eq_none
  intro v found
  rcases named.var_target v _ found with settled | ⟨-, n, same, -, below⟩
  · exact Mode.settled?_ne_temporary _ _ _ settled
  · obtain rfl := Variable.temporary.inj same
    exact Nat.lt_irrefl _ below

/-- A variable that takes what its mode settles can meet a holder only in an inlined closure. -/
theorem Named.source?_settled {pass : Pass} (named : Named base pass) {v target : Variable}
    (absent : pass.vars.target? v = none) (settled : pass.mode.settled? v = some target)
    (apart : pass.mode ≠ .inlineClosure) : pass.vars.source? target = none := by
  apply named.vars_oneToOne.source?_eq_none
  intro other found
  cases v with
  | temporary index => simp [Mode.settled?] at settled
  | named place =>
      cases mode : pass.mode with
      | inlineMethod => simp [mode, Mode.settled?, Mode.local?] at settled
      | inlineClosure => exact apart mode
      | cloneClosure =>
          -- A copied closure keeps its locals, so the holder would be the variable itself.
          simp only [mode, Mode.settled?, Mode.local?, Option.map_some,
            Option.some.injEq] at settled
          subst settled
          rcases named.var_target other _ found with held | ⟨-, n, same, -⟩
          · cases other with
            | named otherPlace =>
                simp only [mode, Mode.settled?, Mode.local?, Option.map_some, Option.some.injEq]
                  at held
                rw [held, absent] at found
                contradiction
            | temporary index => simp [Mode.settled?] at held
          · contradiction

/-- Allocation leaves the tables as sound as they were. -/
theorem Named.of_same_tables {pass after : Pass} (named : Named base pass)
    (sameFrame : after.frame = pass.frame) (sameVars : after.vars = pass.vars)
    (sameLabels : after.labels = pass.labels)
    (temps : pass.host.scope.nextTemp ≤ after.host.scope.nextTemp)
    (numbers : pass.host.scope.nextLabel ≤ after.host.scope.nextLabel) : Named base after where
  vars_oneToOne := sameVars ▸ named.vars_oneToOne
  labels_oneToOne := sameLabels ▸ named.labels_oneToOne
  var_target := by
    intro v target found
    rw [sameVars] at found
    rw [show after.mode = pass.mode from congrArg (·.setting.mode) sameFrame]
    rcases named.var_target v target found with settled | ⟨unsettled, n, rfl, above, below⟩
    · exact .inl settled
    · exact .inr ⟨unsettled, n, rfl, above, Nat.lt_of_lt_of_le below temps⟩
  label_target := by
    intro label target found
    rw [sameLabels] at found
    rcases named.label_target label target found with ⟨⟨n, rfl, above, below⟩, free⟩
    exact ⟨⟨n, rfl, above, Nat.lt_of_lt_of_le below numbers⟩, free⟩
  nextTemp_le := Nat.le_trans named.nextTemp_le temps
  nextLabel_le := Nat.le_trans named.nextLabel_le numbers
  binds_of_binds := by
    rw [show after.graph = pass.graph from congrArg Frame.graph sameFrame]
    exact named.binds_of_binds

/-- Recording a variable that has no target yet is refused or adds the pair to the table. -/
theorem ensures_recordVariable {v target : Variable} {pass : Pass} (named : Named base pass)
    (frameEq : pass.frame = frame)
    (absent : pass.vars.target? v = none)
    (meant : pass.mode.settled? v = some target ∨ pass.mode.settled? v = none ∧
      ∃ n, target = .temporary n ∧ base.nextTemp ≤ n ∧ n < pass.host.scope.nextTemp)
    (free : pass.mode ≠ .inlineClosure → pass.vars.source? target = none) :
    Ensures (recordVariable v target) pass
      (fun _ => Translated base frame (fun σ n => (σ.var v, n)) pass target)
      (Conflict base frame pass) := by
  unfold Ensures recordVariable
  cases inserted : pass.vars.insert Variable.render Variable.render v target with
  | error fault =>
      rcases Renaming.insert_eq_error inserted with ⟨holder, rfl⟩
      refine ⟨?_, ⟨_, _, _, rfl⟩, named, frameEq, .refl pass⟩
      rw [← congrArg (·.setting.mode) frameEq]
      by_cases closing : pass.mode = .inlineClosure
      · exact closing
      · rcases Renaming.exists_insert_eq_ok absent (free closing) with ⟨vars, accepted⟩
        rw [accepted] at inserted
        contradiction
  | ok vars =>
      have targets := Renaming.target?_of_insert inserted
      refine ⟨⟨named.vars_oneToOne.insert inserted, named.labels_oneToOne, ?_, named.label_target,
        named.nextTemp_le, named.nextLabel_le, named.binds_of_binds⟩, frameEq, ?_, ?_⟩
      · intro other image found
        rw [targets] at found
        split at found
        next here =>
          obtain rfl := Option.some.inj found
          exact here ▸ meant
        next => exact named.var_target other image found
      · refine ⟨fun _ _ found => found, fun other image found => ?_, fun _ _ found => found⟩
        rw [targets, if_neg, found]
        rintro rfl
        rw [absent] at found
        contradiction
      · intro σ agrees
        rw [agrees.var v target (by rw [targets, if_pos rfl])]

/-- Renaming a variable returns what the final substitution makes of it. -/
theorem translates_renameVariable (v : Variable) :
    Translates base frame (renameVariable v) fun σ n => (σ.var v, n) := by
  intro pass named frameEq
  unfold renameVariable
  apply Ensures.get_bind
  cases found : pass.vars.target? v with
  | some target =>
      refine Ensures.of_pure ⟨named, frameEq, .refl pass, ?_⟩
      intro σ agrees
      rw [agrees.var v target found]
  | none =>
      have allocated := (ensures_allocateVariable v pass).mono (fun _ _ facts => facts)
        (fun fault after impossible => (impossible.elim : Conflict base frame pass fault after))
      apply allocated.bind
      rintro target middle ⟨sameFrame, sameVars, sameLabels, sameLiteral, sameLabel, target_eq⟩
      have temps : pass.host.scope.nextTemp ≤ middle.host.scope.nextTemp := by
        rcases target_eq with ⟨-, same⟩ | ⟨-, -, more⟩ <;> omega
      have middleNamed := named.of_same_tables sameFrame sameVars sameLabels temps
        (Nat.le_of_eq sameLabel.symm)
      have sameMode : middle.mode = pass.mode := congrArg (·.setting.mode) sameFrame
      have recorded : Ensures (recordVariable v target) middle
          (fun _ => Translated base frame (fun σ n => (σ.var v, n)) middle target)
          (Conflict base frame middle) := by
        apply ensures_recordVariable middleNamed (sameFrame.trans frameEq) (sameVars ▸ found)
        · rw [sameMode]
          rcases target_eq with ⟨settled, -⟩ | ⟨unsettled, rfl, more⟩
          · exact .inl settled
          · exact .inr ⟨unsettled, _, rfl, named.nextTemp_le, by omega⟩
        · rw [sameMode, sameVars]
          intro apart
          rcases target_eq with ⟨settled, -⟩ | ⟨-, rfl, -⟩
          · exact named.source?_settled found settled apart
          · exact named.source?_nextTemp
      have grows : pass.Grows middle :=
        .of_tables (congrArg Frame.blocks sameFrame) sameVars sameLabels
      apply (recorded.mono (fun _ _ done => done) (fun _ _ failed => failed.of_grows grows)).bind
      intro _ after done
      refine Ensures.of_pure ⟨done.named, done.frame_eq, grows.trans done.grows, ?_⟩
      · intro σ agrees
        rw [← sameLiteral]
        exact done.image_eq σ agrees

/-! ## Labels and operands -/

/-- A fresh label is the target of no label. -/
theorem Named.source?_labelNumber {pass : Pass} (named : Named base pass) :
    pass.labels.source? (.numbered pass.host.scope.labelNumber) = none := by
  apply named.labels_oneToOne.source?_eq_none
  intro label found
  rcases named.label_target label _ found with ⟨⟨n, same, -, below⟩, -⟩
  have above := pass.host.scope.nextLabel_le_labelNumber
  rw [Label.numbered_inj.mp same] at above
  omega

/-- Recording a label that has no target yet under a fresh number succeeds. -/
theorem ensures_recordLabel {label : Label} {n : Nat} {pass : Pass} {fail : Fault → Pass → Prop}
    (named : Named base pass) (frameEq : pass.frame = frame)
    (absent : pass.labels.target? label = none) (free : pass.labels.source? (.numbered n) = none)
    (above : base.nextLabel ≤ n) (below : n < pass.host.scope.nextLabel)
    (unbound : base.graph.binds (.numbered n) = false) :
    Ensures (recordLabel label (.numbered n)) pass
      (fun _ after =>
        Translated base frame (fun σ n => (σ.label label, n)) pass (.numbered n) after ∧
        after.vars = pass.vars) fail := by
  obtain ⟨labels, inserted⟩ :
      ∃ labels, pass.labels.insert Label.name Label.name label (.numbered n) = .ok labels :=
    Renaming.exists_insert_eq_ok absent free
  unfold Ensures recordLabel
  rw [inserted]
  have targets := Renaming.target?_of_insert inserted
  refine ⟨⟨⟨named.vars_oneToOne, named.labels_oneToOne.insert inserted, named.var_target, ?_,
    named.nextTemp_le, named.nextLabel_le, named.binds_of_binds⟩, frameEq, ?_, ?_⟩, rfl⟩
  · intro other image found
    rw [targets] at found
    split at found
    next here =>
      obtain rfl := Option.some.inj found
      exact ⟨⟨n, rfl, above, below⟩, unbound⟩
    next => exact named.label_target other image found
  · refine ⟨fun _ _ found => found, fun _ _ found => found, fun other image found => ?_⟩
    rw [targets, if_neg, found]
    rintro rfl
    rw [absent] at found
    contradiction
  · intro σ agrees
    rw [agrees.label label (.numbered n) (by rw [targets, if_pos rfl])]

/-- Renaming a label never fails, returns what the final substitution makes of it, and leaves the
variables alone. -/
theorem ensures_renameLabel (label : Label) {pass : Pass} {fail : Fault → Pass → Prop}
    (named : Named base pass) (frameEq : pass.frame = frame) :
    Ensures (renameLabel label) pass
      (fun target after => Translated base frame (fun σ n => (σ.label label, n)) pass target after ∧
        after.vars = pass.vars) fail := by
  unfold renameLabel
  apply Ensures.get_bind
  cases found : pass.labels.target? label with
  | some target =>
      refine Ensures.of_pure ⟨⟨named, frameEq, .refl pass, ?_⟩, rfl⟩
      intro σ agrees
      rw [agrees.label label target found]
  | none =>
      have above := pass.host.scope.nextLabel_le_labelNumber
      -- The host has handed out the label, which the table does not know yet.
      let scope : Scope := { pass.host.scope with nextLabel := pass.host.scope.labelNumber + 1 }
      let middle : Pass := { pass with host := { pass.host with scope := scope } }
      have middleNamed : Named base middle := named.of_same_tables rfl rfl rfl (Nat.le_refl _)
        (Nat.le_succ_of_le above)
      have unbound : base.graph.binds (.numbered pass.host.scope.labelNumber) = false := by
        apply Bool.eq_false_iff.mpr
        intro bound
        have := named.binds_of_binds _ bound
        rw [Pass.graph, Scope.binds_labelNumber] at this
        contradiction
      have recorded : Ensures (recordLabel label (.numbered pass.host.scope.labelNumber)) middle
          (fun _ after => Translated base frame (fun σ n => (σ.label label, n)) middle
            (.numbered pass.host.scope.labelNumber) after ∧ after.vars = middle.vars) fail :=
        ensures_recordLabel middleNamed frameEq found named.source?_labelNumber
          (Nat.le_trans named.nextLabel_le above) (Nat.lt_succ_self _) unbound
      have grows : pass.Grows middle := .of_tables rfl rfl rfl
      apply recorded.bind
      rintro _ after ⟨done, sameVars⟩
      exact Ensures.of_pure
        ⟨⟨done.named, done.frame_eq, grows.trans done.grows, done.image_eq⟩, sameVars⟩

theorem translates_renameLabel (label : Label) :
    Translates base frame (renameLabel label) fun σ n => (σ.label label, n) :=
  fun _ named frameEq =>
    (ensures_renameLabel label named frameEq).mono (fun _ _ done => done.1) fun _ _ failed => failed

theorem translates_renameOperand (operand : Operand) :
    Translates base frame (renameOperand operand) fun σ n => (σ.operand operand, n) := by
  cases operand with
  | var v => exact (translates_renameVariable v).bind fun _ => .of_pure _
  | label label => exact (translates_renameLabel label).bind fun _ => .of_pure _
  | lit literal => exact .of_pure _

theorem translates_renameVariable? (v : Option Variable) :
    Translates base frame (renameVariable? v) fun σ n => (v.map σ.var, n) := by
  cases v with
  | none => exact .of_pure _
  | some v => exact (translates_renameVariable v).bind fun _ => .of_pure _

theorem translates_renameOperand? (operand : Option Operand) :
    Translates base frame (renameOperand? operand) fun σ n => (operand.map σ.operand, n) := by
  cases operand with
  | none => exact .of_pure _
  | some operand => exact (translates_renameOperand operand).bind fun _ => .of_pure _

theorem translates_renameOperands (operands : List Operand) :
    Translates base frame (renameOperands operands) fun σ n => (operands.map σ.operand, n) := by
  induction operands with
  | nil => exact .of_pure _
  | cons operand rest ih =>
      exact ((translates_renameOperand operand).bind fun _ => ih.bind fun _ => .of_pure _).congr
        fun _ _ => rfl

/-! ## Instructions -/

/-- Renaming an instruction replaces every name in it by what the final substitution makes of it. -/
theorem translates_renameInstr (instr : Instr) :
    Translates base frame (renameInstr instr) fun σ n => (σ.instr instr, n) := by
  cases instr with
  | copy result source =>
      exact ((translates_renameVariable result).bind fun _ =>
        (translates_renameOperand source).bind fun _ => .of_pure _).congr fun _ _ => rfl
  | call result receiver method args closure =>
      exact ((translates_renameVariable? result).bind fun _ =>
        (translates_renameOperand receiver).bind fun _ =>
        (translates_renameOperands args).bind fun _ =>
        (translates_renameOperand? closure).bind fun _ => .of_pure _).congr fun _ _ => rfl
  | yield result block arg =>
      exact ((translates_renameVariable? result).bind fun _ =>
        (translates_renameOperand block).bind fun _ =>
        (translates_renameOperand? arg).bind fun _ => .of_pure _).congr fun _ _ => rfl
  | receiveSelf result => exact (translates_renameVariable result).bind fun _ => .of_pure _
  | receiveArgument result index =>
      exact (translates_renameVariable result).bind fun _ => .of_pure _
  | receiveClosure result => exact (translates_renameVariable result).bind fun _ => .of_pure _
  | methodReturn value => exact (translates_renameOperand value).bind fun _ => .of_pure _
  | closureReturn value => exact (translates_renameOperand value).bind fun _ => .of_pure _
  | jump target => exact (translates_renameLabel target).bind fun _ => .of_pure _
  | branch condition target =>
      exact ((translates_renameOperand condition).bind fun _ =>
        (translates_renameLabel target).bind fun _ => .of_pure _).congr fun _ _ => rfl
  | nop => exact .of_pure _

end Steps

end FlowIR.Inlining
