import FlowIR.Proofs.Inlining.Tracking
import FlowIR.Proofs.Inlining.Upkeep

/-!
# Where the locals of a closure clash

A pass that moves a closure one scope up meets the variables of the closure one after the other.  It
fails only where a local becomes what another one has become already, so two of the locals that it
has met clash.  A pass that meets only locals that stay apart therefore never fails.
-/

namespace FlowIR.Inlining

/-- No two of the locals among some variables become one when they move one scope up. -/
def StayApart (met : Variable → Prop) : Prop :=
  ∀ a b, met (.named a) → met (.named b) →
    Mode.inlineClosure.local? a = Mode.inlineClosure.local? b → a = b

/-- The pass has met no other variables. -/
def Pass.MeetsOnly (met : Variable → Prop) (pass : Pass) : Prop :=
  ∀ v target, pass.vars.target? v = some target → met v

/-- The step meets no other variables.  It keeps the frame and the tables sound, and fails only
where two of the locals among these variables become one. -/
def Confined {α : Type} (base : Scope) (frame : Frame) (met : Variable → Prop)
    (step : Step α) : Prop :=
  ∀ pass, Named base pass → pass.frame = frame → pass.MeetsOnly met →
    Ensures step pass (fun _ after => (Named base after ∧ after.frame = frame) ∧
      after.MeetsOnly met) (fun _ _ => ¬ StayApart met)

namespace Confined

variable {α : Type} {base : Scope} {frame : Frame} {met : Variable → Prop} {step : Step α}

theorem maintains (confined : Confined base frame met step) :
    Maintains (fun pass => (Named base pass ∧ pass.frame = frame) ∧ pass.MeetsOnly met)
      (fun _ _ => ¬ StayApart met) step :=
  fun pass holds => confined pass holds.1.1 holds.1.2 holds.2

theorem of_maintains
    (maintained : Maintains (fun pass => (Named base pass ∧ pass.frame = frame) ∧
      pass.MeetsOnly met) (fun _ _ => ¬ StayApart met) step) :
    Confined base frame met step :=
  fun pass named frameEq only => maintained pass ⟨⟨named, frameEq⟩, only⟩

/-- A step that translates is confined where its only effect on the variables is. -/
theorem of_translates {image : Substitution → Nat → α × Nat}
    (translates : Translates base frame step image)
    (only : ∀ pass, Named base pass → pass.frame = frame → pass.MeetsOnly met →
      Ensures step pass (fun _ after => after.MeetsOnly met) (fun _ _ => ¬ StayApart met)) :
    Confined base frame met step := by
  intro pass named frameEq here
  apply ((translates pass named frameEq).and (only pass named frameEq here)).mono
  · exact fun _ _ done => ⟨⟨done.1.named, done.1.frame_eq⟩, done.2⟩
  · exact fun _ _ failed => failed.2

end Confined

/-! ## Naming -/

section Naming

variable {base : Scope} {frame : Frame} {met : Variable → Prop}

/-- A local is refused what it becomes only where another local has become that. -/
theorem Named.not_stayApart {pass : Pass} (named : Named base pass)
    (closure : pass.mode = .inlineClosure) (only : pass.MeetsOnly met) {v target : Variable}
    (allowed : met v) (absent : pass.vars.target? v = none)
    (settled : pass.mode.settled? v = some target) (taken : pass.vars.source? target ≠ none) :
    ¬ StayApart met := by
  intro apart
  obtain ⟨holder, found⟩ : ∃ holder, pass.vars.target? holder = some target := by
    by_contra unheld
    exact taken (named.vars_oneToOne.source?_eq_none fun other found => unheld ⟨other, found⟩)
  have held : pass.mode.settled? holder = some target := by
    rcases named.var_target holder target found with held | ⟨-, n, rfl, -⟩
    · exact held
    · exact absurd settled (Mode.settled?_ne_temporary _ _ _)
  have holderAllowed : met holder := only holder target found
  rw [closure] at settled held
  cases v with
  | temporary index => simp [Mode.settled?] at settled
  | named place =>
      cases holder with
      | temporary index => simp [Mode.settled?] at held
      | named other =>
          have same : place = other := by
            apply apart place other allowed holderAllowed
            exact Option.map_injective (fun _ _ => Variable.named.inj) (settled.trans held.symm)
          rw [same, found] at absent
          contradiction

/-- Recording a variable that is allowed meets no other, and fails only where it clashes. -/
theorem ensures_recordVariable_meetsOnly {pass middle : Pass} (named : Named base pass)
    (closure : pass.mode = .inlineClosure) (only : pass.MeetsOnly met) {v target : Variable}
    (allowed : met v) (absent : pass.vars.target? v = none) (sameVars : middle.vars = pass.vars)
    (meant : pass.mode.settled? v = some target ∨ target = .temporary pass.host.scope.nextTemp) :
    Ensures (recordVariable v target) middle (fun _ after => after.MeetsOnly met)
      (fun _ _ => ¬ StayApart met) := by
  unfold Ensures recordVariable
  rw [sameVars]
  cases inserted : pass.vars.insert Variable.render Variable.render v target with
  | ok vars =>
      intro other image found
      rw [Renaming.target?_of_insert inserted] at found
      split at found
      next here => exact here ▸ allowed
      next => exact only other image found
  | error fault =>
      have taken : pass.vars.source? target ≠ none := by
        intro free
        rcases Renaming.exists_insert_eq_ok absent free with ⟨vars, accepted⟩
        rw [accepted] at inserted
        contradiction
      rcases meant with settled | rfl
      · exact named.not_stayApart closure only allowed absent settled taken
      · exact absurd named.source?_nextTemp taken

variable (closure : frame.setting.mode = .inlineClosure)

include closure

theorem confined_renameVariable {v : Variable} (allowed : met v) :
    Confined base frame met (renameVariable v) := by
  apply Confined.of_translates (translates_renameVariable v)
  intro pass named frameEq only
  have passClosure : pass.mode = .inlineClosure := (congrArg (·.setting.mode) frameEq).trans closure
  unfold renameVariable
  apply Ensures.get_bind
  cases found : pass.vars.target? v with
  | some target => exact Ensures.of_pure only
  | none =>
      apply ((ensures_allocateVariable v pass).mono (fun _ _ done => done)
        (fun _ _ impossible => impossible.elim)).bind
      rintro target middle ⟨-, sameVars, -, -, -, meant⟩
      have settledOrNew := meant.imp And.left fun fresh => fresh.2.1
      apply (ensures_recordVariable_meetsOnly named passClosure only allowed found sameVars
        settledOrNew).bind
      exact fun _ _ recorded => Ensures.of_pure recorded

omit closure in
theorem confined_renameLabel (label : Label) : Confined base frame met (renameLabel label) := by
  intro pass named frameEq only
  apply (ensures_renameLabel label named frameEq).mono
  · rintro _ after ⟨done, sameVars⟩
    refine ⟨⟨done.named, done.frame_eq⟩, ?_⟩
    rw [Pass.MeetsOnly, sameVars]
    exact only
  · exact fun _ _ failed => failed

omit closure in
theorem confined_freshNil : Confined base frame met freshNil := by
  apply Confined.of_translates translates_freshNil
  exact fun _ _ _ only => only

omit closure in
theorem confined_boundYield {yielded : YieldBinding}
    (bound : frame.setting.yielded = some yielded) :
    Confined base frame met boundYield := by
  apply Confined.of_maintains
  apply Maintains.boundYield
  rintro pass ⟨⟨-, rfl⟩, -⟩
  exact ⟨yielded, bound⟩

/-- Naming what is allowed is confined. -/
theorem upholds_confined :
    Upholds met (fun pass => (Named base pass ∧ pass.frame = frame) ∧ pass.MeetsOnly met)
      fun _ _ => ¬ StayApart met where
  renameVariable := fun _ allowed => (confined_renameVariable closure allowed).maintains
  renameLabel := fun label => (confined_renameLabel label).maintains
  freshNil := confined_freshNil.maintains

theorem confined_renameOperand? {operand : Option Operand}
    (allowed : ∀ v, operand = some (.var v) → met v) :
    Confined base frame met (renameOperand? operand) :=
  .of_maintains ((upholds_confined closure).renameOperand? allowed)

/-! ## Instructions -/

theorem confined_cloneAll {yielded : YieldBinding} (bound : frame.setting.yielded = some yielded)
    {instrs : List Instr} (allowed : ∀ instr ∈ instrs, ∀ v, .var v ∈ instr.mentions → met v) :
    Confined base frame met (cloneAll cloneForYield instrs) := by
  apply Confined.of_maintains
  apply Maintains.cloneAll
  intro instr member
  exact (upholds_confined closure).cloneForYield (allowed instr member)
    (confined_boundYield bound).maintains

theorem confined_renameAhead {instrs : List Instr}
    (allowed : ∀ instr ∈ instrs, ∀ v, .var v ∈ instr.mentions → met v) :
    Confined base frame met (renameAhead instrs) :=
  .of_maintains ((upholds_confined closure).renameAhead allowed)

end Naming

/-! ## Blocks and bodies -/

section Bodies

variable {base : Scope} {setting : Setting} {met : Variable → Prop}

/-- Moving a block meets only the variables that it mentions, and fails only
where two locals clash. -/
theorem ensures_migrate_meetsOnly {yielded : YieldBinding} (bound : setting.yielded = some yielded)
    (closure : setting.mode = .inlineClosure) {source : Block} {pass : Pass}
    (live : source.live = true) (allowed : ∀ v, .var v ∈ source.mentions → met v)
    (ready : Ready base setting source pass) (only : pass.MeetsOnly met) :
    Ensures (migrate source) pass (fun _ after => after.MeetsOnly met)
      (fun _ _ => ¬ StayApart met) := by
  have mentioned : ∀ instr ∈ source.instrs, ∀ v, .var v ∈ instr.mentions → met v :=
    fun instr member v here => allowed v (List.mem_flatMap.mpr ⟨instr, member, here⟩)
  unfold migrate
  apply ensures_place_bind ready (fun g label free => adoptBlock_emptied live free)
  intro target label placing placed sameVars
  obtain rfl := placed.target_eq
  have settingEq : placing.setting = setting := placed.setting_eq.trans ready.setting_eq
  have placedOnly : placing.MeetsOnly met := by
    rw [Pass.MeetsOnly, sameVars]
    exact only
  have placedClosure : placing.frame.setting.mode = .inlineClosure := by
    rw [show placing.frame.setting = setting from settingEq]
    exact closure
  have placedBound : placing.frame.setting.yielded = some yielded := by
    rw [show placing.frame.setting = setting from settingEq]
    exact bound
  apply (confined_renameAhead placedClosure mentioned placing placed.named rfl placedOnly).bind
  rintro _ ahead ⟨⟨aheadNamed, aheadFrame⟩, aheadOnly⟩
  apply (confined_cloneAll placedClosure placedBound mentioned ahead aheadNamed aheadFrame
    aheadOnly).bind
  rintro instrs cloned ⟨⟨-, clonedFrame⟩, clonedOnly⟩
  have clonedGraph : cloned.graph =
      pass.graph.register { id := pass.graph.freshId, label := label } :=
    (congrArg Frame.graph clonedFrame).trans placed.graph_eq
  have edited : Graph.editBlock pass.graph.freshId (·.withInstrs instrs) cloned.graph =
      .ok () (pass.graph.register
        { id := pass.graph.freshId, label := label, instrs := instrs }) := by
    rw [clonedGraph]
    exact ready.wellFormed.editBlock_register rfl rfl
  apply ensures_onGraph_bind edited
  exact Ensures.of_pure clonedOnly

end Bodies

end FlowIR.Inlining
