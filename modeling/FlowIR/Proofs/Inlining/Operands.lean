import FlowIR.Proofs.Inlining.Context

/-!
# Operands and their clones

What an instruction reads, writes and where it may jump is listed in one place, and how it is
renamed is said in another one.  The two agree: a clone that is only renamed lists what the tables
of the pass make of what the instruction lists, in the same order.

Renaming ahead depends on the same agreement.  Once all that is listed has a name, a closure that
takes the place of a yield is carried over without another variable being met, so neither does the
host hand out storage nor can two names clash.
-/

namespace FlowIR.Inlining

/-! ## What the tables make of a clone -/

/-- The clone reads, writes and jumps to what the tables of the pass make of what the instruction
reads, writes and jumps to. -/
structure Pass.Renders (pass : Pass) (instr clone : Instr) : Prop where
  operands_eq : clone.operands.map some = instr.operands.map pass.operand?
  result_eq : clone.result?.map some = instr.result?.map pass.vars.target?
  jumpTarget_eq : clone.jumpTarget?.map some = instr.jumpTarget?.map pass.labels.target?

namespace Pass

variable {pass : Pass}

/-- What every substitution that agrees with the tables makes of some operands
stands in the tables. -/
theorem map_operand?_of_agrees {sources images : List Operand}
    (always : ∀ σ, pass.Agrees σ → images = sources.map σ.operand) :
    images.map some = sources.map pass.operand? := by
  induction sources generalizing images with
  | nil =>
      obtain rfl : images = [] := always _ pass.agrees_substitution
      rfl
  | cons source rest ih =>
      cases images with
      | nil => exact absurd (always _ pass.agrees_substitution) (List.cons_ne_nil _ _).symm
      | cons image others =>
          have head : pass.operand? source = some image :=
            operand?_of_agrees fun σ agrees => (List.cons.inj (always σ agrees)).1
          have tail : others.map some = rest.map pass.operand? :=
            ih fun σ agrees => (List.cons.inj (always σ agrees)).2
          rw [List.map_cons, List.map_cons, head, tail]

/-- What every substitution that agrees with the tables says of a variable stands in the table. -/
theorem var_target?_of_agrees {v target : Variable}
    (always : ∀ σ, pass.Agrees σ → σ.var v = target) :
    pass.vars.target? v = some target := by
  obtain ⟨known, found⟩ := knows_of_agrees always
  rw [found, ← always _ pass.agrees_substitution, pass.agrees_substitution.var v known found]

theorem renders_of_agrees {instr clone : Instr}
    (always : ∀ σ, pass.Agrees σ → clone = σ.instr instr) : pass.Renders instr clone where
  operands_eq := by
    apply map_operand?_of_agrees
    intro σ agrees
    rw [always σ agrees, Substitution.instr, Instr.operands_mapNames]
    rfl
  result_eq := by
    have result : ∀ σ, pass.Agrees σ → clone.result? = instr.result?.map σ.var := by
      intro σ agrees
      rw [always σ agrees, Substitution.instr, Instr.result?_mapNames]
    have here := result _ pass.agrees_substitution
    cases written : instr.result? with
    | none => simp [here, written]
    | some v =>
        have target : pass.vars.target? v = some (pass.substitution.var v) := by
          apply var_target?_of_agrees
          intro σ agrees
          have same := (result σ agrees).symm.trans here
          simpa [written] using same
        simp [here, written, target]
  jumpTarget_eq := by
    have jump : ∀ σ, pass.Agrees σ → clone.jumpTarget? = instr.jumpTarget?.map σ.label := by
      intro σ agrees
      rw [always σ agrees, Substitution.instr, Instr.jumpTarget?_mapNames]
    have here := jump _ pass.agrees_substitution
    cases taken : instr.jumpTarget? with
    | none => simp [here, taken]
    | some label =>
        have target : pass.labels.target? label = some (pass.substitution.label label) := by
          apply target?_of_agrees
          intro σ agrees
          have same := (jump σ agrees).symm.trans here
          simpa [taken] using same
        simp [here, taken, target]

end Pass

/-- A clone that is only renamed lists what the tables make of what the instruction lists. -/
theorem Way.exists_renders {way : Way} {instr : Instr} (renames : way.renames instr = true)
    {pass after : Pass} (arises : pass.Arises) {value : Option Instr}
    (cloned : way.clone instr pass = .ok value after) :
    ∃ clone, value = some clone ∧ after.Renders instr clone := by
  rw [clone_eq_of_renames renames] at cloned
  have kept := (translates_kept instr pass arises.named rfl).of_ok cloned
  have image : ∀ σ, after.Agrees σ → value = some (σ.instr instr) :=
    fun σ agrees => (Prod.mk.inj (kept.image_eq σ agrees)).1
  cases value with
  | none => exact absurd (image _ after.agrees_substitution) (Option.some_ne_none _).symm
  | some clone =>
      exact ⟨clone, rfl, Pass.renders_of_agrees fun σ agrees => Option.some.inj (image σ agrees)⟩

/-! ## Once all is renamed -/

/-- Between the two, a pass has met no variable, and its host has handed out no storage: nothing of
it has changed but the labels that are renamed and the literals that are new. -/
structure Pass.SameStorage (before after : Pass) : Prop where
  frame_eq : after.frame = before.frame
  vars_eq : after.vars = before.vars
  locals_eq : after.host.scope.locals = before.host.scope.locals
  nextTemp_eq : after.host.scope.nextTemp = before.host.scope.nextTemp

/-- Where only variables are renamed that have been renamed before, nothing fails and no
storage is handed out. -/
theorem upholds_sameStorage (base : Scope) (start : Pass) :
    Upholds start.Knows (fun pass => Named base pass ∧ start.SameStorage pass)
      fun _ _ => False where
  renameVariable := by
    rintro v ⟨target, found⟩ pass ⟨named, same⟩
    have known : renameVariable v pass = .ok target pass := by
      simp [renameVariable, same.vars_eq, found]
    exact Ensures.of_eq_ok known ⟨named, same⟩
  renameLabel := by
    rintro label pass ⟨named, same⟩
    let kept (host : Host) : Prop :=
      host.scope.locals = pass.host.scope.locals ∧ host.scope.nextTemp = pass.host.scope.nextTemp
    have storage := keeps_renameLabel kept (fun _ unchanged => unchanged) label pass ⟨rfl, rfl⟩
    have labelled : Ensures (renameLabel label) pass _ fun _ _ => False :=
      ensures_renameLabel label named rfl
    apply (labelled.and storage).mono
    · rintro target after ⟨⟨done, sameVars⟩, sameLocals, sameTemps⟩
      exact ⟨done.named, done.frame_eq.trans same.frame_eq, sameVars.trans same.vars_eq,
        sameLocals.trans same.locals_eq, sameTemps.trans same.nextTemp_eq⟩
    · exact fun _ _ impossible => impossible.1
  freshNil := by
    rintro pass ⟨named, same⟩
    have named' : Named base { pass with host := pass.host.freshNil.2 } :=
      named.of_same_tables rfl rfl rfl (Nat.le_refl _) (Nat.le_refl _)
    exact ⟨named', same.frame_eq, same.vars_eq, same.locals_eq, same.nextTemp_eq⟩

/-- Once all variables have been renamed, the instructions of a closure are carried over without
fail, and without storage. -/
theorem exists_cloneAll_sameStorage {base : Scope} {pass : Pass} (named : Named base pass)
    (bound : ∃ yielded, pass.yielded = some yielded) {instrs : List Instr}
    (known : ∀ instr ∈ instrs, ∀ v, .var v ∈ instr.mentions → pass.Knows v) :
    ∃ images after, cloneAll cloneForYield instrs pass = .ok images after ∧
      pass.SameStorage after := by
  have upholds := upholds_sameStorage base pass
  have binds : Maintains (fun after => Named base after ∧ pass.SameStorage after) (fun _ _ => False)
      boundYield := by
    apply Maintains.boundYield
    rintro after ⟨-, same⟩
    rcases bound with ⟨yielded, here⟩
    exact ⟨yielded, (congrArg (·.setting.yielded) same.frame_eq).trans here⟩
  have cloned :=
    Maintains.cloneAll (fun instr member => upholds.cloneForYield (known instr member) binds)
    pass ⟨named, rfl, rfl, rfl, rfl⟩
  cases outcome : cloneAll cloneForYield instrs pass with
  | ok images after => exact ⟨images, after, rfl, (cloned.of_ok outcome).2⟩
  | error fault after => exact (cloned.of_error outcome).elim

/-! ## Renaming ahead -/

/-- Between the two, the variables among the operands have been renamed. -/
structure Pass.Meets (base : Scope) (operands : List Operand) (before after : Pass) : Prop where
  named : Named base after
  grows : before.Grows after
  knows : ∀ v, .var v ∈ operands → after.Knows v

section Ahead

variable {base : Scope} {pass middle after : Pass}

theorem Pass.Meets.nil (named : Named base pass) : pass.Meets base [] pass where
  named := named
  grows := .refl pass
  knows := fun _ absent => absurd absent List.not_mem_nil

theorem Pass.Meets.append {first second : List Operand} (one : pass.Meets base first middle)
    (other : middle.Meets base second after) : pass.Meets base (first ++ second) after where
  named := other.named
  grows := one.grows.trans other.grows
  knows := by
    intro v member
    rcases List.mem_append.mp member with earlier | later
    · exact other.grows.knows (one.knows v earlier)
    · exact other.knows v later

theorem ensures_renameVariable_meets (named : Named base pass) (v : Variable) :
    Ensures (renameVariable v) pass (fun _ => pass.Meets base [.var v]) fun _ _ => True := by
  apply (translates_renameVariable v pass named rfl).mono
  · intro target after done
    refine ⟨done.named, done.grows, ?_⟩
    rintro _ here
    obtain rfl := Operand.var.inj (List.mem_singleton.mp here)
    exact Pass.knows_of_agrees fun σ agrees => (Prod.mk.inj (done.image_eq σ agrees)).1.symm
  · exact fun _ _ _ => trivial

theorem ensures_renameVariable?_meets (named : Named base pass) (v : Option Variable) :
    Ensures (renameVariable? v) pass (fun _ => pass.Meets base (v.map Operand.var).toList)
      fun _ _ => True := by
  cases v with
  | none => exact Ensures.of_pure (.nil named)
  | some v => exact (ensures_renameVariable_meets named v).bind fun _ _ met => Ensures.of_pure met

theorem ensures_renameMentioned_meets (named : Named base pass) (operands : List Operand) :
    Ensures (renameMentioned operands) pass (fun _ => pass.Meets base operands)
      fun _ _ => True := by
  induction operands generalizing pass with
  | nil => exact Ensures.of_pure (.nil named)
  | cons operand rest ih =>
      cases operand with
      | var v =>
          apply (ensures_renameVariable_meets named v).bind
          intro _ middle one
          apply (ih one.named).mono
          · exact fun _ _ other => one.append other
          · exact fun _ _ _ => trivial
      | label label =>
          exact (ih named).mono (fun _ _ met => ⟨met.named, met.grows, by simpa using met.knows⟩)
            fun _ _ _ => trivial
      | lit literal =>
          exact (ih named).mono (fun _ _ met => ⟨met.named, met.grows, by simpa using met.knows⟩)
            fun _ _ _ => trivial

/-- Renaming ahead, where it succeeds, renames all variables that the instructions read or write. -/
theorem ensures_renameAhead_meets (named : Named base pass) (instrs : List Instr) :
    Ensures (renameAhead instrs) pass (fun _ => pass.Meets base (instrs.flatMap Instr.mentions))
      fun _ _ => True := by
  induction instrs generalizing pass with
  | nil => exact Ensures.of_pure (.nil named)
  | cons instr rest ih =>
      apply (ensures_renameMentioned_meets named instr.operands).bind
      intro _ read reads
      apply (ensures_renameVariable?_meets reads.named instr.result?).bind
      intro _ written writes
      apply (ih writes.named).mono
      · exact fun _ _ others => (reads.append writes).append others
      · exact fun _ _ _ => trivial

end Ahead

/-! ## Agreement -/

/-- What is listed of an instruction and what is carried over of it are the same. -/
structure Pass.OperandsAgree (pass : Pass) : Prop where
  /-- A clone that is only renamed lists what the tables make of what the instruction lists. -/
  renders : ∀ (way : Way) (instr : Instr), way.renames instr = true →
    ∀ value after, way.clone instr pass = .ok value after →
      ∃ clone, value = some clone ∧ after.Renders instr clone
  /-- Once all that is listed has been renamed, no more names are needed in the place of a yield. -/
  settled : (∃ yielded, pass.yielded = some yielded) →
    ∀ instrs : List Instr, (∀ instr ∈ instrs, ∀ v, .var v ∈ instr.mentions → pass.Knows v) →
      ∃ images after, cloneAll cloneForYield instrs pass = .ok images after ∧ pass.SameStorage after
  /-- Renaming ahead is enough for that. -/
  ahead : (∃ yielded, pass.yielded = some yielded) →
    ∀ (instrs : List Instr) (middle : Pass), renameAhead instrs pass = .ok () middle →
      ∃ images after, cloneAll cloneForYield instrs middle = .ok images after ∧
      middle.SameStorage after

/-- In every pass that arises, listing and carrying over agree. -/
theorem operands_agree {pass : Pass} (arises : pass.Arises) : pass.OperandsAgree where
  renders := fun _ _ renames _ _ cloned => Way.exists_renders renames arises cloned
  settled := fun bound _ known => exists_cloneAll_sameStorage arises.named bound known
  ahead := by
    rintro ⟨yielded, bound⟩ instrs middle renamed
    have met := (ensures_renameAhead_meets arises.named instrs).of_ok renamed
    have done := (translates_renameAhead instrs pass arises.named rfl).of_ok renamed
    have stillBound : middle.yielded = some yielded :=
      (congrArg (·.setting.yielded) done.frame_eq).trans bound
    apply exists_cloneAll_sameStorage met.named ⟨yielded, stillBound⟩
    exact fun instr member v mentioned =>
      met.knows v (List.mem_flatMap.mpr ⟨instr, member, mentioned⟩)

/-- A pass that puts a closure in the place of the yield of `sampleHost`. -/
def samplePass : Pass :=
  .forClosure ⟨some (.var (.temporary 0)), some (.temporary 1)⟩ sampleHost

/-- The sample pass renames the names in `sampleClosure` ahead, and then carries
its instructions over. -/
theorem operands_agree_samplePass :
    samplePass.Arises ∧ samplePass.OperandsAgree ∧
      ∃ middle images after,
        renameAhead (sampleClosure.blocks.flatMap (·.instrs)) samplePass = .ok () middle ∧
        cloneAll cloneForYield (sampleClosure.blocks.flatMap (·.instrs)) middle = .ok images after ∧
        images = [.copy (.named ⟨"y", 1⟩) (.var (.temporary 0)),
          .copy (.temporary 1) (.var (.named ⟨"y", 1⟩))] := by
  have arises : samplePass.Arises := .start ⟨rfl, rfl, rfl⟩
  exact ⟨arises, operands_agree arises, _, _, _, rfl, rfl, rfl⟩

end FlowIR.Inlining
