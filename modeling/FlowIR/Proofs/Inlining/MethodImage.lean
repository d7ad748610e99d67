import FlowIR.Proofs.Inlining.Outcome
import FlowIR.Proofs.Inlining.Transformations
import Mathlib.Data.Countable.Basic
import Mathlib.Data.Set.Finite.Basic
import Mathlib.Data.Set.Countable
import Mathlib.Logic.Equiv.List

/-!
# An inlined method is a renamed image

A pass only knows the names that it has met.  Its tables are extended to one substitution of all
variables and labels: names that were never met take spare targets, of which there are infinitely
many, so the substitution is one-to-one.  Under this substitution the method's body stands in the
host.
-/

namespace FlowIR

/-! ## Extending one-to-one tables -/

/-- A one-to-one renaming extends to all names, when there are infinitely many targets to spare. -/
theorem Renaming.OneToOne.exists_injective {α β : Type} [DecidableEq α] [DecidableEq β]
    [Countable α] {names : Renaming α β} (oneToOne : names.OneToOne) {spare : Set β}
    (infinite : spare.Infinite)
    (apart : ∀ source target, names.target? source = some target → target ∉ spare) :
    ∃ rename : α → β, Function.Injective rename ∧
      (∀ source target, names.target? source = some target → rename source = target) ∧
      ∀ source, names.target? source = none → rename source ∈ spare := by
  rcases exists_injective_nat α with ⟨code, codeInjective⟩
  let pick : Nat ↪ spare := infinite.natEmbedding
  refine ⟨fun source => (names.target? source).getD (pick (code source)), ?_, ?_, ?_⟩
  · intro source other same
    dsimp only at same
    cases known : names.target? source with
    | some target =>
        cases otherKnown : names.target? other with
        | some otherTarget =>
            rw [known, otherKnown, Option.getD_some, Option.getD_some] at same
            subst same
            exact oneToOne.source_eq known otherKnown
        | none =>
            rw [known, otherKnown, Option.getD_some, Option.getD_none] at same
            exact absurd (same ▸ (pick (code other)).2) (apart source target known)
    | none =>
        cases otherKnown : names.target? other with
        | some otherTarget =>
            rw [known, otherKnown, Option.getD_some, Option.getD_none] at same
            exact absurd (same ▸ (pick (code source)).2) (apart other otherTarget otherKnown)
        | none =>
            rw [known, otherKnown, Option.getD_none, Option.getD_none] at same
            exact codeInjective (pick.injective (Subtype.ext same))
  · intro source target known
    simp [known]
  · intro source unknown
    simp [unknown]

instance countableString : Countable String :=
  have : Countable Char :=
    Function.Injective.countable (f := Char.toNat) fun _ _ same => Char.toNat_inj.mp same
  Function.Injective.countable (f := String.toList) fun _ _ same => String.toList_injective same

instance Label.countable : Countable Label :=
  Function.Injective.countable (f := Label.name) fun ⟨_⟩ ⟨_⟩ same => congrArg Label.mk same

instance Local.countable : Countable Local :=
  Function.Injective.countable (f := fun place => (place.name, place.depth))
    fun ⟨_, _⟩ ⟨_, _⟩ same => congrArg (fun parts => Local.mk parts.1 parts.2) same

/-- A variable is a local or the index of a temporary. -/
def Variable.code : Variable → Local ⊕ Nat
  | .named place => .inl place
  | .temporary index => .inr index

instance Variable.countable : Countable Variable :=
  Function.Injective.countable (f := Variable.code) fun
    | .named _, .named _, same => congrArg Variable.named (Sum.inl.inj same)
    | .temporary _, .temporary _, same => congrArg Variable.temporary (Sum.inr.inj same)

namespace Inlining

/-- Only finitely many labels are bound. -/
theorem finite_binds (g : Graph) : {label | g.binds label = true}.Finite := by
  apply (List.finite_toSet (g.labels.map (·.1))).subset
  intro label bound
  exact Scope.mem_labels_of_binds bound

/-- Every other number from `floor` on.  Numbers with offset zero and with offset one are apart. -/
def spareNumbers (floor offset : Nat) : Set Nat :=
  Set.range fun k => floor + offset + 2 * k

theorem infinite_spareNumbers (floor offset : Nat) : (spareNumbers floor offset).Infinite := by
  apply Set.infinite_range_of_injective
  intro k l same
  dsimp only at same
  omega

theorem le_of_mem_spareNumbers {floor offset n : Nat} (member : n ∈ spareNumbers floor offset) :
    floor ≤ n := by
  rcases member with ⟨k, rfl⟩
  dsimp only
  omega

variable {base : Scope} {pass : Pass}

/-- Every variable for which its mode settles nothing gets a temporary of its own: the one that the
pass has handed out for it, or, where the pass has not met the variable, one with a spare index. -/
theorem Named.exists_var_sparing (named : Named base pass) {spare : Set Nat}
    (infinite : spare.Infinite) (above : ∀ n ∈ spare, pass.host.scope.nextTemp ≤ n) :
    ∃ var : Variable → Variable, Function.Injective var ∧
      (∀ v target, pass.vars.target? v = some target → var v = target) ∧
      ∀ v, pass.mode.settled? v = none → ∃ n, var v = .temporary n ∧
        (base.nextTemp ≤ n ∧ n < pass.host.scope.nextTemp ∨ n ∈ spare) := by
  have infiniteTemps : (Variable.temporary '' spare).Infinite :=
    infinite.image fun _ _ _ _ same => Variable.temporary.inj same
  have apart : ∀ v target, pass.vars.target? v = some target →
      target ∉ Variable.temporary '' spare := by
    rintro v target known ⟨k, member, rfl⟩
    rcases named.var_target v _ known with settled | ⟨-, n, same, -, below⟩
    · exact Mode.settled?_ne_temporary _ _ _ settled
    · rw [← Variable.temporary.inj same] at below
      exact Nat.not_lt_of_le (above k member) below
  obtain ⟨var, injective, extends_, others⟩ :=
    named.vars_oneToOne.exists_injective infiniteTemps apart
  refine ⟨var, injective, extends_, ?_⟩
  intro v unsettled
  cases known : pass.vars.target? v with
  | some target =>
      rcases named.var_target v target known with settled | ⟨-, n, rfl, bounds⟩
      · rw [unsettled] at settled
        contradiction
      · exact ⟨n, extends_ v _ known, .inl bounds⟩
  | none =>
      rcases others v known with ⟨k, member, same⟩
      exact ⟨k, same.symm, .inr member⟩

/-- Every variable for which its mode settles nothing gets a temporary of its own that the
host had not handed out. -/
theorem Named.exists_unsettled_var (named : Named base pass) :
    ∃ var : Variable → Variable, Function.Injective var ∧
      (∀ v target, pass.vars.target? v = some target → var v = target) ∧
      ∀ v, pass.mode.settled? v = none → ∃ n, var v = .temporary n ∧ base.nextTemp ≤ n := by
  obtain ⟨var, injective, extends_, new⟩ :=
    named.exists_var_sparing (infinite_spareNumbers pass.host.scope.nextTemp 0)
      fun _ => le_of_mem_spareNumbers
  refine ⟨var, injective, extends_, ?_⟩
  intro v unsettled
  rcases new v unsettled with ⟨n, same, known | spare⟩
  · exact ⟨n, same, known.1⟩
  · exact ⟨n, same, Nat.le_trans named.nextTemp_le (le_of_mem_spareNumbers spare)⟩

/-- Every variable of a method gets a temporary of its own that the host had not handed out. -/
theorem Named.exists_var (named : Named base pass) (method : pass.mode = .inlineMethod) :
    ∃ var : Variable → Variable, Function.Injective var ∧
      (∀ v target, pass.vars.target? v = some target → var v = target) ∧
      ∀ v, ∃ n, var v = .temporary n ∧ base.nextTemp ≤ n := by
  rcases named.exists_unsettled_var with ⟨var, injective, extends_, new⟩
  refine ⟨var, injective, extends_, fun v => new v ?_⟩
  rw [method]
  cases v <;> rfl

/-- Every label of a body gets a label of its own that no block carried at the start:
the one that the pass has handed out for it, or, where the pass has not met the label,
one with a spare number. -/
theorem Named.exists_label_sparing (named : Named base pass) {spare : Set Nat}
    (infinite : spare.Infinite) (above : ∀ n ∈ spare, pass.host.scope.nextLabel ≤ n) :
    ∃ label : Label → Label, Function.Injective label ∧
      (∀ source target, pass.labels.target? source = some target → label source = target) ∧
      ∀ source, base.graph.binds (label source) = false ∧ ∃ n, label source = .numbered n ∧
        (base.nextLabel ≤ n ∧ n < pass.host.scope.nextLabel ∨ n ∈ spare) := by
  let free : Set Label := Label.numbered '' spare \ {label | base.graph.binds label = true}
  have infiniteFree : free.Infinite :=
    (infinite.image fun _ _ _ _ same => Label.numbered_inj.mp same).sdiff (finite_binds base.graph)
  have apart : ∀ source target, pass.labels.target? source = some target → target ∉ free := by
    rintro source target known ⟨⟨k, member, rfl⟩, -⟩
    rcases named.label_target source _ known with ⟨⟨n, same, -, below⟩, -⟩
    rw [← Label.numbered_inj.mp same] at below
    exact Nat.not_lt_of_le (above k member) below
  obtain ⟨label, injective, extends_, others⟩ :=
    named.labels_oneToOne.exists_injective infiniteFree apart
  refine ⟨label, injective, extends_, ?_⟩
  intro source
  cases known : pass.labels.target? source with
  | some target =>
      rw [extends_ source target known]
      rcases named.label_target source target known with ⟨⟨n, same, bounds⟩, unbound⟩
      exact ⟨unbound, n, same, .inl bounds⟩
  | none =>
      rcases others source known with ⟨⟨n, member, same⟩, unbound⟩
      exact ⟨Bool.eq_false_iff.mpr unbound, n, same.symm, .inr member⟩

/-- Every label of a body gets a label of its own that no block carried at the start. -/
theorem Named.exists_label (named : Named base pass) :
    ∃ label : Label → Label, Function.Injective label ∧
      (∀ source target, pass.labels.target? source = some target → label source = target) ∧
      ∀ source, base.graph.binds (label source) = false := by
  obtain ⟨label, injective, extends_, new⟩ :=
    named.exists_label_sparing (infinite_spareNumbers pass.host.scope.nextLabel 0)
      fun _ => le_of_mem_spareNumbers
  exact ⟨label, injective, extends_, fun source => (new source).1⟩

/-! ## The image -/

variable {policy : Policy} {host after : Host} {callee : Graph} {block : BlockId} {call : Instr}
  {report : Report}

/-- An inlined method stands in the host as its image under one substitution, which gives every
variable a new temporary and every label a label that was free in the host. -/
theorem inlineMethod_image (wf : host.scope.graph.WellFormed) (calleeWf : callee.WellFormed)
    (inlined : inlineMethod policy callee block call host = .ok (.inlined report) after) :
    ∃ binding σ, CallBinding.of? call = some binding ∧
      BodyImage binding.rule host callee report after σ ∧
      Function.Injective σ.var ∧ (∀ v, ∃ n, σ.var v = .temporary n ∧ host.scope.nextTemp ≤ n) ∧
      Function.Injective σ.label ∧ ∀ label, host.scope.graph.binds (σ.label label) = false := by
  rcases (ensures_inlineMethod wf calleeWf).of_ok inlined with ⟨-, binding, bound, ⟨splicing⟩⟩
  have named := splicing.carried.named
  have method : splicing.pass.mode = .inlineMethod :=
    congrArg Setting.mode splicing.carried.setting_eq
  rcases named.exists_var method with ⟨var, varInjective, varExtends, varNew⟩
  rcases named.exists_label with ⟨label, labelInjective, labelExtends, labelFree⟩
  let σ : Substitution := { splicing.pass.substitution with var := var, label := label }
  have agrees : splicing.pass.Agrees σ :=
    ⟨splicing.pass.agrees_substitution.block, varExtends, labelExtends⟩
  refine ⟨binding, σ, bound, splicing.bodyImage wf calleeWf agrees, varInjective, varNew,
    labelInjective, ?_⟩
  intro source
  apply Bool.eq_false_iff.mpr
  intro old
  have openedBound := (Graph.binds_opened (.numbered host.scope.labelNumber) splicing.pre
    splicing.post block (label source)).mpr (.inl old)
  exact Bool.eq_false_iff.mp (labelFree source) openedBound

/-- The method of the sample, whose blocks branch ahead and miss their argument. -/
theorem inlineMethod_image_sample :
    sampleHost.scope.graph.WellFormed ∧ sampleMethod.WellFormed ∧ ∃ report after,
      inlineMethod samplePolicy sampleMethod ⟨0, 0⟩ sampleCall sampleHost =
        .ok (.inlined report) after ∧
      ∃ binding σ, CallBinding.of? sampleCall = some binding ∧
        BodyImage binding.rule sampleHost sampleMethod report after σ ∧
        Function.Injective σ.var ∧
        (∀ v, ∃ n, σ.var v = .temporary n ∧ sampleHost.scope.nextTemp ≤ n) ∧
        Function.Injective σ.label ∧
        ∀ label, sampleHost.scope.graph.binds (σ.label label) = false := by
  have wf : sampleHost.scope.graph.WellFormed := by decide +kernel
  have methodWf : sampleMethod.WellFormed := by decide +kernel
  obtain ⟨report, inlined⟩ := HostStep.exists_report
    (inlineMethod samplePolicy sampleMethod ⟨0, 0⟩ sampleCall) sampleHost (by decide +kernel)
  exact ⟨wf, methodWf, report, _, inlined, inlineMethod_image wf methodWf inlined⟩

end Inlining

end FlowIR
