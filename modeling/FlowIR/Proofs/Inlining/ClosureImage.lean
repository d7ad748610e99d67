import FlowIR.Proofs.Inlining.MethodImage

/-!
# An inlined closure is the closure moved one scope up

The locals of a closure are renamed by their depth alone, so the substitution is known on all of
them; on temporaries and labels the tables of the pass are extended as for a method.  The
substitution is one-to-one on all temporaries and on the locals that occur in the live part of the
closure, because the pass has met each of these and would have failed where two of them became one.
-/

namespace FlowIR.Inlining

/-- A local of the closure moves one scope up, and no further than the host. -/
def Local.raised (place : Local) : Local :=
  ⟨place.name, if 1 < place.depth then place.depth - 1 else 1⟩

theorem Mode.local?_inlineClosure (place : Local) :
    Mode.inlineClosure.local? place = some (Local.raised place) := by
  have nearest : max (if 1 < place.depth then place.depth - 1 else 1) 1 =
      if 1 < place.depth then place.depth - 1 else 1 := by
    split <;> omega
  simp [local?, Local.raised, Local.atDepth, nearest]

/-- What the variables of an inlined closure become, given what its temporaries become. -/
def raise (temp : Variable → Variable) : Variable → Variable
  | .named place => .named (Local.raised place)
  | .temporary index => temp (.temporary index)

/-- Locals that stay apart and temporaries that get temporaries of their own are not mixed up. -/
theorem injOn_raise {temp : Variable → Variable} {body : Graph}
    (injective : Function.Injective temp)
    (new : ∀ index, ∃ n, temp (.temporary index) = .temporary n) (apart : LocalsApart body) :
    Set.InjOn (raise temp) {v | v.local? = none ∨ .var v ∈ liveMentions body} := by
  intro v occurs w otherOccurs same
  cases v with
  | temporary index =>
      cases w with
      | temporary other => exact injective same
      | named place =>
          rcases new index with ⟨n, isTemp⟩
          rw [raise, raise, isTemp] at same
          contradiction
  | named place =>
      cases w with
      | temporary index =>
          rcases new index with ⟨n, isTemp⟩
          rw [raise, raise, isTemp] at same
          contradiction
      | named other =>
          have mentioned := occurs.resolve_left nofun
          have otherMentioned := otherOccurs.resolve_left nofun
          apply congrArg Variable.named
          apply apart place other mentioned otherMentioned
          rw [Mode.local?_inlineClosure, Mode.local?_inlineClosure, Variable.named.inj same]

variable {policy : Policy} {host after : Host} {closure : Graph} {block : BlockId}
  {yielding : Instr} {report : Report}

/-- An inlined closure stands in the host as its image under one substitution.  Locals move one
scope up, temporaries become new temporaries, and no two variables that occur in the live part of
the closure become one; every label becomes a label that was free in the host. -/
theorem inlineClosure_image (wf : host.scope.graph.WellFormed) (closureWf : closure.WellFormed)
    (inlined : inlineClosure policy closure block yielding host = .ok (.inlined report) after) :
    ∃ binding σ, YieldBinding.of? yielding = some binding ∧
      BodyImage binding.rule host closure report after σ ∧
      (∀ name depth, σ.var (.named ⟨name, depth⟩) =
        .named ⟨name, if 1 < depth then depth - 1 else 1⟩) ∧
      (∀ index, ∃ n, σ.var (.temporary index) = .temporary n ∧ host.scope.nextTemp ≤ n) ∧
      Set.InjOn σ.var {v | v.local? = none ∨ .var v ∈ liveMentions closure} ∧
      Function.Injective σ.label ∧ ∀ label, host.scope.graph.binds (σ.label label) = false := by
  rcases (ensures_inlineClosure wf closureWf).of_ok inlined with
    ⟨⟨-, apart⟩, binding, bound, ⟨splicing⟩⟩
  have named := splicing.carried.named
  have mode : splicing.pass.mode = .inlineClosure :=
    congrArg Setting.mode splicing.carried.setting_eq
  rcases named.exists_unsettled_var with ⟨temp, tempInjective, tempExtends, tempNew⟩
  have new : ∀ index, ∃ n, temp (.temporary index) = .temporary n ∧ host.scope.nextTemp ≤ n :=
    fun index => tempNew _ rfl
  rcases named.exists_label with ⟨label, labelInjective, labelExtends, labelFree⟩
  let σ : Substitution :=
    { splicing.pass.substitution with var := raise temp, label := label }
  have varExtends : ∀ v target, splicing.pass.vars.target? v = some target →
      raise temp v = target := by
    intro v target known
    cases v with
    | temporary index => exact tempExtends _ target known
    | named place =>
        rcases named.var_target _ target known with settled | ⟨unsettled, -⟩
        · rw [mode, Mode.settled?, Mode.local?_inlineClosure] at settled
          exact Option.some.inj settled
        · rw [mode] at unsettled
          contradiction
  have agrees : splicing.pass.Agrees σ :=
    ⟨splicing.pass.agrees_substitution.block, varExtends, labelExtends⟩
  refine ⟨binding, σ, bound, splicing.bodyImage wf closureWf agrees, fun _ _ => rfl, new,
    injOn_raise tempInjective (fun index => (new index).imp fun _ isTemp => isTemp.1) apart,
    labelInjective, ?_⟩
  intro source
  apply Bool.eq_false_iff.mpr
  intro old
  have openedBound := (Graph.binds_opened (.numbered host.scope.labelNumber) splicing.pre
    splicing.post block (label source)).mpr (.inl old)
  exact Bool.eq_false_iff.mp (labelFree source) openedBound

/-- The closure of the sample, whose local lies two scopes out. -/
theorem inlineClosure_image_sample :
    sampleHostAfterCall.scope.graph.WellFormed ∧ sampleClosure.WellFormed ∧ ∃ report after,
      inlineClosure samplePolicy sampleClosure ⟨0, 1⟩ sampleYield sampleHostAfterCall =
        .ok (.inlined report) after ∧
      ∃ binding σ, YieldBinding.of? sampleYield = some binding ∧
        BodyImage binding.rule sampleHostAfterCall sampleClosure report after σ ∧
        (∀ name depth, σ.var (.named ⟨name, depth⟩) =
          .named ⟨name, if 1 < depth then depth - 1 else 1⟩) ∧
        (∀ index, ∃ n, σ.var (.temporary index) = .temporary n ∧
          sampleHostAfterCall.scope.nextTemp ≤ n) ∧
        Set.InjOn σ.var {v | v.local? = none ∨ .var v ∈ liveMentions sampleClosure} ∧
        Function.Injective σ.label ∧
        ∀ label, sampleHostAfterCall.scope.graph.binds (σ.label label) = false := by
  have wf : sampleHostAfterCall.scope.graph.WellFormed := by decide +kernel
  have closureWf : sampleClosure.WellFormed := by decide +kernel
  obtain ⟨report, inlined⟩ := HostStep.exists_report
    (inlineClosure samplePolicy sampleClosure ⟨0, 1⟩ sampleYield) sampleHostAfterCall
    (by decide +kernel)
  exact ⟨wf, closureWf, report, _, inlined, inlineClosure_image wf closureWf inlined⟩

end FlowIR.Inlining
