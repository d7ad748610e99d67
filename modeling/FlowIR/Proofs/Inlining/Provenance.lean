import FlowIR.Proofs.Graph.Mentions
import FlowIR.Proofs.Inlining.Splice
import Mathlib.Data.Set.Finite.Basic

/-!
# Where the names in a host come from

Whatever the host refers to during a pass, it referred to before, or it is an operand of the site,
or the pass has made it of a name of the body.  This is so after every step of a pass, also after
one that fails, and needs nothing of the graphs but that the tables of the pass are sound.

What a pass has made of a name is read off the image of the code under a substitution: if the
substitution sends the names that the pass has not met to a name that does not occur in the image,
then all that occurs there has been met.
-/

namespace FlowIR

/-- The names in an instruction with replaced names are the replaced names. -/
theorem Instr.mentions_mapNames (onVar : Variable → Variable) (onLabel : Label → Label)
    (instr : Instr) :
    (instr.mapNames onVar onLabel).mentions = instr.mentions.map (·.mapNames onVar onLabel) := by
  rw [mentions, operands_mapNames, result?_mapNames, mentions]
  cases instr.result? <;> simp [Operand.mapNames]

namespace Inlining

/-! ## What a pass has made -/

/-- The pass has met the variable. -/
def Pass.Knows (pass : Pass) (v : Variable) : Prop :=
  ∃ target, pass.vars.target? v = some target

/-- The operand is what the pass has made of a variable or a label of the body, or a literal. -/
def Pass.Emits (pass : Pass) : Operand → Prop
  | .var v => ∃ source, pass.vars.target? source = some v
  | .label label => ∃ source, pass.labels.target? source = some label
  | .lit _ => True

theorem Pass.Grows.knows {before after : Pass} (grows : before.Grows after) {v : Variable}
    (known : before.Knows v) : after.Knows v := by
  rcases known with ⟨target, found⟩
  exact ⟨target, grows.var v target found⟩

theorem Pass.Grows.emits {before after : Pass} (grows : before.Grows after) {operand : Operand}
    (emitted : before.Emits operand) : after.Emits operand := by
  cases operand with
  | var v =>
      rcases emitted with ⟨source, found⟩
      exact ⟨source, grows.var source v found⟩
  | label label =>
      rcases emitted with ⟨source, found⟩
      exact ⟨source, grows.label source label found⟩
  | lit _ => trivial

/-- The pass has made the instruction of what is passed at the site and of names of the body.  It
jumps, if at all, to what the pass has made of a label. -/
structure Pass.Makes (passed : Operand → Prop) (pass : Pass) (instr : Instr) : Prop where
  mention : ∀ operand ∈ instr.mentions, passed operand ∨ pass.Emits operand
  jump : ∀ label, instr.jumpTarget? = some label → pass.Emits (.label label)

theorem Pass.Grows.makes {before after : Pass} (grows : before.Grows after)
    {passed : Operand → Prop} {instr : Instr} (made : before.Makes passed instr) :
    after.Makes passed instr where
  mention := fun operand mentioned => (made.mention operand mentioned).imp_right grows.emits
  jump := fun label target => grows.emits (made.jump label target)

/-- A list does not hold all values of a one-to-one function of numbers. -/
theorem exists_not_mem {α : Type} {f : Nat → α} (injective : Function.Injective f) (seen : List α) :
    ∃ n, f n ∉ seen := by
  by_contra all
  have within : Set.range f ⊆ {a | a ∈ seen} := by
    rintro _ ⟨n, rfl⟩
    exact Classical.not_not.mp fun missing => all ⟨n, missing⟩
  exact Set.infinite_range_of_injective injective ((List.finite_toSet seen).subset within)

/-- A substitution can send all that the pass has not met away from a given list. -/
theorem Pass.exists_avoiding (pass : Pass) (seen : List Operand) :
    ∃ σ, pass.Agrees σ ∧ ∀ source, σ.operand source ∈ seen → pass.Emits (σ.operand source) := by
  obtain ⟨n, newVar⟩ := exists_not_mem (f := fun n => Operand.var (.temporary n))
    (fun _ _ same => Variable.temporary.inj (Operand.var.inj same)) seen
  obtain ⟨m, newLabel⟩ := exists_not_mem (f := fun m => Operand.label (.numbered m))
    (fun _ _ same => Label.numbered_inj.mp (Operand.label.inj same)) seen
  refine ⟨{ block := fun id => (pass.blocks.target? id).getD id
            var := fun v => (pass.vars.target? v).getD (.temporary n)
            label := fun label => (pass.labels.target? label).getD (.numbered m) }, ?_, ?_⟩
  · constructor <;> intro source target found <;> simp [found]
  · intro source member
    cases source with
    | var v =>
        cases found : pass.vars.target? v with
        | some target => exact ⟨v, by simp [found]⟩
        | none => simp [Substitution.operand, Operand.mapNames, found, newVar] at member
    | label label =>
        cases found : pass.labels.target? label with
        | some target => exact ⟨label, by simp [found]⟩
        | none => simp [Substitution.operand, Operand.mapNames, found, newLabel] at member
    | lit _ => trivial

/-- Whatever is the image of something under every substitution that agrees with the tables
was made by the pass. -/
theorem Pass.emits_of_agrees {pass : Pass} {passed : Operand → Prop} {seen : List Operand}
    (drawn : ∀ σ, pass.Agrees σ → ∀ operand ∈ seen,
      passed operand ∨ (∃ literal, operand = .lit literal) ∨ ∃ source, operand = σ.operand source) :
    ∀ operand ∈ seen, passed operand ∨ pass.Emits operand := by
  intro operand member
  rcases pass.exists_avoiding seen with ⟨σ, agrees, avoids⟩
  rcases drawn σ agrees operand member with allowed | ⟨literal, rfl⟩ | ⟨source, rfl⟩
  · exact .inl allowed
  · exact .inr trivial
  · exact .inr (avoids source member)

/-- So was a single operand of which this holds. -/
theorem Pass.emits_of_image {pass : Pass} {operand : Operand}
    (image : ∀ σ, pass.Agrees σ → ∃ source, operand = σ.operand source) : pass.Emits operand := by
  have emitted : ∀ other ∈ [operand], False ∨ pass.Emits other :=
    pass.emits_of_agrees fun σ agrees other member =>
      .inr (.inr (List.mem_singleton.mp member ▸ image σ agrees))
  exact (emitted operand List.mem_cons_self).resolve_left id

/-- What every substitution that agrees with the tables says of a variable stands in the table. -/
theorem Pass.knows_of_agrees {pass : Pass} {v target : Variable}
    (always : ∀ σ, pass.Agrees σ → σ.var v = target) : pass.Knows v := by
  cases found : pass.vars.target? v with
  | some known => exact ⟨known, found⟩
  | none =>
      -- Two substitutions that differ on what has not been met cannot both send `v` to `target`.
      have settled : ∀ n, target = .temporary n := by
        intro n
        rw [← always { pass.substitution with
          var := fun w => (pass.vars.target? w).getD (.temporary n) }
          ⟨pass.agrees_substitution.block, fun w image known => by simp [known],
            pass.agrees_substitution.label⟩]
        simp [found]
      have clash := (settled 0).symm.trans (settled 1)
      contradiction

/-! ## What rules draw on -/

/-- All that a call passes or waits for. -/
def CallBinding.mentions (call : CallBinding) : List Operand :=
  call.receiver :: call.args ++ call.closure.toList ++ (call.result.map Operand.var).toList

/-- All that a yield passes or waits for. -/
def YieldBinding.mentions (yielded : YieldBinding) : List Operand :=
  yielded.arg.toList ++ (yielded.result.map Operand.var).toList

/-- All that a call passes or waits for stands in the call. -/
theorem CallBinding.mentions_subset {site : Instr} {call : CallBinding}
    (bound : CallBinding.of? site = some call) : call.mentions ⊆ site.mentions := by
  cases site <;> cases bound
  exact List.Subset.refl _

theorem YieldBinding.mentions_subset {site : Instr} {yielded : YieldBinding}
    (bound : YieldBinding.of? site = some yielded) : yielded.mentions ⊆ site.mentions := by
  cases site <;> cases bound
  exact List.subset_cons_self _ _

theorem CallBinding.mem_mentions_of_arg (call : CallBinding) {index : Nat} {operand : Operand}
    (passed : call.args[index]? = some operand) : operand ∈ call.mentions := by
  simp [mentions, List.mem_of_getElem? passed]

theorem CallBinding.mem_mentions_of_closure (call : CallBinding) {operand : Operand}
    (passed : call.closure = some operand) : operand ∈ call.mentions := by
  simp [mentions, passed]

/-- The first argument is the only one that a yield passes. -/
theorem YieldBinding.mem_mentions_of_arg (yielded : YieldBinding) {index : Nat} {operand : Operand}
    (passed : (if index = 0 then yielded.arg else none) = some operand) :
    operand ∈ yielded.mentions := by
  rcases Option.ite_none_right_eq_some.mp passed with ⟨-, passed⟩
  simp [mentions, passed]

/-- The operand is passed at the site, or a literal, or the image of one that the instruction
mentions. -/
def Drawn (passed : Operand → Prop) (σ : Substitution) (instr : Instr) (operand : Operand) : Prop :=
  passed operand ∨ (∃ literal, operand = .lit literal) ∨
    ∃ source ∈ instr.mentions, operand = σ.operand source

/-- What an instruction may become: itself with its names replaced, or a copy between operands that
are drawn from it and from the site. -/
inductive Becomes (passed : Operand → Prop) (σ : Substitution) (instr : Instr) : Instr → Prop where
  | renamed : Becomes passed σ instr (σ.instr instr)
  | copied {result : Variable} {source : Operand} (onResult : Drawn passed σ instr (.var result))
      (onSource : Drawn passed σ instr source) : Becomes passed σ instr (.copy result source)

/-- An instruction becomes nothing but what is drawn from it and from the site. -/
def Rule.Draws (passed : Operand → Prop) (rule : Rule) : Prop :=
  ∀ σ next instr image, (rule σ next instr).1 = some image → Becomes passed σ instr image

section Draws

variable {passed more : Operand → Prop} {σ : Substitution} {instr image : Instr}

theorem Becomes.mono (becomes : Becomes passed σ instr image)
    (weaker : ∀ operand, passed operand → more operand) : Becomes more σ instr image := by
  cases becomes with
  | renamed => exact .renamed
  | copied onResult onSource =>
      exact .copied (onResult.imp_left (weaker _)) (onSource.imp_left (weaker _))

theorem Rule.Draws.mono {rule : Rule} (draws : rule.Draws passed)
    (weaker : ∀ operand, passed operand → more operand) : rule.Draws more :=
  fun σ next instr image imageEq => (draws σ next instr image imageEq).mono weaker

/-- All that the image mentions is drawn. -/
theorem Becomes.drawn (becomes : Becomes passed σ instr image) :
    ∀ operand ∈ image.mentions, Drawn passed σ instr operand := by
  intro operand member
  cases becomes with
  | renamed =>
      rw [Substitution.instr, Instr.mentions_mapNames] at member
      rcases List.mem_map.mp member with ⟨source, mentioned, rfl⟩
      exact .inr (.inr ⟨source, mentioned, rfl⟩)
  | copied onResult onSource =>
      simp only [Instr.mentions, Instr.operands, Instr.result?, Option.map_some, Option.toList_some,
        List.cons_append, List.nil_append, List.mem_cons, List.not_mem_nil, or_false] at member
      rcases member with rfl | rfl
      · exact onSource
      · exact onResult

/-- The image jumps, if at all, to the image of a label. -/
theorem Becomes.exists_label (becomes : Becomes passed σ instr image) {label : Label}
    (target : image.jumpTarget? = some label) : ∃ source, label = σ.label source := by
  cases becomes with
  | renamed =>
      rw [Substitution.instr, Instr.jumpTarget?_mapNames] at target
      rcases Option.map_eq_some_iff.mp target with ⟨source, -, rfl⟩
      exact ⟨source, rfl⟩
  | copied onResult onSource => contradiction

/-- A receive becomes a copy of what it would have received. -/
theorem becomes_receive {result : Variable} {next : Nat} {received : Option Operand}
    (mentioned : .var result ∈ instr.mentions)
    (allowed : ∀ operand, received = some operand → passed operand) :
    Becomes passed σ instr (.copy (σ.var result) (supply next received).1) := by
  apply Becomes.copied
  · exact .inr (.inr ⟨.var result, mentioned, rfl⟩)
  · cases received with
    | some source => exact .inl (allowed source rfl)
    | none => exact .inr (.inl ⟨_, rfl⟩)

/-- A return becomes a copy to the variable that waits for its value. -/
theorem becomes_return {waiting : Option Variable} {value : Operand}
    (mentioned : value ∈ instr.mentions)
    (allowed : ∀ result, waiting = some result → passed (.var result))
    (imageEq : waiting.map (fun result => Instr.copy result (σ.operand value)) = some image) :
    Becomes passed σ instr image := by
  rcases Option.map_eq_some_iff.mp imageEq with ⟨result, waits, rfl⟩
  apply Becomes.copied
  · exact .inl (allowed result waits)
  · exact .inr (.inr ⟨value, mentioned, rfl⟩)

theorem CallBinding.draws (call : CallBinding) : call.rule.Draws (· ∈ call.mentions) := by
  have result : ∀ waiting, call.result = some waiting → .var waiting ∈ call.mentions := by
    intro waiting waits
    simp [mentions, waits]
  intro σ next instr image imageEq
  cases instr with
  | receiveSelf v =>
      obtain rfl := Option.some.inj imageEq
      show Becomes _ σ _ (.copy (σ.var v) (supply next (some call.receiver)).1)
      exact becomes_receive (by simp [Instr.mentions, Instr.result?]) (by simp [mentions])
  | receiveArgument v index =>
      obtain rfl := Option.some.inj imageEq
      exact becomes_receive (by simp [Instr.mentions, Instr.result?])
        fun _ => call.mem_mentions_of_arg
  | receiveClosure v =>
      obtain rfl := Option.some.inj imageEq
      exact becomes_receive (by simp [Instr.mentions, Instr.result?])
        fun _ => call.mem_mentions_of_closure
  | methodReturn value =>
      exact becomes_return (by simp [Instr.mentions, Instr.operands]) result imageEq
  | nop => contradiction
  | _ =>
      obtain rfl := Option.some.inj imageEq
      exact .renamed

theorem copyRule_draws : copyRule.Draws passed := by
  intro σ next instr image imageEq
  cases instr with
  | nop => contradiction
  | _ =>
      obtain rfl := Option.some.inj imageEq
      exact .renamed

theorem YieldBinding.draws (yielded : YieldBinding) :
    yielded.rule.Draws (· ∈ yielded.mentions) := by
  have result : ∀ waiting, yielded.result = some waiting → .var waiting ∈ yielded.mentions := by
    intro waiting waits
    simp [mentions, waits]
  intro σ next instr image imageEq
  cases instr with
  | receiveArgument v index =>
      obtain rfl := Option.some.inj imageEq
      exact becomes_receive (by simp [Instr.mentions, Instr.result?])
        fun _ => yielded.mem_mentions_of_arg
  | receiveClosure v =>
      obtain rfl := Option.some.inj imageEq
      show Becomes _ σ _ (.copy (σ.var v) (supply next none).1)
      exact becomes_receive (by simp [Instr.mentions, Instr.result?]) (by simp)
  | closureReturn value =>
      exact becomes_return (by simp [Instr.mentions, Instr.operands]) result imageEq
  | nop => contradiction
  | _ =>
      obtain rfl := Option.some.inj imageEq
      exact .renamed

end Draws

end Inlining

end FlowIR
