import FlowIR.Proofs.Inlining.CloneImage
import FlowIR.Proofs.Inlining.Context
import Mathlib.Data.List.Intervals

/-!
# Literals in code that is carried over

A literal that an instruction reads is the same literal in the clone, with its identity.  The clones
hold no other literals but those that are passed at the site, and new ones, each a `nil` with an
identity of its own.  Where every literal comes from is told by tracing them one by one: the
literals of the clones are a list, of which those that were kept are the literals of the source in
order, and those that were built have consecutive identities from the counter of the host.

Traces follow one another as instructions do, so a law of a rule for single instructions is
one for blocks and bodies.
-/

namespace FlowIR

/-- The literal behind an operand, if it is one. -/
def Operand.lit? : Operand → Option Literal
  | .var _ => none
  | .label _ => none
  | .lit literal => some literal

/-- The literals that an instruction reads, in order. -/
def Instr.literals (instr : Instr) : List Literal :=
  instr.operands.filterMap Operand.lit?

/-- The literals that instructions read, in order. -/
def literalsOf (instrs : List Instr) : List Literal :=
  instrs.flatMap Instr.literals

/-- Replacing names leaves the literals. -/
theorem Instr.literals_mapNames (onVar : Variable → Variable) (onLabel : Label → Label)
    (instr : Instr) :
    (instr.mapNames onVar onLabel).literals = instr.literals := by
  have same : Operand.lit? ∘ Operand.mapNames onVar onLabel = Operand.lit? := by
    funext operand
    cases operand <;> rfl
  rw [literals, operands_mapNames, List.filterMap_map, same]
  rfl

namespace Inlining

/-! ## Tracing literals -/

/-- Where a literal in code that was carried over comes from. -/
inductive Origin where
  /-- The source read it. -/
  | kept
  /-- It is passed at the site. -/
  | passed
  /-- It is new. -/
  | built
deriving DecidableEq

/-- The literals of one origin, in order. -/
def ofOrigin (origin : Origin) (trace : List (Literal × Origin)) : List Literal :=
  (trace.filter (·.2 = origin)).map (·.1)

theorem ofOrigin_append (origin : Origin) (first second : List (Literal × Origin)) :
    ofOrigin origin (first ++ second) = ofOrigin origin first ++ ofOrigin origin second := by
  simp [ofOrigin]

theorem ofOrigin_map (origin other : Origin) (literals : List Literal) :
    ofOrigin origin (literals.map fun literal => (literal, other)) =
      if other = origin then literals else [] := by
  induction literals with
  | nil => simp [ofOrigin]
  | cons literal rest ih =>
      by_cases same : other = origin <;> simp_all [ofOrigin]

/-- Where the literals in the images of instructions come from.  All of the source is kept but what
is lost, and new literals take their identities from `next` on, up to `last`. -/
structure LiteralTrace (passed : List Operand) (lost : Instr → Bool) (source images : List Instr)
    (next last : Nat) (trace : List (Literal × Origin)) : Prop where
  literals_eq : literalsOf images = trace.map (·.1)
  kept_eq : ofOrigin .kept trace = literalsOf (source.filter (!lost ·))
  passed_mem : ∀ literal ∈ ofOrigin .passed trace, .lit literal ∈ passed
  built_eq : ofOrigin .built trace = (List.Ico next last).map (⟨·, .nil⟩)
  next_le : next ≤ last

/-- All literals in the images can be traced. -/
def TracedLiterals (passed : List Operand) (lost : Instr → Bool) (source images : List Instr)
    (next last : Nat) : Prop :=
  ∃ trace, LiteralTrace passed lost source images next last trace

namespace TracedLiterals

variable {passed : List Operand} {lost : Instr → Bool} {instr image : Instr} {next : Nat}

theorem nil (next : Nat) : TracedLiterals passed lost [] [] next next :=
  ⟨[], rfl, rfl, fun _ absent => absurd absent List.not_mem_nil, by simp [ofOrigin],
    Nat.le_refl next⟩

/-- Traces follow one another. -/
theorem append {source images others otherImages : List Instr} {middle last : Nat}
    (first : TracedLiterals passed lost source images next middle)
    (second : TracedLiterals passed lost others otherImages middle last) :
    TracedLiterals passed lost (source ++ others) (images ++ otherImages) next last := by
  rcases first with ⟨trace, first⟩
  rcases second with ⟨otherTrace, second⟩
  refine ⟨trace ++ otherTrace, ?_, ?_, ?_, ?_, Nat.le_trans first.next_le second.next_le⟩
  · rw [literalsOf, List.flatMap_append, List.map_append]
    exact congr (congrArg _ first.literals_eq) second.literals_eq
  · rw [ofOrigin_append, first.kept_eq, second.kept_eq, List.filter_append]
    exact List.flatMap_append.symm
  · intro literal member
    rw [ofOrigin_append] at member
    rcases List.mem_append.mp member with earlier | later
    · exact first.passed_mem literal earlier
    · exact second.passed_mem literal later
  · rw [ofOrigin_append, first.built_eq, second.built_eq, ← List.map_append,
      List.Ico.append_consecutive first.next_le second.next_le]

/-- What is not lost is the same literal in the images. -/
theorem mem_images {source images : List Instr} {last : Nat}
    (traced : TracedLiterals passed lost source images next last) {literal : Literal}
    (member : literal ∈ literalsOf (source.filter (!lost ·))) : literal ∈ literalsOf images := by
  rcases traced with ⟨trace, traces⟩
  rw [← traces.kept_eq, ofOrigin] at member
  rw [traces.literals_eq]
  rcases List.mem_map.mp member with ⟨pair, kept, rfl⟩
  exact List.mem_map_of_mem (List.mem_of_mem_filter kept)

/-- An instruction that keeps its literals. -/
theorem kept (same : image.literals = instr.literals) (unlost : lost instr = false) :
    TracedLiterals passed lost [instr] [image] next next := by
  refine ⟨instr.literals.map fun literal => (literal, .kept), ?_, ?_, ?_, ?_, Nat.le_refl next⟩
  · simp [literalsOf, same, Function.comp_def]
  · simp [ofOrigin_map, literalsOf, unlost]
  · simp [ofOrigin_map]
  · simp [ofOrigin_map]

/-- An instruction that is dropped, and whose literals are lost. -/
theorem dropped (gone : instr.literals = [] ∨ lost instr = true) :
    TracedLiterals passed lost [instr] [] next next := by
  refine ⟨[], rfl, ?_, fun _ absent => absurd absent List.not_mem_nil, by simp [ofOrigin],
    Nat.le_refl next⟩
  rcases gone with none | gone
  · cases known : lost instr <;> simp [ofOrigin, literalsOf, known, none]
  · simp [ofOrigin, literalsOf, gone]

/-- A receive, which reads no literal, that becomes a copy of what is passed. -/
theorem copied {result : Variable} {source : Operand} (none : instr.literals = [])
    (unlost : lost instr = false) (allowed : source ∈ passed) :
    TracedLiterals passed lost [instr] [.copy result source] next next := by
  refine ⟨source.lit?.toList.map fun literal => (literal, .passed), ?_, ?_, ?_, ?_,
    Nat.le_refl next⟩
  · cases source <;> simp [literalsOf, Instr.literals, Instr.operands, Operand.lit?]
  · simp [ofOrigin_map, literalsOf, unlost, none]
  · intro literal member
    rw [ofOrigin_map, if_pos rfl] at member
    cases source with
    | lit other =>
        obtain rfl : literal = other := List.mem_singleton.mp member
        exact allowed
    | var v => exact absurd member List.not_mem_nil
    | label label => exact absurd member List.not_mem_nil
  · simp [ofOrigin_map]

/-- A receive that becomes a copy of a new `nil`. -/
theorem supplied {result : Variable} (none : instr.literals = []) (unlost : lost instr = false) :
    TracedLiterals passed lost [instr] [.copy result (.lit ⟨next, .nil⟩)] next (next + 1) := by
  refine ⟨[(⟨next, .nil⟩, .built)], ?_, ?_, ?_, ?_, Nat.le_succ next⟩
  · simp [literalsOf, Instr.literals, Instr.operands, Operand.lit?]
  · simp [ofOrigin, literalsOf, unlost, none]
  · simp [ofOrigin]
  · simp [ofOrigin]

/-- A receive becomes a copy of what is passed, or of a new `nil` where nothing is. -/
theorem received {result : Variable} {operand : Option Operand} (none : instr.literals = [])
    (unlost : lost instr = false) (allowed : ∀ source, operand = some source → source ∈ passed) :
    TracedLiterals passed lost [instr] [.copy result (supply next operand).1] next
      (supply next operand).2 := by
  cases operand with
  | some source => exact copied none unlost (allowed source rfl)
  | none => exact supplied none unlost

/-- A return becomes a copy to the variable that waits for its value, or is lost with its value. -/
theorem returned {waiting : Option Variable} {value other : Operand}
    (reads : instr.operands = [value]) (same : other.lit? = value.lit?)
    (gone : lost instr = waiting.isNone) :
    TracedLiterals passed lost [instr] (waiting.map fun result => Instr.copy result other).toList
      next next := by
  cases waiting with
  | none => exact dropped (.inr gone)
  | some result =>
      apply kept _ gone
      rw [Instr.literals, Instr.literals, reads]
      simp [Instr.operands, List.filterMap_cons, same]

/-- An instruction of which only the names are replaced. -/
theorem renamed (σ : Substitution) (unlost : lost instr = false) :
    TracedLiterals passed lost [instr] [σ.instr instr] next next :=
  kept (instr.literals_mapNames σ.var σ.label) unlost

end TracedLiterals

/-! ## What rules do to literals -/

/-- The values that the body of a method returns are lost where no result waits for them. -/
def CallBinding.loses (call : CallBinding) : Instr → Bool
  | .methodReturn _ => call.result.isNone
  | _ => false

/-- The values that a closure returns are lost where no result waits for them. -/
def YieldBinding.loses (yielded : YieldBinding) : Instr → Bool
  | .closureReturn _ => yielded.result.isNone
  | _ => false

/-- A copy loses nothing. -/
def copyLoses (_ : Instr) : Bool :=
  false

/-- The literals in the image of an instruction can be traced. -/
def Rule.Traceable (passed : List Operand) (lost : Instr → Bool) (rule : Rule) : Prop :=
  ∀ σ next instr,
    TracedLiterals passed lost [instr] (rule σ next instr).1.toList next (rule σ next instr).2

section Rules

variable {passed : List Operand} {lost : Instr → Bool} {σ : Substitution} {next : Nat}

theorem lit?_operand (σ : Substitution) (operand : Operand) :
    (σ.operand operand).lit? = operand.lit? := by
  cases operand <;> rfl

theorem CallBinding.traceable (call : CallBinding) :
    call.rule.Traceable call.mentions call.loses := by
  intro σ next instr
  cases instr with
  | receiveSelf v => exact .copied rfl rfl List.mem_cons_self
  | receiveArgument v index => exact .received rfl rfl fun _ => call.mem_mentions_of_arg
  | receiveClosure v => exact .received rfl rfl fun _ => call.mem_mentions_of_closure
  | methodReturn value => exact .returned rfl (lit?_operand σ value) rfl
  | nop => exact .dropped (.inl rfl)
  | _ => exact .renamed σ rfl

theorem copyRule_traceable : copyRule.Traceable [] copyLoses := by
  intro σ next instr
  cases instr with
  | nop => exact .dropped (.inl rfl)
  | _ => exact .renamed σ rfl

theorem YieldBinding.traceable (yielded : YieldBinding) :
    yielded.rule.Traceable yielded.mentions yielded.loses := by
  intro σ next instr
  cases instr with
  | receiveArgument v index => exact .received rfl rfl fun _ => yielded.mem_mentions_of_arg
  | receiveClosure v => exact .supplied rfl rfl
  | closureReturn value => exact .returned rfl (lit?_operand σ value) rfl
  | nop => exact .dropped (.inl rfl)
  | _ => exact .renamed σ rfl

namespace Rule.Traceable

variable {rule : Rule}

theorem instrs (traceable : rule.Traceable passed lost) (σ : Substitution) (next : Nat)
    (instrs : List Instr) :
    TracedLiterals passed lost instrs (rule.instrs σ next instrs).1
      next (rule.instrs σ next instrs).2 := by
  induction instrs generalizing next with
  | nil => exact .nil next
  | cons instr rest ih => exact (traceable σ next instr).append (ih (rule σ next instr).2)

theorem blocks (traceable : rule.Traceable passed lost) (σ : Substitution) (next : Nat)
    (blocks : List Block) :
    TracedLiterals passed lost (blocks.flatMap (·.instrs))
      ((rule.blocks σ next blocks).1.flatMap (·.instrs)) next (rule.blocks σ next blocks).2 := by
  induction blocks generalizing next with
  | nil => exact .nil next
  | cons block rest ih =>
      exact (traceable.instrs σ next block.instrs).append (ih (rule.block σ next block).2)

end Rule.Traceable

end Rules

/-! ## What a pass does to literals -/

/-- What is passed where a pass carries instructions over in one of the ways. -/
def Pass.passed (pass : Pass) : Way → List Operand
  | .call => (pass.call.map CallBinding.mentions).getD []
  | .copy => []
  | .yield => (pass.yielded.map YieldBinding.mentions).getD []

/-- What is lost there. -/
def Pass.loses (pass : Pass) : Way → Instr → Bool
  | .call => (pass.call.map CallBinding.loses).getD fun _ => false
  | .copy => copyLoses
  | .yield => (pass.yielded.map YieldBinding.loses).getD fun _ => false

section Clones

variable {pass after : Pass} {way : Way} {instr : Instr} {value : Option Instr}

/-- A clone that follows a rule can be traced if the rule can. -/
theorem traced_of_implements {passed : List Operand} {lost : Instr → Bool} {rule : Rule}
    (arises : pass.Arises) (implements : Implements nowhere pass.setting way.clone rule)
    (traceable : rule.Traceable passed lost) (cloned : way.clone instr pass = .ok value after) :
    TracedLiterals passed lost [instr] value.toList pass.host.nextLiteral
      after.host.nextLiteral := by
  have done := (implements pass.frame rfl instr pass arises.named rfl).of_ok cloned
  have image := done.image_eq _ after.agrees_substitution
  have traced := traceable after.substitution pass.host.nextLiteral instr
  rw [← image] at traced
  exact traced

/-- A clone that is only renamed keeps its literals. -/
theorem traced_of_renames {passed : List Operand} {lost : Instr → Bool} (arises : pass.Arises)
    (renames : way.renames instr = true) (unlost : lost instr = false)
    (cloned : way.clone instr pass = .ok value after) :
    TracedLiterals passed lost [instr] value.toList pass.host.nextLiteral
      after.host.nextLiteral := by
  rw [Way.clone_eq_of_renames renames] at cloned
  have done := (translates_kept instr pass arises.named rfl).of_ok cloned
  have image := done.image_eq _ after.agrees_substitution
  rw [(Prod.mk.inj image).1, (Prod.mk.inj image).2]
  exact .renamed after.substitution unlost

/-- Without a call, nothing that needs one is cloned. -/
theorem traced_clone_of_no_call (arises : pass.Arises) (unbound : pass.call = none)
    (cloned : Way.call.clone instr pass = .ok value after) :
    TracedLiterals (pass.passed .call) (pass.loses .call) [instr] value.toList pass.host.nextLiteral
      after.host.nextLiteral := by
  cases instr with
  | receiveSelf v => simp [Way.clone, cloneForCall, boundCall, unbound] at cloned
  | receiveArgument v index => simp [Way.clone, cloneForCall, boundCall, unbound] at cloned
  | receiveClosure v => simp [Way.clone, cloneForCall, boundCall, unbound] at cloned
  | methodReturn value => simp [Way.clone, cloneForCall, boundCall, unbound] at cloned
  | nop =>
      cases cloned
      exact .dropped (.inl rfl)
  | _ => exact traced_of_renames arises rfl (by simp [Pass.loses, unbound]) cloned

/-- Without a yield, a closure can still be received. -/
theorem traced_clone_of_no_yield (arises : pass.Arises) (unbound : pass.yielded = none)
    (cloned : Way.yield.clone instr pass = .ok value after) :
    TracedLiterals (pass.passed .yield) (pass.loses .yield) [instr] value.toList
      pass.host.nextLiteral
      after.host.nextLiteral := by
  cases instr with
  | receiveArgument v index => simp [Way.clone, cloneForYield, boundYield, unbound] at cloned
  | closureReturn value => simp [Way.clone, cloneForYield, boundYield, unbound] at cloned
  | receiveClosure v =>
      have translates : Translates nowhere pass.frame (Way.yield.clone (.receiveClosure v)) _ :=
        (translates_renameVariable v).bind fun _ => translates_freshNil.bind fun _ => .of_pure _
      have image :=
        ((translates pass arises.named rfl).of_ok cloned).image_eq _ after.agrees_substitution
      rw [(Prod.mk.inj image).1, (Prod.mk.inj image).2]
      exact .supplied rfl (by simp [Pass.loses, unbound])
  | nop =>
      cases cloned
      exact .dropped (.inl rfl)
  | _ => exact traced_of_renames arises rfl (by simp [Pass.loses, unbound]) cloned

/-- Whatever a pass clones, and in whichever way, the literals of the clone can be traced. -/
theorem traced_clone (arises : pass.Arises) (cloned : way.clone instr pass = .ok value after) :
    TracedLiterals (pass.passed way) (pass.loses way) [instr] value.toList pass.host.nextLiteral
      after.host.nextLiteral := by
  cases way with
  | copy => exact traced_of_implements arises (cloneForCopy_implements _) copyRule_traceable cloned
  | call =>
      cases bound : pass.call with
      | some call =>
          have traced :=
            traced_of_implements arises (cloneForCall_implements bound) call.traceable cloned
          simpa only [Pass.passed, Pass.loses, bound, Option.map_some,
            Option.getD_some] using traced
      | none => exact traced_clone_of_no_call arises bound cloned
  | yield =>
      cases bound : pass.yielded with
      | some yielded =>
          have traced :=
            traced_of_implements arises (cloneForYield_implements bound) yielded.traceable cloned
          simpa only [Pass.passed, Pass.loses, bound, Option.map_some,
            Option.getD_some] using traced
      | none => exact traced_clone_of_no_yield arises bound cloned

end Clones

/-! ## What transformations do to literals -/

/-- Blocks of the host with the given ids stand for the live blocks of the body, and their literals
can be traced.  They may have got jumps at their ends since. -/
def CarriesLiterals (passed : List Operand) (lost : Instr → Bool) (body : Graph)
    (ids : List BlockId) (host after : Host) : Prop :=
  ∃ images : List Block, images.map (·.id) = ids ∧
    TracedLiterals passed lost (body.liveBlocks.flatMap (·.instrs)) (images.flatMap (·.instrs))
      host.nextLiteral after.nextLiteral ∧
    ∀ image ∈ images, ∃ held, after.scope.graph.owned image.id = .ok held ∧
    image.instrs <+: held.instrs

section Transformations

variable {policy : Policy} {host after : Host} {body : Graph} {block : BlockId} {site : Instr}
  {report : Report} {σ : Substitution}

theorem BodyImage.carriesLiterals {rule : Rule} {passed : List Operand} {lost : Instr → Bool}
    (image : BodyImage rule host body report after σ) (traceable : rule.Traceable passed lost) :
    CarriesLiterals passed lost body report.blocks host after := by
  refine ⟨(rule.blocks σ host.nextLiteral body.liveBlocks).1, ?_, ?_, ?_⟩
  · rw [Rule.map_id_blocks, image.blocks_image, Graph.liveIds, List.map_map]
    rfl
  · rw [image.nextLiteral_eq]
    exact traceable.blocks σ host.nextLiteral body.liveBlocks
  · intro held member
    rcases image.found with ⟨continuation, -, images⟩
    rcases images held member with ⟨live, found⟩
    exact ⟨_, found, List.prefix_append _ _⟩

theorem inlineMethod_carriesLiterals (wf : host.scope.graph.WellFormed) (bodyWf : body.WellFormed)
    (inlined : inlineMethod policy body block site host = .ok (.inlined report) after) :
    ∃ call, CallBinding.of? site = some call ∧
      CarriesLiterals call.mentions call.loses body report.blocks host after := by
  rcases (ensures_inlineMethod wf bodyWf).of_ok inlined with ⟨-, call, bound, ⟨splicing⟩⟩
  have image := splicing.bodyImage wf bodyWf splicing.pass.agrees_substitution
  exact ⟨call, bound, image.carriesLiterals call.traceable⟩

theorem inlineClosure_carriesLiterals (wf : host.scope.graph.WellFormed) (bodyWf : body.WellFormed)
    (inlined : inlineClosure policy body block site host = .ok (.inlined report) after) :
    ∃ yielded, YieldBinding.of? site = some yielded ∧
      CarriesLiterals yielded.mentions yielded.loses body report.blocks host after := by
  rcases (ensures_inlineClosure wf bodyWf).of_ok inlined with ⟨-, yielded, bound, ⟨splicing⟩⟩
  have image := splicing.bodyImage wf bodyWf splicing.pass.agrees_substitution
  exact ⟨yielded, bound, image.carriesLiterals yielded.traceable⟩

theorem cloneClosure_carriesLiterals {report : CloneReport} (wf : host.scope.graph.WellFormed)
    (bodyWf : body.WellFormed) (cloned : cloneClosure policy body host = .ok report after) :
    CarriesLiterals [] copyLoses body report.blocks host after := by
  rcases (ensures_cloneClosure wf bodyWf).of_ok cloned with ⟨copied, -⟩
  let σ := copied.pass.substitution
  have image := copied.cloneImage wf bodyWf copied.pass.agrees_substitution
  refine ⟨body.liveBlocks.map σ.copied, ?_, ?_, ?_⟩
  · rw [image.blocks_eq, Graph.liveIds, List.map_map, List.map_map]
    rfl
  · have traced := copyRule_traceable.blocks σ host.nextLiteral body.liveBlocks
    rw [copyRule_blocks] at traced
    rw [image.nextLiteral_eq]
    exact traced
  · intro held member
    rcases List.mem_map.mp member with ⟨block, live, rfl⟩
    rcases image.image block live with ⟨_, found⟩
    exact ⟨_, found, List.prefix_refl _⟩

end Transformations

end Inlining

end FlowIR
