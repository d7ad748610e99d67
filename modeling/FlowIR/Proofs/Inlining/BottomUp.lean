import FlowIR.Proofs.Inlining.Nesting

/-!
# Bottom up and top down

A method whose body holds a call can be inlined after the method of that call was inlined into it,
or before; then the call is inlined where its clone stands.  Both orders leave the same graph but
for names: every block gets the same id, while temporaries, labels and new literals come from
other places of the counters.
-/

namespace FlowIR.Inlining

open FlowIR.Graph

/-! ## The clone of a call -/

section Clone

variable {policy : Policy} {host : Host} {setting : Setting} {call inner : CallBinding} {log : Bool}
  {body : Graph} {block : BlockId} {site : Instr} {report : Report} {after : Host}
  {σ τ : Substitution}

/-- The clone of a call of the body is the same under all substitutions that a pass agrees with. -/
theorem Splicing.instr_eq_of_agrees
    (splicing : Splicing host policy setting call.rule log body block site report after)
    (agrees : splicing.pass.Agrees σ) (otherAgrees : splicing.pass.Agrees τ) {held : Block}
    (live : held ∈ body.liveBlocks) {inside : Instr} (holds : inside ∈ held.instrs)
    (bound : CallBinding.of? inside = some inner) : σ.instr inside = τ.instr inside := by
  have images : (call.rule.blocks σ host.nextLiteral body.liveBlocks).1 =
      (call.rule.blocks τ host.nextLiteral body.liveBlocks).1 :=
    List.append_cancel_left
      ((splicing.blocks_pass agrees).symm.trans (splicing.blocks_pass otherAgrees))
  obtain ⟨before, later, split⟩ := List.append_of_mem live
  obtain ⟨pre, post, cut⟩ := List.append_of_mem holds
  rw [split, CallBinding.blocks_append, CallBinding.blocks_append, Rule.blocks_cons,
    Rule.blocks_cons] at images
  have clones := (List.cons.inj (List.append_inj_right images
    ((Rule.length_blocks _ _).trans (Rule.length_blocks _ _).symm))).1
  have instrs : (call.rule.instrs σ (host.nextLiteral + call.nilsOf before) held.instrs).1 =
      (call.rule.instrs τ (host.nextLiteral + call.nilsOf before) held.instrs).1 :=
    congrArg Block.instrs clones
  rw [cut, CallBinding.instrs_append, CallBinding.instrs_append, Rule.instrs_cons, Rule.instrs_cons,
    CallBinding.rule_of_call bound, CallBinding.rule_of_call bound] at instrs
  exact (List.cons.inj (List.append_inj_right instrs (call.length_instrs σ τ _ _ pre))).1

/-- The host holds the clone of a call of the body. -/
theorem Splicing.offers_clone
    (splicing : Splicing host policy setting call.rule log body block site report after)
    (wf : host.scope.graph.WellFormed) (bodyWf : body.WellFormed) (agrees : splicing.pass.Agrees σ)
    {held : Block} (live : held ∈ body.liveBlocks) {inside : Instr} (holds : inside ∈ held.instrs)
    (bound : CallBinding.of? inside = some inner) :
    Offers after (σ.block held.id) (σ.instr inside) := by
  obtain ⟨before, later, split⟩ := List.append_of_mem live
  obtain ⟨pre, post, cut⟩ := List.append_of_mem holds
  obtain ⟨continuation, -, images⟩ := (splicing.bodyImage wf bodyWf agrees).found
  have member : (call.rule.block σ (host.nextLiteral + call.nilsOf before) held).1 ∈
      (call.rule.blocks σ host.nextLiteral body.liveBlocks).1 := by
    rw [split, CallBinding.blocks_append, Rule.blocks_cons]
    simp
  obtain ⟨alive, found⟩ := images _ member
  have cloned : σ.instr inside ∈
      (call.rule.block σ (host.nextLiteral + call.nilsOf before) held).1.instrs := by
    simp only [Rule.block, cut, CallBinding.instrs_append, Rule.instrs_cons,
      CallBinding.rule_of_call bound]
    simp
  exact ⟨_, found, List.mem_append_left _ cloned⟩

end Clone

/-! ## Names -/

/-- The literals of the inner method come first in the one order and last in the other one, and
those of what follows the site change places with those of later blocks. -/
theorem exists_perm_rearranging (next inner lead tail rest : Nat) :
    ∃ perm : Equiv.Perm Nat,
      (∀ k < inner, perm (next + k) = next + (lead + tail + rest) + k) ∧
      (∀ k < lead, perm (next + inner + k) = next + k) ∧
      (∀ k < rest, perm (next + inner + lead + k) = next + (lead + tail) + k) ∧
      (∀ k < tail, perm (next + inner + (lead + rest) + k) = next + lead + k) ∧
      ∀ id, perm id ≠ id → next ≤ id := by
  have shifted : ∀ offset, Function.Injective fun i => offset + i :=
    fun offset _ _ same => Nat.add_left_cancel same
  obtain ⟨perm, sends, otherSends, moves⟩ :=
    exists_perm_exchanging (shifted next) inner (lead + rest + tail)
  obtain ⟨turn, turnsRest, turnsTail, turns⟩ :=
    exists_perm_exchanging (shifted (next + lead)) rest tail
  have kept : ∀ id, id < next + lead ∨ next + (lead + rest + tail) ≤ id → turn id = id := by
    intro id outside
    by_contra moved
    rcases turns id moved with ⟨i, below, rfl⟩
    omega
  refine ⟨perm.trans turn, ?_, ?_, ?_, ?_, ?_⟩
  · intro k below
    rw [Equiv.trans_apply, sends k below, kept _ (.inr (by omega))]
    omega
  · intro k below
    rw [Equiv.trans_apply, Nat.add_assoc, otherSends k (by omega), kept _ (.inl (by omega))]
  · intro k below
    have sent := otherSends (lead + k) (by omega)
    have turned := turnsRest k below
    rw [Equiv.trans_apply, show next + inner + lead + k = next + (inner + (lead + k)) by omega,
      sent, ← Nat.add_assoc, turned]
    omega
  · intro k below
    have sent := otherSends (lead + rest + k) (by omega)
    have turned := turnsTail k below
    rw [Equiv.trans_apply, show next + inner + (lead + rest) + k =
      next + (inner + (lead + rest + k)) by omega, sent,
      show next + (lead + rest + k) = next + lead + (rest + k) by omega, turned]
  · intro id moved
    by_contra below
    have fixed : perm id = id := by
      by_contra changed
      rcases moves id changed with ⟨i, -, rfl⟩
      omega
    rw [Equiv.trans_apply, fixed, kept _ (.inl (by omega))] at moved
    exact moved rfl

section Names

variable {policy : Policy} {inside host grown last middle otherLast : Host}
  {innerSetting setting coreSetting : Setting} {inner call coreCall : CallBinding}
  {innerLog log coreLog : Bool} {leaf : Graph} {innerBlock block coreBlock : BlockId}
  {innerSite site coreSite : Instr} {nestedReport wholeReport shellReport coreReport : Report}
  {nested : Splicing inside policy innerSetting inner.rule innerLog leaf innerBlock innerSite
    nestedReport grown}
  {whole : Splicing { host with nextLiteral := grown.nextLiteral } policy setting call.rule log
    grown.scope.graph block site wholeReport last}
  {shell : Splicing host policy setting call.rule log inside.scope.graph block site
    shellReport middle}
  {core : Splicing middle policy coreSetting coreCall.rule coreLog leaf coreBlock coreSite
    coreReport otherLast}
  {σ σ' τ τ' : Substitution} {floor : Nat}

/-- The temporaries of the two methods can be followed from the one order into the other one. -/
theorem exists_vars_nesting (accounted : inside.Accounted) (spread : nested.Spread floor 0 σ)
    (innerTemps : grown.scope.nextTemp ≤ floor) (wholeSpread : whole.Spread floor 0 σ')
    (temps : last.scope.nextTemp ≤ floor) (shellSpread : shell.Spread floor 0 τ')
    (coreSpread : core.Spread floor 1 τ) (otherTemps : otherLast.scope.nextTemp ≤ floor) :
    ∃ perm : Equiv.Perm Variable,
      (∀ v ∈ bodyVars inside.scope.graph, perm (σ'.var v) = τ'.var v) ∧
      (∀ v ∈ bodyVars leaf, perm (σ'.var (σ.var v)) = τ.var v) ∧
      ∀ v, perm v ≠ v → ∃ n, v = .temporary n ∧ host.scope.nextTemp ≤ n := by
  -- What is made up for the inner method is new to the method that it is inlined into.
  have apart : ∀ v ∈ bodyVars inside.scope.graph, ∀ w ∈ bodyVars leaf,
      σ'.var v ≠ σ'.var (σ.var w) := by
    intro v member w _ same
    obtain ⟨n, made, above⟩ := spread.var_new innerTemps w
    rw [wholeSpread.var_injective same, made, mem_bodyVars_iff] at member
    have below : n < inside.scope.nextTemp := accounted.temps _ (mem_mentions_of_live member)
    exact Nat.not_lt_of_le above below
  obtain ⟨perm, sends, otherSends, moves⟩ := exists_perm_of_families wholeSpread.var_injective
    shellSpread.var_injective (wholeSpread.var_injective.comp spread.var_injective)
    coreSpread.var_injective apart
    (fun v _ w _ => shellSpread.var_ne coreSpread otherTemps (by decide) v w)
  have shellTemps : middle.scope.nextTemp ≤ floor := Nat.le_trans core.nextTemp_le otherTemps
  refine ⟨perm, sends, otherSends, ?_⟩
  intro v moved
  rcases moves v moved with ⟨source, -, rfl | rfl⟩ | ⟨source, -, rfl | rfl⟩
  · exact wholeSpread.var_new temps source
  · exact shellSpread.var_new shellTemps source
  · exact wholeSpread.var_new temps (σ.var source)
  · exact shell.var_new_before (coreSpread.var_new otherTemps source)

/-- So can their labels. -/
theorem exists_labels_nesting (hostWf : host.scope.graph.WellFormed) (accounted : inside.Accounted)
    (spread : nested.Spread floor 0 σ) (innerLabels : grown.scope.nextLabel ≤ floor)
    (wholeSpread : whole.Spread floor 0 σ') (labels : last.scope.nextLabel ≤ floor)
    (shellSpread : shell.Spread floor 0 τ') (coreSpread : core.Spread floor 1 τ)
    (otherLabels : otherLast.scope.nextLabel ≤ floor) :
    ∃ perm : Equiv.Perm Label,
      (∀ label ∈ madeLabels inside.scope.graph,
        perm (whole.labelOf σ' label) = shell.labelOf τ' label) ∧
      (∀ label ∈ madeLabels leaf, perm (σ'.label (nested.labelOf σ label)) = core.labelOf τ label) ∧
      ∀ label, perm label ≠ label →
        host.scope.graph.binds label = false ∧
          ∃ n, label = .numbered n ∧ host.scope.nextLabel ≤ n := by
  have injective : Function.Injective fun label => σ'.label (nested.labelOf σ label) :=
    fun label other same => spread.label_injective
      (Option.some.inj (@wholeSpread.label_injective (some (nested.labelOf σ label))
        (some (nested.labelOf σ other)) same))
  have apart : ∀ label ∈ madeLabels inside.scope.graph, ∀ target ∈ madeLabels leaf,
      whole.labelOf σ' label ≠ σ'.label (nested.labelOf σ target) := by
    intro label member target _ same
    have isMade : label = some (nested.labelOf σ target) := wholeSpread.label_injective same
    rw [isMade, madeLabels, List.mem_cons, or_iff_right nofun,
      List.mem_map_of_injective (Option.some_injective _)] at member
    rcases knowsLabel_of_mem_bodyLabels accounted member with bound | ⟨n, below, numbered⟩
    · rw [spread.label_free target] at bound
      contradiction
    · obtain ⟨-, k, made, above⟩ := spread.label_new innerLabels target
      rw [made, Label.numbered_inj] at numbered
      omega
  obtain ⟨perm, sends, otherSends, moves⟩ := exists_perm_of_families wholeSpread.label_injective
    shellSpread.label_injective injective coreSpread.label_injective apart
    (fun label _ target _ => shellSpread.label_ne coreSpread otherLabels (by decide) label target)
  have shellLabels : middle.scope.nextLabel ≤ floor := Nat.le_trans core.nextLabel_le otherLabels
  refine ⟨perm, sends, otherSends, ?_⟩
  intro label moved
  rcases moves label moved with ⟨source, -, rfl | rfl⟩ | ⟨source, -, rfl | rfl⟩
  · exact wholeSpread.label_new labels source
  · exact shellSpread.label_new shellLabels source
  · exact wholeSpread.label_new labels (some (nested.labelOf σ source))
  · exact shell.label_new_before hostWf accounted.wellFormed
      (coreSpread.label_new otherLabels source)

end Names

/-! ## Both orders -/

section Orders

variable {policy : Policy} {inside host grown last middle otherLast : Host}
  {innerSetting setting coreSetting : Setting} {inner call coreCall : CallBinding}
  {innerLog log coreLog : Bool} {leaf : Graph} {innerBlock block : BlockId}
  {innerSite site : Instr} {nestedReport wholeReport shellReport coreReport : Report}
  (nested : Splicing inside policy innerSetting inner.rule innerLog leaf innerBlock innerSite
    nestedReport grown)
  (whole : Splicing { host with nextLiteral := grown.nextLiteral } policy setting call.rule log
    grown.scope.graph block site wholeReport last)
  (shell : Splicing host policy setting call.rule log inside.scope.graph block site
    shellReport middle)
  (core : Splicing middle policy coreSetting coreCall.rule coreLog leaf
    (shell.pass.substitution.block innerBlock) (shell.pass.substitution.instr innerSite) coreReport
    otherLast)

/-- The live part of the method takes its literals before the site, after
it, and in other blocks. -/
theorem nilsIn_split (innerBound : CallBinding.of? innerSite = some inner)
    {before later : List Block}
    (split : inside.scope.graph.liveBlocks = before ++ nested.held :: later) :
    call.nilsOf inside.scope.graph.liveBlocks =
      call.nilsOf before + call.nilsIn nested.pre + call.nilsIn nested.post +
      call.nilsOf later := by
  simp only [split, CallBinding.nilsOf_append, CallBinding.nilsOf_cons, nested.instrs_eq,
    CallBinding.nilsIn_append, CallBinding.nilsIn_cons, CallBinding.nils_of_call innerBound]
  omega

include nested whole shell in
/-- The blocks of the method get the same ids in both orders. -/
theorem block_eq_nesting (insideWf : inside.scope.graph.WellFormed) (leafWf : leaf.WellFormed)
    (unpruned : policy.prune = false) {σ' τ' : Substitution} (agrees : whole.pass.Agrees σ')
    (otherAgrees : shell.pass.Agrees τ') {id : BlockId} (live : id ∈ inside.scope.graph.liveIds) :
    σ'.block id = τ'.block id := by
  rcases List.mem_iff_getElem?.mp live with ⟨i, at_i⟩
  have below : i < inside.scope.graph.liveIds.length := (List.getElem?_eq_some_iff.mp at_i).1
  have still : grown.scope.graph.liveIds[i]? = some id := by
    rw [nested.liveIds_after insideWf leafWf nested.pass.agrees_substitution unpruned,
      List.getElem?_append_left below, at_i]
  rw [whole.block_eq_idAt agrees still, shell.block_eq_idAt otherAgrees at_i]

include nested whole shell in
/-- So do the continuation of the site and the blocks of the inner method. -/
theorem block_idAt_nesting (insideWf : inside.scope.graph.WellFormed) (leafWf : leaf.WellFormed)
    (unpruned : policy.prune = false) {σ' : Substitution} (agrees : whole.pass.Agrees σ') {i : Nat}
    (below : i < leaf.liveBlocks.length + 1) :
    σ'.block (inside.scope.graph.idAt i) = middle.scope.graph.idAt i := by
  have length : inside.scope.graph.liveIds.length = inside.scope.graph.liveBlocks.length :=
    List.length_map _
  have known :=
    whole.block_eq_idAt agrees (nested.getElem?_liveIds_after insideWf leafWf unpruned below)
  rw [known, shell.idAt_after, length, Nat.add_right_comm]

include nested whole shell in
/-- A relabeling that sends the names of the method from the one order to the other one leads from
the one to the other. -/
theorem leads_nesting (accounted : inside.Accounted) (leafWf : leaf.WellFormed)
    (unpruned : policy.prune = false) {floor : Nat} {σ' τ' : Substitution}
    (wholeSpread : whole.Spread floor 0 σ') (shellSpread : shell.Spread floor 0 τ') {ρ : Relabeling}
    (blocks : ∀ id, ρ.block id = id)
    (vars : ∀ v ∈ bodyVars inside.scope.graph, ρ.var (σ'.var v) = τ'.var v)
    (labels : ∀ label ∈ madeLabels inside.scope.graph,
      ρ.label (whole.labelOf σ' label) = shell.labelOf τ' label)
    (nils : ∀ id < inside.nextLiteral, ρ.literal id = id) : Leads ρ σ' τ' inside.scope.graph := by
  apply Leads.of_names
  · intro id live
    exact (blocks _).trans (block_eq_nesting nested whole shell accounted.wellFormed leafWf unpruned
      wholeSpread.agrees shellSpread.agrees live)
  · exact fun v mentioned => vars v (mem_bodyVars_iff.mpr mentioned)
  · exact fun label listed =>
      labels (some label) (List.mem_cons_of_mem _ (List.mem_map_of_mem listed))
  · exact fun id mentioned => nils id (accounted.nils _ (mem_mentions_of_live mentioned) rfl)

/-- A relabeling that moves only new names leads from what the splicings of the one order make up to
what those of the other one make up. -/
theorem exists_nesting (accounted : host.Accounted) (insideAccounted : inside.Accounted)
    (leafWf : leaf.WellFormed) (same : inside.nextLiteral = host.nextLiteral)
    (nils : leaf.NilsBelow host.nextLiteral) (unpruned : policy.prune = false)
    (bound : CallBinding.of? site = some call) (innerBound : CallBinding.of? innerSite = some inner)
    (coreBound : CallBinding.of? (shell.pass.substitution.instr innerSite) = some coreCall)
    (method : setting.mode = .inlineMethod) (innerMethod : innerSetting.mode = .inlineMethod)
    (coreMethod : coreSetting.mode = .inlineMethod)
    (live : innerBlock ∈ inside.scope.graph.liveIds) :
    ∃ ρ σ σ' τ τ' before later, ρ.Bijective ∧ ρ.MovesOnlyNew host ∧
      Nests ρ σ σ' τ τ' nested whole shell core before later := by
  have insideWf := insideAccounted.wellFormed
  have heldLive := nested.held_mem_liveBlocks insideWf live
  have holds : innerSite ∈ nested.held.instrs := by simp [nested.instrs_eq]
  obtain ⟨before, later, split⟩ := List.append_of_mem heldLive
  -- Every splicing names all names of its body, with spare numbers above those of all four.
  let floor := max (max grown.scope.nextTemp grown.scope.nextLabel)
    (max (max last.scope.nextTemp last.scope.nextLabel)
      (max otherLast.scope.nextTemp otherLast.scope.nextLabel))
  have innerTemps : grown.scope.nextTemp ≤ floor := by omega
  have innerLabels : grown.scope.nextLabel ≤ floor := by omega
  have temps : last.scope.nextTemp ≤ floor := by omega
  have labels : last.scope.nextLabel ≤ floor := by omega
  have otherTemps : otherLast.scope.nextTemp ≤ floor := by omega
  have otherLabels : otherLast.scope.nextLabel ≤ floor := by omega
  obtain ⟨σ, spread⟩ := nested.exists_spread innerMethod 0 innerTemps innerLabels
  obtain ⟨σ', wholeSpread⟩ := whole.exists_spread method 0 temps labels
  obtain ⟨τ', shellSpread⟩ :=
    shell.exists_spread method 0 (Nat.le_trans core.nextTemp_le otherTemps)
      (Nat.le_trans core.nextLabel_le otherLabels)
  obtain ⟨τ, coreSpread⟩ := core.exists_spread coreMethod 1 otherTemps otherLabels
  -- The relabeling permutes each kind of name but ids of blocks.
  obtain ⟨vars, sendsVars, innerVars, movesVars⟩ :=
    exists_vars_nesting insideAccounted spread innerTemps wholeSpread temps shellSpread
      coreSpread otherTemps
  obtain ⟨labelPerm, sendsLabels, innerSendsLabels, movesLabels⟩ :=
    exists_labels_nesting accounted.wellFormed insideAccounted spread innerLabels wholeSpread
      labels shellSpread coreSpread otherLabels
  obtain ⟨literals, innerLiterals, sendsBefore, sendsLater, sendsAfter, movesLiterals⟩ :=
    exists_perm_rearranging host.nextLiteral (inner.nilsOf leaf.liveBlocks)
      (call.nilsOf before + call.nilsIn nested.pre) (call.nilsIn nested.post) (call.nilsOf later)
  let ρ : Relabeling := ⟨id, vars, labelPerm, literals⟩
  have new : ρ.MovesOnlyNew host :=
    ⟨fun id moved => absurd rfl moved, movesVars, movesLabels, movesLiterals⟩
  have siteStays : ρ.instr site = site :=
    new.instr_eq accounted shell.found (by simp [shell.instrs_eq])
  have leads : Leads ρ σ' τ' inside.scope.graph :=
    leads_nesting nested whole shell insideAccounted leafWf unpruned wholeSpread shellSpread
      (fun _ => rfl) sendsVars sendsLabels fun _ below => new.literal_eq (same ▸ below)
  have siteEq : τ'.instr innerSite = shell.pass.substitution.instr innerSite :=
    shell.instr_eq_of_agrees shellSpread.agrees shell.pass.agrees_substitution heldLive holds
      innerBound
  have clone : (ρ.comp σ'.relabeling).instr innerSite =
      shell.pass.substitution.instr innerSite := by
    rw [Relabeling.instr_comp, σ'.relabeling_instr, ← siteEq]
    exact relabel_instr ((leads.blocks _ heldLive).operand innerSite holds)
  have start : middle.nextLiteral =
      host.nextLiteral + (call.nilsOf before + call.nilsIn nested.pre +
      call.nilsIn nested.post + call.nilsOf later) := by
    rw [shell.nextLiteral_after, nilsIn_split nested innerBound split]
  have follows : Follows (ρ.comp σ'.relabeling) σ τ nested core := by
    refine spread.follows coreSpread (CallBinding.relabel_eq innerBound (clone ▸ coreBound)) ?_
      innerVars innerSendsLabels ?_ ?_
    · exact fun i below => block_idAt_nesting nested whole shell insideWf leafWf unpruned
        wholeSpread.agrees below
    · exact fun id mentioned => new.literal_eq (nils _ (mem_mentions_of_live mentioned) rfl)
    · intro k below
      rw [same, start]
      exact innerLiterals k below
  refine ⟨ρ, σ, σ', τ, τ', before, later,
    ⟨Function.bijective_id, vars.bijective, labelPerm.bijective, literals.bijective⟩, new, ?_⟩
  exact {
    split := split
    unpruned := unpruned
    block := fun _ => rfl
    follows := follows
    agrees := wholeSpread.agrees
    otherAgrees := shellSpread.agrees
    call_eq := CallBinding.relabel_eq_self bound siteStays
    leads := leads
    label := sendsLabels none List.mem_cons_self
    bound := innerBound
    site_eq := siteEq
    block_eq := shell.block_eq_of_agrees shellSpread.agrees shell.pass.agrees_substitution live
    injective := shellSpread.instr_injective
    literals := by
      rw [nested.nextLiteral_after, same]
      exact ⟨sendsBefore, sendsLater, sendsAfter⟩ }

end Orders

/-! ## Requests -/

section Requests

variable {policy : Policy} {host : Host} {callee : Scope} {leaf : Graph}
  {innerBlock block : BlockId} {innerSite site : Instr}

/-- The body can be inlined: it has live ends and keeps within the limits of the policy. -/
structure Eligible (policy : Policy) (body : Graph) : Prop where
  bounded : Bounded body
  live : LiveEnds body
  fits : Fits policy body

/-- A method is inlined into the scope of another one, and what that has become into the host. -/
def InlinesBottomUp (policy : Policy) (leaf : Graph) (innerBlock : BlockId) (innerSite : Instr)
    (callee : Scope) (block : BlockId) (site : Instr) (host last : Host) : Prop :=
  ∃ innerReport grown report,
    inlineMethod policy leaf innerBlock innerSite { host with scope := callee } =
      .ok (.inlined innerReport) grown ∧
    inlineMethod policy grown.scope.graph block site { grown with scope := host.scope } =
      .ok (.inlined report) last

/-- A method is inlined into the host, and another one at the clone of a call of that method. -/
def InlinesTopDown (policy : Policy) (leaf : Graph) (innerBlock : BlockId) (innerSite : Instr)
    (callee : Scope) (block : BlockId) (site : Instr) (host last : Host) : Prop :=
  ∃ report middle call σ innerReport,
    inlineMethod policy callee.graph block site host = .ok (.inlined report) middle ∧
    CallBinding.of? site = some call ∧ BodyImage call.rule host callee.graph report middle σ ∧
    inlineMethod policy leaf (σ.block innerBlock) (σ.instr innerSite) middle =
      .ok (.inlined innerReport) last

/-- Inlining a method into a method, and that into the host, and inlining the latter first and
the former at the clone of its call leave graphs that differ in the order of edges and in names
that are new to the host. -/
theorem inlineMethod_nesting (accounted : host.Accounted)
    (calleeAccounted : ({ host with scope := callee } : Host).Accounted) (leafWf : leaf.WellFormed)
    (nils : leaf.NilsBelow host.nextLiteral) (unpruned : policy.prune = false)
    (isCall : (CallBinding.of? site).isSome) (innerIsCall : (CallBinding.of? innerSite).isSome)
    (offers : Offers host block site)
    (innerOffers : Offers { host with scope := callee } innerBlock innerSite)
    (live : innerBlock ∈ callee.graph.liveIds) (eligible : Eligible policy callee.graph)
    (leafEligible : Eligible policy leaf)
    (grownFits : ∀ report grown,
      inlineMethod policy leaf innerBlock innerSite { host with scope := callee } =
        .ok (.inlined report) grown → Fits policy grown.scope.graph) :
    ∃ last otherLast, ∃ ρ : Relabeling,
      InlinesBottomUp policy leaf innerBlock innerSite callee block site host last ∧
      InlinesTopDown policy leaf innerBlock innerSite callee block site host otherLast ∧
      ρ.Bijective ∧ ρ.MovesOnlyNew host ∧ ρ.Matches last.scope.graph otherLast.scope.graph := by
  have wf := accounted.wellFormed
  have calleeWf : callee.graph.WellFormed := calleeAccounted.wellFormed
  -- The four requests are carried out.
  obtain ⟨innerReport, grown, nestedRun⟩ :=
    (exists_inlineMethod_inlined_iff calleeAccounted.wellFormed leafWf).mpr
      ⟨innerIsCall, ⟨leafEligible.bounded, leafEligible.fits, innerOffers⟩, leafEligible.live⟩
  rcases (ensures_inlineMethod calleeAccounted.wellFormed leafWf).of_ok nestedRun with
    ⟨-, inner, innerBound, ⟨nested⟩⟩
  have grownWf := nested.wellFormed calleeAccounted.wellFormed leafWf
  have ends := nested.ends_after calleeAccounted.wellFormed leafWf unpruned eligible.bounded
    eligible.live
  have wholeWf : ({ grown with scope := host.scope } : Host).scope.graph.WellFormed := wf
  obtain ⟨report, last, wholeRun⟩ := (exists_inlineMethod_inlined_iff wholeWf grownWf).mpr
    ⟨isCall, ⟨ends.1, grownFits _ _ nestedRun, offers⟩, ends.2⟩
  rcases (ensures_inlineMethod wholeWf grownWf).of_ok wholeRun with ⟨-, call, bound, ⟨whole⟩⟩
  obtain ⟨shellReport, middle, shellRun⟩ := (exists_inlineMethod_inlined_iff wf calleeWf).mpr
    ⟨isCall, ⟨eligible.bounded, eligible.fits, offers⟩, eligible.live⟩
  rcases (ensures_inlineMethod wf calleeWf).of_ok shellRun with ⟨-, again, sameBound, ⟨shell⟩⟩
  rw [bound, Option.some.injEq] at sameBound
  subst sameBound
  have middleWf := shell.wellFormed wf calleeWf
  have agrees := shell.pass.agrees_substitution
  have heldLive := nested.held_mem_liveBlocks calleeAccounted.wellFormed live
  have cloned : Offers middle (shell.pass.substitution.block innerBlock)
      (shell.pass.substitution.instr innerSite) := by
    rw [← calleeWf.id_of_owned nested.found]
    exact shell.offers_clone wf calleeWf agrees heldLive (by simp [nested.instrs_eq]) innerBound
  have cloneBound : CallBinding.of? (shell.pass.substitution.instr innerSite) =
      some (inner.relabel shell.pass.substitution.relabeling) := by
    rw [← Substitution.relabeling_instr, CallBinding.of?_instr, innerBound]
    rfl
  obtain ⟨coreReport, otherLast, coreRun⟩ := (exists_inlineMethod_inlined_iff middleWf leafWf).mpr
    ⟨by rw [cloneBound]; rfl, ⟨leafEligible.bounded, leafEligible.fits, cloned⟩, leafEligible.live⟩
  rcases (ensures_inlineMethod middleWf leafWf).of_ok coreRun with ⟨-, coreCall, coreBound, ⟨core⟩⟩
  obtain ⟨ρ, σ, σ', τ, τ', before, later, bijective, new, nests⟩ :=
    exists_nesting nested whole shell core accounted calleeAccounted leafWf rfl nils unpruned
      bound innerBound coreBound rfl rfl rfl live
  exact ⟨last, otherLast, ρ, ⟨innerReport, grown, report, nestedRun, wholeRun⟩,
    ⟨shellReport, middle, call, _, coreReport, shellRun, bound, shell.bodyImage wf calleeWf agrees,
      coreRun⟩, bijective, new,
    nests.nested_matches accounted new bijective calleeAccounted.wellFormed leafWf⟩

end Requests

/-- A call in the exit of `sampleOuter`. -/
def nestedCall : Instr :=
  .call (some (.temporary 1)) (.var (.temporary 0)) "run" [] none

/-- A method that calls another one before it asks for its argument. -/
def sampleOuter : Scope where
  name := "outer"
  kind := .method
  nextTemp := 2
  graph :=
    { ({ id := 3 } : Graph).registerAll
        [{ id := ⟨3, 0⟩, label := ⟨"start"⟩
           instrs := [.receiveSelf (.temporary 0), .jump ⟨"last"⟩] },
         { id := ⟨3, 1⟩, label := ⟨"last"⟩
           instrs :=
            [nestedCall, .receiveArgument (.named ⟨"x", 1⟩) 0,
             .methodReturn (.var (.temporary 1))] }] with
      edges := [⟨⟨3, 0⟩, ⟨3, 1⟩, .regular, none⟩]
      entry := some ⟨3, 0⟩
      exit := some ⟨3, 1⟩ }

theorem inlineMethod_nesting_sample :
    ∃ last otherLast, ∃ ρ : Relabeling,
      InlinesBottomUp samplePolicy sampleMethod ⟨3, 1⟩ nestedCall sampleOuter ⟨0, 0⟩ sampleCall
        sampleHost last ∧
      InlinesTopDown samplePolicy sampleMethod ⟨3, 1⟩ nestedCall sampleOuter ⟨0, 0⟩ sampleCall
        sampleHost otherLast ∧
      ρ.Bijective ∧ ρ.MovesOnlyNew sampleHost ∧
      ρ.Matches last.scope.graph otherLast.scope.graph := by
  have accounted : sampleHost.Accounted :=
    ⟨by decide +kernel, by decide +kernel, by decide +kernel, by unfold NilsBelow; decide +kernel⟩
  have outerAccounted : ({ sampleHost with scope := sampleOuter } : Host).Accounted :=
    ⟨by decide +kernel, by decide +kernel, by decide +kernel, by unfold NilsBelow; decide +kernel⟩
  have methodWf : sampleMethod.WellFormed := by decide +kernel
  have nils : sampleMethod.NilsBelow sampleHost.nextLiteral := by
    unfold NilsBelow
    decide +kernel
  have outer : Eligible samplePolicy sampleOuter.graph := by
    refine ⟨⟨rfl, rfl⟩, ?_, by decide, by decide⟩
    rintro id (⟨⟨⟩⟩ | ⟨⟨⟩⟩)
    · decide
    · decide
  have method : Eligible samplePolicy sampleMethod := by
    refine ⟨⟨rfl, rfl⟩, ?_, by decide, by decide⟩
    rintro id (⟨⟨⟩⟩ | ⟨⟨⟩⟩)
    · decide
    · decide
  apply inlineMethod_nesting accounted outerAccounted methodWf nils rfl rfl rfl ⟨_, rfl, by decide⟩
    ⟨_, rfl, by decide⟩ (by decide) outer method
  intro report grown run
  obtain ⟨known, inlined⟩ := HostStep.exists_report
    (inlineMethod samplePolicy sampleMethod ⟨3, 1⟩ nestedCall)
    { sampleHost with scope := sampleOuter } (by decide +kernel)
  rw [inlined] at run
  injection run with _ same
  rw [← same]
  exact ⟨by decide +kernel, by decide +kernel⟩

end FlowIR.Inlining
