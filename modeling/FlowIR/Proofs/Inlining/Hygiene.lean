import FlowIR.Proofs.Inlining.Outcome
import FlowIR.Proofs.Inlining.Transformations

/-!
# Hygiene

Code that is carried into a host captures no name of the host.  If the host mentions no temporary
that it has not handed out, then the temporaries that a pass allocates occur nowhere in the host,
and the labels that it introduces are not bound there.  Every instruction that a transformation adds
is made of these names and of what is passed at the site, so that the host again mentions no
temporary that it has not handed out, and no jump of the body lands in an old block.

All this is said of the pass as it is where it ends or fails, and of the host as it is left then.
-/

namespace FlowIR

/-! ## What a scope has handed out -/

namespace Scope

/-- A temporary that the scope has handed out, or no temporary at all.  The counter starts at zero
and moves only where the next temporary is handed out. -/
def HandedOut (scope : Scope) : Operand → Prop
  | .var (.temporary n) => n < scope.nextTemp
  | _ => True

instance (scope : Scope) : DecidablePred scope.HandedOut
  | .var (.temporary n) => inferInstanceAs (Decidable (n < scope.nextTemp))
  | .var (.named _) => isTrue trivial
  | .label _ => isTrue trivial
  | .lit _ => isTrue trivial

/-- The index of every temporary that the scope's graph mentions lies below the scope's counter. -/
def Hygienic (scope : Scope) : Prop :=
  ∀ n, .var (.temporary n) ∈ scope.graph.mentions → n < scope.nextTemp

/-- Every label that an instruction of the scope's graph mentions is bound there, or has a number
that the scope has passed. -/
def LabelsKnown (scope : Scope) : Prop :=
  ∀ label, .label label ∈ scope.graph.instrMentions →
    scope.graph.binds label = true ∨ ∃ n < scope.nextLabel, label = .numbered n

variable {scope : Scope}

theorem hygienic_iff : scope.Hygienic ↔ scope.graph.Within scope.HandedOut := by
  rw [Graph.within_iff]
  constructor
  · intro hygienic operand mentioned
    rcases operand with (place | n) | label | literal
    · trivial
    · exact hygienic n mentioned
    · trivial
    · trivial
  · exact fun within n mentioned => within _ mentioned

/-- A new scope has handed out no temporary. -/
theorem not_handedOut_empty (name : String) (kind : ScopeKind) (graph : GraphId) (n : Nat) :
    ¬ (empty name kind graph).HandedOut (.var (.temporary n)) :=
  Nat.not_lt_zero n

/-- Handing out a temporary adds just that one to those handed out. -/
theorem handedOut_freshTemp {operand : Operand} :
    scope.freshTemp.2.HandedOut operand ↔
      scope.HandedOut operand ∨ operand = .var scope.freshTemp.1 := by
  rcases operand with (place | n) | label | literal
  · simp [HandedOut]
  · simp only [HandedOut, freshTemp, Operand.var.injEq, Variable.temporary.injEq]
    exact Nat.lt_succ_iff_lt_or_eq
  · simp [HandedOut]
  · simp [HandedOut]

end Scope

namespace Graph

variable {g : Graph}

theorem HoldsAt.mem_instrMentions {id : BlockId} {instr : Instr} (holds : g.HoldsAt id instr)
    {operand : Operand} (mentioned : operand ∈ instr.mentions) : operand ∈ g.instrMentions := by
  rcases holds with ⟨held, found, member⟩
  exact List.mem_flatMap.mpr
    ⟨held, mem_blocks_of_owned found, List.mem_flatMap.mpr ⟨instr, member, mentioned⟩⟩

theorem HoldsAt.mem_mentions {id : BlockId} {instr : Instr} (holds : g.HoldsAt id instr)
    {operand : Operand} (mentioned : operand ∈ instr.mentions) : operand ∈ g.mentions :=
  List.mem_append_left _ (holds.mem_instrMentions mentioned)

theorem Attaches.mem_mentions {operand : Operand} (attaches : g.Attaches operand) :
    operand ∈ g.mentions := by
  rcases attaches with ⟨edge, held, attached⟩
  exact List.mem_append_right _ (List.mem_filterMap.mpr ⟨edge, held, attached⟩)

end Graph

namespace Inlining

/-- Copying a body keeps the pass tracked. -/
theorem Tracked.copyBody {base : Scope} {passed : Operand → Prop} {pass : Pass} {body : Graph}
    (tracked : Tracked base cloneSetting passed pass) :
    Tracks base cloneSetting passed (Inlining.copyBody body) pass fun _ _ => True := by
  apply (tracked.cloneBlocks (cloneForCopy_implements cloneSetting) copyRule_draws false
    body.liveBlocks).bind
  intro blocks middle middleTracked _ _
  apply (middleTracked.copyEdges body.edges).bind
  intro _ after afterTracked _ _
  exact .of_pure afterTracked trivial

/-- The label of the entry is what the pass has made of a label of the body. -/
theorem Splicing.emits_entryLabel {policy : Policy} {host : Host} {setting : Setting} {rule : Rule}
    {log : Bool} {body : Graph} {block : BlockId} {site : Instr} {report : Report} {after : Host}
    (splicing : Splicing host policy setting rule log body block site report after)
    (wf : host.scope.graph.WellFormed) (bodyWf : body.WellFormed) :
    splicing.pass.Emits (.label splicing.entryBlock.label) := by
  apply Pass.emits_of_image
  intro σ agrees
  rcases splicing.exists_entryBlock_label wf bodyWf agrees with ⟨source, -, -, same⟩
  exact ⟨.label source.label, congrArg Operand.label same⟩

/-! ## The pass of a transformation -/

namespace Transformation

/-- What the pass does with the body. -/
def mode : Transformation → Mode
  | inlineMethod .. => .inlineMethod
  | cloneClosure .. => .cloneClosure
  | inlineClosure .. => .inlineClosure

/-- The variables for which the pass allocates temporaries: all variables of a method, but only the
temporaries of a closure. -/
def Allocates : Transformation → Variable → Prop
  | inlineMethod .., _ => True
  | _, .temporary _ => True
  | _, .named _ => False

/-- The operand is mentioned by the call or yield. -/
def Passes (t : Transformation) (operand : Operand) : Prop :=
  ∃ block site, t.site? = some (block, site) ∧ operand ∈ site.mentions

/-- The pass that the transformation runs into the host, as it is where it ends or fails.  A request
that is not admitted runs none. -/
def Enters (policy : Policy) (host : Host) : Transformation → Pass → Prop
  | inlineMethod callee block call, pass =>
      Admitted policy host callee block call ∧ ∃ binding, CallBinding.of? call = some binding ∧
        Lays (Pass.forMethod binding policy.logYields)
          (carryBlocks cloneBlockForCall callee.liveBlocks) callee block call host pass
  | cloneClosure source, pass => pass = left (copyBody source) (Pass.forClone host)
  | inlineClosure closure block yielding, pass =>
      Admitted policy host closure block yielding ∧
        ∃ binding, YieldBinding.of? yielding = some binding ∧
          Lays (Pass.forClosure binding) (do return (← migrateBlocks closure closure.liveIds).1)
            closure block yielding host pass

/-- The pass has made the name of one of the body, or it is the label under
which the host was opened. -/
def Introduces (t : Transformation) (host : Host) (pass : Pass) (operand : Operand) : Prop :=
  pass.Emits operand ∨ t.site?.isSome ∧ operand = .label host.scope.freshLabel.1

/-- What the pass introduces is new to the host. -/
structure Fresh (t : Transformation) (host : Host) (pass : Pass) : Prop where
  /-- A temporary that the pass allocates comes from the host's counter and occurs nowhere in the
  host, in particular not at the site. -/
  temporary : ∀ v target, pass.vars.target? v = some target → t.Allocates v →
    (∃ n, target = .temporary n ∧ host.scope.nextTemp ≤ n ∧ n < pass.host.scope.nextTemp) ∧
      .var target ∉ host.scope.graph.mentions ∧ ¬ t.Passes (.var target)
  /-- All other variables become locals. -/
  settled : ∀ v target, pass.vars.target? v = some target → ¬ t.Allocates v →
    ∃ place, target = .named place
  label : ∀ label, t.Introduces host pass (.label label) →
    host.scope.graph.binds label = false ∧
      (host.scope.LabelsKnown → .label label ∉ host.scope.graph.instrMentions)

/-- Where an instruction in a block of the host comes from. -/
inductive Origin (t : Transformation) (host : Host) (pass : Pass) (id : BlockId)
    (instr : Instr) : Prop
  /-- It was there before. -/
  | kept (held : host.scope.graph.HoldsAt id instr)
  /-- It followed the site and stands in the continuation. -/
  | moved {block : BlockId} {site : Instr} (opened : t.site? = some (block, site))
      (new : id = host.scope.graph.freshId) (held : host.scope.graph.HoldsAt block instr)
  /-- It is made of what is passed at the site and of what the pass introduces, and it jumps, if at
  all, to a label that the pass introduces. -/
  | added (mention : ∀ operand ∈ instr.mentions, t.Passes operand ∨ t.Introduces host pass operand)
      (jump : ∀ label, instr.jumpTarget? = some label → t.Introduces host pass (.label label))

/-- All instructions of the block have an origin. -/
def Explains (t : Transformation) (host : Host) (pass : Pass) (block : Block) : Prop :=
  ∀ instr ∈ block.instrs, t.Origin host pass block.id instr

/-- Where all that the host refers to afterwards comes from. -/
structure Traced (t : Transformation) (host : Host) (pass : Pass) (after : Host) : Prop where
  origins : after.scope.graph.Each (t.Explains host pass)
    fun operand => host.scope.graph.Attaches operand ∨ pass.Emits operand
  nextTemp_eq : after.scope.nextTemp = pass.host.scope.nextTemp

/-- The host was left alone, or a pass was run into it to which all that is new is traced. -/
def Settles (t : Transformation) (policy : Policy) (host after : Host) : Prop :=
  after = host ∨ ∃ pass, t.Enters policy host pass ∧ t.Traced host pass after

/-! ## The scope in which a pass begins -/

/-- A pass begins in the scope of the host, which was opened if there is a site. -/
structure Prepares (t : Transformation) (host : Host) (base : Scope) : Prop where
  nextTemp_eq : base.nextTemp = host.scope.nextTemp
  nextLabel_le : host.scope.nextLabel ≤ base.nextLabel
  binds : ∀ label, host.scope.graph.binds label = true → base.graph.binds label = true
  holdsAt : ∀ id instr, base.graph.HoldsAt id instr → host.scope.graph.HoldsAt id instr ∨
    ∃ block site, t.site? = some (block, site) ∧ id = host.scope.graph.freshId ∧
      host.scope.graph.HoldsAt block instr
  attaches : ∀ operand, base.graph.Attaches operand → host.scope.graph.Attaches operand
  offers : ∀ block site, t.site? = some (block, site) → host.scope.graph.HoldsAt block site

section Passes

variable {t : Transformation} {policy : Policy} {host : Host} {pass : Pass} {base : Scope}
  {setting : Setting} {block : BlockId} {site : Instr}

theorem prepares_host (apart : t.site? = none) : t.Prepares host host.scope where
  nextTemp_eq := rfl
  nextLabel_le := Nat.le_refl _
  binds := fun _ bound => bound
  holdsAt := fun _ _ holds => .inl holds
  attaches := fun _ attaches => attaches
  offers := by simp [apart]

theorem prepares_opened (opens : t.site? = some (block, site)) (wf : host.scope.graph.WellFormed)
    {held : Block} {pre post : List Instr} (found : host.scope.graph.owned block = .ok held)
    (instrsEq : held.instrs = pre ++ site :: post) :
    t.Prepares host (host.opened block pre post).scope where
  nextTemp_eq := rfl
  nextLabel_le := Nat.le_succ_of_le host.scope.nextLabel_le_labelNumber
  binds := fun label bound => (Graph.binds_opened _ _ _ block label).mpr (.inl bound)
  holdsAt := by
    rintro id instr ⟨there, thereFound, member⟩
    have lookup := wf.owned_opened (.numbered host.scope.labelNumber) pre post (.of_owned found) id
    rw [show (host.opened block pre post).scope.graph.owned id = _ from lookup] at thereFound
    split at thereFound
    next new =>
      obtain rfl := Except.ok.inj thereFound
      exact .inr ⟨block, site, opens, new, held, found, by simp_all⟩
    next =>
      split at thereFound
      next here =>
        rw [here, found] at thereFound
        obtain rfl := Except.ok.inj thereFound
        have before : instr ∈ pre := member
        exact .inl ⟨held, here ▸ found, by simp [instrsEq, before]⟩
      next => exact .inl ⟨there, thereFound, member⟩
  attaches := by
    rintro operand ⟨edge, member, attached⟩
    rcases List.mem_append.mp member with stays | moved
    · exact ⟨edge, (List.mem_filter.mp stays).1, attached⟩
    · rcases List.mem_map.mp moved with ⟨old, leaving, rfl⟩
      exact ⟨old, (List.mem_filter.mp leaving).1, attached⟩
  offers := by
    intro otherBlock otherSite same
    obtain ⟨rfl, rfl⟩ := Prod.mk.inj (Option.some.inj (opens.symm.trans same))
    exact ⟨held, found, by simp [instrsEq]⟩

/-- The mode of a pass settles just the variables for which it allocates nothing. -/
theorem settled?_eq_none_iff (t : Transformation) (v : Variable) :
    t.mode.settled? v = none ↔ t.Allocates v := by
  cases t <;> cases v <;> simp [mode, Allocates, Mode.settled?, Mode.local?]

/-- A label that a pass introduces was not bound in the host and has a number that the host's
scope had not passed. -/
theorem Prepares.exists_number (prepares : t.Prepares host base) (named : Named base pass)
    {label : Label} (introduced : t.Introduces host pass (.label label)) :
    host.scope.graph.binds label = false ∧
      ∃ n, label = .numbered n ∧ host.scope.nextLabel ≤ n := by
  rcases introduced with ⟨source, found⟩ | ⟨-, same⟩
  · rcases named.label_target source label found with ⟨⟨n, rfl, above, -⟩, free⟩
    have unbound : host.scope.graph.binds (.numbered n) = false := by
      apply Bool.eq_false_iff.mpr
      intro bound
      rw [prepares.binds _ bound] at free
      contradiction
    exact ⟨unbound, n, rfl, Nat.le_trans prepares.nextLabel_le above⟩
  · obtain rfl := Operand.label.inj same
    exact ⟨host.scope.binds_labelNumber, _, rfl, host.scope.nextLabel_le_labelNumber⟩

/-- What a pass introduces is new to the host. -/
theorem Prepares.fresh (prepares : t.Prepares host base) (named : Named base pass)
    (modeEq : pass.mode = t.mode) (hygienic : host.scope.Hygienic) : t.Fresh host pass where
  temporary := by
    intro v target found allocates
    rcases named.var_target v target found with settled | ⟨-, n, rfl, above, below⟩
    · rw [modeEq, (t.settled?_eq_none_iff v).mpr allocates] at settled
      contradiction
    rw [prepares.nextTemp_eq] at above
    have unmentioned : .var (.temporary n) ∉ host.scope.graph.mentions :=
      fun mentioned => Nat.not_lt.mpr above (hygienic n mentioned)
    refine ⟨⟨n, rfl, above, below⟩, unmentioned, ?_⟩
    rintro ⟨block, site, opens, mentioned⟩
    exact unmentioned ((prepares.offers block site opens).mem_mentions mentioned)
  settled := by
    intro v target found shared
    rcases named.var_target v target found with settled | ⟨unsettled, -⟩
    · cases target with
      | named place => exact ⟨place, rfl⟩
      | temporary n => exact absurd settled (Mode.settled?_ne_temporary _ _ _)
    · rw [modeEq] at unsettled
      exact absurd ((t.settled?_eq_none_iff v).mp unsettled) shared
  label := by
    intro label introduced
    rcases prepares.exists_number named introduced with ⟨unbound, n, rfl, above⟩
    refine ⟨unbound, fun known mentioned => ?_⟩
    rcases known _ mentioned with bound | ⟨m, below, same⟩
    · rw [unbound] at bound
      contradiction
    · rw [Label.numbered_inj.mp same] at above
      exact Nat.not_lt.mpr above below

/-! ## Where instructions come from -/

/-- What a pass accounts for has an origin. -/
theorem Prepares.origins (prepares : t.Prepares host base) {g : Graph}
    (accounts : pass.Accounts base t.Passes g) :
    g.Each (t.Explains host pass)
      fun operand => host.scope.graph.Attaches operand ∨ pass.Emits operand := by
  apply accounts.mono
  · intro held explained instr member
    rcases explained instr member with before | made
    · rcases prepares.holdsAt held.id instr before with kept | ⟨block, site, opens, new, holds⟩
      · exact .kept kept
      · exact .moved opens new holds
    · exact .added (fun operand mentioned => (made.mention operand mentioned).imp_right .inl)
        fun label target => .inl (made.jump label target)
  · exact fun operand attached => attached.imp_left (prepares.attaches operand)

/-- A jump that links the body to the host has an origin. -/
theorem Explains.append_jump {held : Block} (explains : t.Explains host pass held) {label : Label}
    (introduced : t.Introduces host pass (.label label)) :
    t.Explains host pass (held.append (.jump label)) := by
  intro instr member
  rcases List.mem_append.mp member with old | last
  · exact explains instr old
  · obtain rfl := List.mem_singleton.mp last
    apply Origin.added
    · intro operand mentioned
      obtain rfl := Instr.eq_label_of_mem_mentions_jump mentioned
      exact .inr introduced
    · rintro target ⟨⟩
      exact introduced

/-! ### How the host of a pass is left -/

/-- How the host of a pass is left: as it is where the pass fails, or linked to the body, or with
the roles that were handed over.  It may have been pruned then. -/
inductive Finishes (t : Transformation) (policy : Policy) (host : Host) (pass : Pass)
    (after : Host) : Prop where
  | failed (same : after = pass.host)
  | linked {block entry exit continuation : BlockId} {entryLabel : Label}
      (opens : t.site?.isSome) (emits : pass.Emits (.label entryLabel))
      (same : after = Host.graphFocus.set
        (prunedBy policy (pass.graph.linked block entry exit continuation entryLabel
          (.numbered host.scope.labelNumber))) pass.host)
  | given {entry exit : Option BlockId}
      (same : after = Host.graphFocus.set
        (prunedBy policy (withRoles pass.graph entry exit)) pass.host)

namespace Finishes

variable {after : Host} (finishes : t.Finishes policy host pass after)

include finishes

theorem nextTemp_eq : after.scope.nextTemp = pass.host.scope.nextTemp := by
  rcases finishes with rfl | ⟨-, -, rfl⟩ | rfl <;> rfl

theorem nextLiteral_eq : after.nextLiteral = pass.host.nextLiteral := by
  rcases finishes with rfl | ⟨-, -, rfl⟩ | rfl <;> rfl

/-- A condition on blocks that jumps to introduced labels and marks keep holds where the host is
left if it holds in the pass. -/
theorem each {okBlock : Block → Prop} {okData : Operand → Prop}
    (each : pass.graph.Each okBlock okData)
    (jump : ∀ held label, t.Introduces host pass (.label label) → okBlock held →
      okBlock (held.append (.jump label)))
    (mark : ∀ held, okBlock held → okBlock (held.mark false)) :
    after.scope.graph.Each okBlock okData := by
  have pruned : ∀ g : Graph, g.Each okBlock okData → (prunedBy policy g).Each okBlock okData := by
    intro g kept
    unfold prunedBy
    split
    · exact kept.prune mark
    · exact kept
  rcases finishes with rfl | ⟨opens, emits, rfl⟩ | rfl
  case failed => exact each
  case given => exact pruned _ ⟨each.blocks, each.edges⟩
  case linked block _ exit _ _ =>
      apply pruned
      have jumping := (each.adjust block fun held => jump held _ (.inl emits)).adjust exit
        fun held => jump held _ (.inr ⟨opens, rfl⟩)
      apply jumping.withEdges
      intro edge member operand attached
      rcases List.mem_append.mp member with old | linking
      · exact each.edges edge old operand attached
      · rcases List.mem_cons.mp linking with rfl | last
        · contradiction
        · obtain rfl := List.mem_singleton.mp last
          contradiction

/-- All that the host refers to where it is left has an origin. -/
theorem traced (prepares : t.Prepares host base)
    (accounts : pass.Accounts base t.Passes pass.graph) : t.Traced host pass after where
  origins := finishes.each (prepares.origins accounts)
    (fun _ _ introduced explains => explains.append_jump introduced) fun _ explains => explains
  nextTemp_eq := finishes.nextTemp_eq

end Finishes

/-- If the host mentions no temporary that it has not handed out, then this is
so again after a pass. -/
theorem Traced.hygienic {after : Host} (traced : t.Traced host pass after)
    (prepares : t.Prepares host base) (named : Named base pass) (hygienic : host.scope.Hygienic) :
    after.scope.Hygienic := by
  have later : host.scope.nextTemp ≤ after.scope.nextTemp := by
    rw [traced.nextTemp_eq, ← prepares.nextTemp_eq]
    exact named.nextTemp_le
  have old : ∀ n, .var (.temporary n) ∈ host.scope.graph.mentions → n < after.scope.nextTemp :=
    fun n mentioned => Nat.lt_of_lt_of_le (hygienic n mentioned) later
  have emitted : ∀ n, pass.Emits (.var (.temporary n)) → n < after.scope.nextTemp := by
    rintro n ⟨source, found⟩
    rw [traced.nextTemp_eq]
    rcases named.var_target source _ found with settled | ⟨-, m, same, -, below⟩
    · exact absurd settled (Mode.settled?_ne_temporary _ _ _)
    · obtain rfl := Variable.temporary.inj same
      exact below
  intro n mentioned
  rcases List.mem_append.mp mentioned with inBlock | onEdge
  · rcases List.mem_flatMap.mp inBlock with ⟨held, member, here⟩
    rcases List.mem_flatMap.mp here with ⟨instr, instrMember, operandMember⟩
    rcases traced.origins.blocks held member instr instrMember with
      holds | ⟨opens, new, holds⟩ | ⟨mention, jump⟩
    · exact old n (holds.mem_mentions operandMember)
    · exact old n (holds.mem_mentions operandMember)
    · rcases mention _ operandMember with ⟨block, site, opens, atSite⟩ | made | ⟨-, same⟩
      · exact old n ((prepares.offers block site opens).mem_mentions atSite)
      · exact emitted n made
      · contradiction
  · rcases List.mem_filterMap.mp onEdge with ⟨edge, member, attached⟩
    rcases traced.origins.edges edge member _ attached with before | made
    · exact old n before.mem_mentions
    · exact emitted n made

/-! ## What transformations leave -/

/-- A pass laid into an opened host begins in that host. -/
theorem exists_opened_of_lays {start : Host → Pass} {lay : Step (List BlockId)} {body : Graph}
    (opens : t.site? = some (block, site)) (wf : host.scope.graph.WellFormed)
    (lays : Lays start lay body block site host pass) :
    ∃ (opened : Host) (entry exit : BlockId), t.Prepares host opened.scope ∧
      opened.scope.graph.WellFormed ∧ opened.nextLiteral = host.nextLiteral ∧
      pass = left (layBody lay body entry exit) (start opened) := by
  rcases lays with ⟨entry, exit, continuation, opened, -, opening, rfl⟩
  rcases (ensures_splitAtSite wf block site).of_ok opening with
    ⟨-, held, pre, post, found, cutEq, instrsEq, -, rfl⟩
  have openedWf : (host.opened block pre post).scope.graph.WellFormed :=
    opened_wellFormed wf found cutEq host.scope.binds_labelNumber
  exact ⟨_, entry, exit, prepares_opened opens wf found instrsEq, openedWf, rfl, rfl⟩

theorem exists_base_of_enters (wf : host.scope.graph.WellFormed) (bodyWf : t.body.WellFormed)
    (enters : t.Enters policy host pass) :
    ∃ base setting, t.Prepares host base ∧ setting.mode = t.mode ∧
      Tracked base setting t.Passes pass := by
  cases t with
  | inlineMethod callee block call =>
      rcases enters with ⟨-, binding, bound, lays⟩
      have draws : binding.rule.Draws (inlineMethod callee block call).Passes :=
        binding.draws.mono fun _ mentioned =>
          ⟨block, call, rfl, CallBinding.mentions_subset bound mentioned⟩
      obtain ⟨opened, entry, exit, prepares, openedWf, -, rfl⟩ :=
        exists_opened_of_lays (t := inlineMethod callee block call) rfl wf lays
      have tracked : Tracked opened.scope _ (inlineMethod callee block call).Passes _ :=
        tracked_start (forMethod_starts binding policy.logYields) openedWf
      have laying := tracked.cloneBlocks (cloneForCall_implements rfl) draws true callee.liveBlocks
      refine ⟨opened.scope, binding.setting policy.logYields, prepares, rfl, ?_⟩
      exact (Tracks.layBody (fun _ _ _ _ => trivial)
        ((laying.layInside fun _ _ _ _ => trivial).mono fun _ _ _ _ _ => trivial)).left
  | cloneClosure source =>
      obtain rfl := enters
      have tracked : Tracked host.scope cloneSetting (cloneClosure source).Passes
          (Pass.forClone host) :=
        tracked_start forClone_starts wf
      exact ⟨host.scope, cloneSetting, prepares_host rfl, rfl, tracked.copyBody.left⟩
  | inlineClosure closure block yielding =>
      rcases enters with ⟨-, binding, bound, lays⟩
      have draws : binding.rule.Draws (inlineClosure closure block yielding).Passes :=
        binding.draws.mono fun _ mentioned =>
          ⟨block, yielding, rfl, YieldBinding.mentions_subset bound mentioned⟩
      have closureWf : closure.WellFormed := bodyWf
      rw [migrateBlocks_liveIds_eq closureWf] at lays
      obtain ⟨opened, entry, exit, prepares, openedWf, -, rfl⟩ :=
        exists_opened_of_lays (t := inlineClosure closure block yielding) rfl wf lays
      have tracked : Tracked opened.scope _ (inlineClosure closure block yielding).Passes _ :=
        tracked_start (forClosure_starts binding) openedWf
      refine ⟨opened.scope, binding.setting, prepares, rfl, ?_⟩
      exact (Tracks.layBody (fun _ _ _ _ => trivial)
        ((tracked.migrateBody rfl draws).mono fun _ _ _ _ _ => trivial)).left

/-- The host was left alone, or a pass was run into it and finished. -/
def Ends (t : Transformation) (policy : Policy) (host after : Host) : Prop :=
  after = host ∨ ∃ pass, t.Enters policy host pass ∧ t.Finishes policy host pass after

/-- Splicing leaves the host alone, or it finishes the pass that lays the body. -/
theorem ensures_splice_ends {start : Host → Pass} {lay : Step (List BlockId)} {rule : Rule}
    {log : Bool} {sound : Prop} {broken : Fault → Prop} (opens : t.site? = some (block, site))
    (wf : host.scope.graph.WellFormed) (bodyWf : t.body.WellFormed)
    (enters : ∀ pass, Admitted policy host t.body block site →
      Lays start lay t.body block site host pass → t.Enters policy host pass)
    (laying : ∀ base entry exit, base.scope.graph.WellFormed → t.body.entry = some entry →
      t.body.exit = some exit →
      Ensures (runPass start (layBody lay t.body entry exit)) base
        (fun result after => Laid base setting rule log t.body entry exit result after ∧ sound)
        (fun fault after => after.scope.graph.WellFormed ∧ broken fault)) :
    Ensures (splice policy start lay t.body block site) host
      (fun _ after => t.Ends policy host after) (fun _ after => t.Ends policy host after) := by
  apply (ensures_splice wf bodyWf laying).mono
  · rintro (report | excess) after done
    · rcases done with ⟨admitted, -, splicing, lays⟩
      have opened : t.site?.isSome := by simp [opens]
      exact .inr ⟨_, enters _ admitted lays,
        .linked opened (splicing.emits_entryLabel wf bodyWf) splicing.after_eq⟩
    · exact .inl done.1
  · rintro fault after (⟨rfl, -⟩ | ⟨⟨-, admitted, -⟩, pass, lays, rfl⟩)
    · exact .inl rfl
    · exact .inr ⟨pass, enters _ admitted lays, .failed rfl⟩

/-- A transformation leaves the host alone, or it runs a pass into it. -/
theorem ends (wf : host.scope.graph.WellFormed) (bodyWf : t.body.WellFormed) :
    t.Ends policy host (t.leaves policy host) := by
  cases t with
  | inlineMethod callee block call =>
      suffices ended : Ensures (Inlining.inlineMethod policy callee block call) host
          (fun _ after => (inlineMethod callee block call).Ends policy host after)
          (fun _ after => (inlineMethod callee block call).Ends policy host after) from ended.left
      unfold Inlining.inlineMethod
      cases bound : CallBinding.of? call with
      | none => exact Ensures.of_throw (.inl rfl)
      | some binding =>
          exact ensures_splice_ends (t := inlineMethod callee block call) rfl wf bodyWf
            (fun _ admitted lays => ⟨admitted, binding, bound, lays⟩)
            fun _ _ _ baseWf entryRole exitRole =>
              ensures_layMethod binding policy.logYields baseWf bodyWf entryRole exitRole
  | cloneClosure source =>
      suffices ended : Ensures (Inlining.cloneClosure policy source) host
          (fun _ after => (cloneClosure source).Ends policy host after)
          (fun _ after => (cloneClosure source).Ends policy host after) from ended.left
      apply (ensures_cloneClosure wf bodyWf).mono
      · rintro report after ⟨copied, passEq⟩
        exact .inr ⟨copied.pass, passEq, .given copied.after_eq⟩
      · exact fun _ _ impossible => impossible.elim
  | inlineClosure closure block yielding =>
      suffices ended : Ensures (Inlining.inlineClosure policy closure block yielding) host
          (fun _ after => (inlineClosure closure block yielding).Ends policy host after)
          (fun _ after => (inlineClosure closure block yielding).Ends policy host after) from
        ended.left
      have closureWf : closure.WellFormed := bodyWf
      unfold Inlining.inlineClosure
      cases bound : YieldBinding.of? yielding with
      | none => exact Ensures.of_throw (.inl rfl)
      | some binding =>
          exact ensures_splice_ends (t := inlineClosure closure block yielding) rfl wf bodyWf
            (fun _ admitted lays => ⟨admitted, binding, bound, lays⟩)
            fun _ _ _ baseWf entryRole exitRole => by
              rw [migrateBlocks_liveIds_eq closureWf]
              exact ensures_layClosure binding baseWf bodyWf entryRole exitRole

/-- A transformation leaves the host alone, or it runs a pass to which all that is new is traced. -/
theorem settles (wf : host.scope.graph.WellFormed) (bodyWf : t.body.WellFormed) :
    t.Settles policy host (t.leaves policy host) := by
  rcases t.ends wf bodyWf with alone | ⟨pass, enters, finishes⟩
  · exact .inl alone
  · rcases exists_base_of_enters wf bodyWf enters with ⟨base, _, prepares, -, tracked⟩
    exact .inr ⟨pass, enters, finishes.traced prepares tracked.accounts⟩

/-- What a pass introduces is new to a hygienic host. -/
theorem Enters.fresh (enters : t.Enters policy host pass) (wf : host.scope.graph.WellFormed)
    (bodyWf : t.body.WellFormed) (hygienic : host.scope.Hygienic) : t.Fresh host pass := by
  rcases exists_base_of_enters wf bodyWf enters with ⟨base, _, prepares, modeEq, tracked⟩
  have passMode : pass.mode = t.mode := (congrArg Setting.mode tracked.setting_eq).trans modeEq
  exact prepares.fresh tracked.named passMode hygienic

/-- A transformation leaves a hygienic host hygienic, whatever its outcome. -/
theorem hygienic_leaves (wf : host.scope.graph.WellFormed) (bodyWf : t.body.WellFormed)
    (hygienic : host.scope.Hygienic) : (t.leaves policy host).scope.Hygienic := by
  rcases t.settles wf bodyWf with alone | ⟨pass, enters, traced⟩
  · rw [alone]
    exact hygienic
  · rcases exists_base_of_enters wf bodyWf enters with ⟨base, _, prepares, -, tracked⟩
    exact traced.hygienic prepares tracked.named hygienic

end Passes

end Transformation

end Inlining

end FlowIR
