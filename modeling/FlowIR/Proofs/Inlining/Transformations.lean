import FlowIR.Proofs.Inlining.Clashes

/-!
# The three transformations

What inlining a method, inlining a closure and cloning a closure leave of a well-formed host, where
they end and where they fail.
-/

namespace FlowIR.Inlining

/-! ## Transformations by name -/

/-- A transformation of a host, with the body that it brings along. -/
inductive Transformation where
  | inlineMethod (callee : Graph) (block : BlockId) (call : Instr)
  | cloneClosure (source : Graph)
  | inlineClosure (closure : Graph) (block : BlockId) (yielding : Instr)

namespace Transformation

/-- The body that is carried over. -/
def body : Transformation → Graph
  | inlineMethod callee _ _ => callee
  | cloneClosure source => source
  | inlineClosure closure _ _ => closure

/-- The call or yield in whose place the body is put, with its block. -/
def site? : Transformation → Option (BlockId × Instr)
  | inlineMethod _ block call => some (block, call)
  | cloneClosure _ => none
  | inlineClosure _ block yielding => some (block, yielding)

/-- The host that the transformation leaves, whether it ends or fails. -/
def leaves (policy : Policy) : Transformation → Host → Host
  | inlineMethod callee block call => left (Inlining.inlineMethod policy callee block call)
  | cloneClosure source => left (Inlining.cloneClosure policy source)
  | inlineClosure closure block yielding =>
      left (Inlining.inlineClosure policy closure block yielding)

end Transformation

variable {policy : Policy} {host : Host} {body : Graph} {block : BlockId} {site : Instr}

/-! ## Inlining a method -/

/-- The setting of a pass that puts a method body in the place of a call. -/
def CallBinding.setting (call : CallBinding) (logging : Bool) : Setting :=
  { mode := .inlineMethod, call := some call, yielded := none, logging := logging }

theorem forMethod_starts (call : CallBinding) (logging : Bool) :
    Starts (Pass.forMethod call logging) (call.setting logging) where
  host_eq := fun _ => rfl
  setting_eq := fun _ => rfl
  blocks_eq := fun _ => rfl
  vars_eq := fun _ => rfl
  labels_eq := fun _ => rfl
  sites_eq := fun _ => rfl

/-- Laying a method into a host fails only for a dead end. -/
theorem ensures_layMethod {base : Host} {entry exit : BlockId} (call : CallBinding) (logging : Bool)
    (wf : base.scope.graph.WellFormed) (bodyWf : body.WellFormed)
    (entryRole : body.entry = some entry) (exitRole : body.exit = some exit) :
    Ensures (runPass (Pass.forMethod call logging)
      (layBody (carryBlocks cloneBlockForCall body.liveBlocks) body entry exit)) base
      (fun result after =>
        Laid base (call.setting logging) call.rule true body entry exit result after ∧ True)
      (fun fault after => after.scope.graph.WellFormed ∧ DeadEnd body fault) := by
  have laying : Ensures (layInside (carryBlocks cloneBlockForCall body.liveBlocks) body)
      (Pass.forMethod call logging base)
      (fun blocks pass => (CarriedBody base (call.setting logging) call.rule true body pass ∧
        blocks = (List.range body.liveBlocks.length).map base.scope.graph.idAt) ∧ True)
      (fun _ pass => pass.graph.WellFormed ∧ False) := by
    apply ensures_carryBody_of_carries (forMethod_starts call logging)
      (cloneBlockForCall_carries rfl) wf bodyWf
    · exact fun pass carried => Ensures.of_pure ⟨⟨carried, rfl⟩, trivial⟩
    · rintro _ _ ⟨closure, -⟩
      contradiction
  apply (ensures_layBody entryRole exitRole laying).mono
  · exact fun _ _ laid => laid
  · exact fun _ _ failed => failed.imp_right fun broken => (broken.resolve_left not_false).2

/-- A method is skipped for its size, refused, or spliced in under the rule of the call; an admitted
request can fail only for a dead end of the method. -/
theorem ensures_inlineMethod (wf : host.scope.graph.WellFormed) (bodyWf : body.WellFormed) :
    Ensures (inlineMethod policy body block site) host
      (fun outcome after => match outcome with
        | .skipped excess => (after = host ∧ Bounded body ∧ excess? policy body = some excess) ∧
            ∃ call, CallBinding.of? site = some call
        | .inlined report => Admitted policy host body block site ∧
            ∃ call, CallBinding.of? site = some call ∧
              Nonempty (Splicing host policy (call.setting policy.logYields) call.rule true body
                block site report after))
      (fun fault after =>
        after = host ∧ (CallBinding.of? site = none ∨ Refused policy host body block site fault) ∨
          after.scope.graph.WellFormed ∧ (∃ call, CallBinding.of? site = some call) ∧
            Admitted policy host body block site ∧ DeadEnd body fault) := by
  unfold inlineMethod
  cases bound : CallBinding.of? site with
  | none => exact Ensures.of_throw (.inl ⟨rfl, .inl rfl⟩)
  | some call =>
      apply (ensures_splice wf bodyWf fun _ _ _ baseWf entryRole exitRole =>
        ensures_layMethod call policy.logYields baseWf bodyWf entryRole exitRole).mono
      · intro outcome after done
        cases outcome with
        | skipped excess => exact ⟨done, call, rfl⟩
        | inlined report =>
            rcases done.2.2 with ⟨splicing, -⟩
            exact ⟨done.1, call, rfl, ⟨splicing⟩⟩
      · rintro fault after (refused | ⟨⟨afterWf, admitted, dead⟩, -⟩)
        · exact .inl ⟨refused.1, .inr refused.2⟩
        · exact .inr ⟨afterWf, ⟨call, rfl⟩, admitted, dead⟩

/-! ## Inlining a closure -/

/-- The setting of a pass that puts a closure body in the place of a yield. -/
def YieldBinding.setting (yielded : YieldBinding) : Setting :=
  { mode := .inlineClosure, call := none, yielded := some yielded, logging := true }

theorem forClosure_starts (yielded : YieldBinding) :
    Starts (Pass.forClosure yielded) yielded.setting where
  host_eq := fun _ => rfl
  setting_eq := fun _ => rfl
  blocks_eq := fun _ => rfl
  vars_eq := fun _ => rfl
  labels_eq := fun _ => rfl
  sites_eq := fun _ => rfl

/-- Moving the live blocks of a well-formed closure carries them over in order. -/
theorem migrateBlocks_liveIds_eq (bodyWf : body.WellFormed) :
    (do return (← migrateBlocks body body.liveIds).1 : Step (List BlockId)) =
      carryBlocks migrate body.liveBlocks := by
  obtain ⟨left, migrates⟩ := exists_migrateBlocks_eq
    (fun block member => (bodyWf.mem_liveBlocks_iff.mp member).1) bodyWf.liveIds_nodup
  rw [Graph.liveIds, migrates]
  simp only [bind_assoc, pure_bind, bind_pure]

/-- No two locals in the live part of a closure become one when it moves one scope up. -/
def LocalsApart (body : Graph) : Prop :=
  ∀ a b, .var (.named a) ∈ liveMentions body → .var (.named b) ∈ liveMentions body →
    Mode.inlineClosure.local? a = Mode.inlineClosure.local? b → a = b

/-- A pass that has met all locals has found them to stay apart. -/
theorem Named.localsApart {base : Scope} {pass : Pass} (named : Named base pass)
    (closure : pass.mode = .inlineClosure)
    (known : ∀ v, .var v ∈ liveMentions body → pass.Knows v) : LocalsApart body := by
  have settled : ∀ place, .var (.named place) ∈ liveMentions body →
      pass.vars.target? (.named place) = (Mode.inlineClosure.local? place).map .named := by
    intro place mentioned
    rcases known _ mentioned with ⟨target, found⟩
    rcases named.var_target _ target found with settled | ⟨unsettled, -⟩
    · rw [closure] at settled
      rw [found]
      exact settled.symm
    · rw [closure] at unsettled
      contradiction
  intro a b aMentioned bMentioned same
  have aTarget := settled a aMentioned
  have bTarget := settled b bMentioned
  rw [← same] at bTarget
  exact Variable.named.inj (named.vars_oneToOne.source_eq aTarget bTarget)

/-- Laying the blocks and edges of a closure meets all its variables and no others, so it fails
exactly where two of its locals would become one. -/
theorem ensures_layClosureInside {base : Host} (yielded : YieldBinding)
    (wf : base.scope.graph.WellFormed) (bodyWf : body.WellFormed) :
    Ensures (layInside (carryBlocks migrate body.liveBlocks) body) (Pass.forClosure yielded base)
      (fun blocks pass => (CarriedBody base yielded.setting yielded.rule false body pass ∧
        blocks = (List.range body.liveBlocks.length).map base.scope.graph.idAt) ∧ LocalsApart body)
      (fun fault pass => pass.graph.WellFormed ∧ ¬ LocalsApart body ∧
        ∃ source target holder, fault = .renameConflict source target holder) := by
  let met (v : Variable) : Prop := .var v ∈ liveMentions body
  have starts : Starts (Pass.forClosure yielded) yielded.setting := forClosure_starts yielded
  have carried : Ensures (layInside (carryBlocks migrate body.liveBlocks) body)
      (Pass.forClosure yielded base)
      (fun blocks pass => CarriedBody base yielded.setting yielded.rule false body pass ∧
        blocks = (List.range body.liveBlocks.length).map base.scope.graph.idAt)
      (fun fault pass => Aborted yielded.setting fault pass ∧ ¬ LocalsApart body) := by
    apply ensures_carryBody (fun pass => pass.MeetsOnly met) starts wf bodyWf
    · exact nofun
    · exact fun _ _ only => only
    · intro source member pass only ready
      have live := (bodyWf.mem_liveBlocks_iff.mp member).2
      apply (migrate_carries rfl source pass live ready).and
      apply ensures_migrate_meetsOnly rfl rfl live _ ready only
      exact fun v mentioned => List.mem_append_left _
        (List.mem_flatMap.mpr ⟨source, member, mentioned⟩)
    · intro edge member pass only named settingEq passWf
      have attached : ∀ v, edge.data = some (.var v) → met v := fun v same =>
        List.mem_append_right _ (List.mem_filterMap.mpr ⟨edge, member, same⟩)
      have closure : pass.frame.setting.mode = .inlineClosure := congrArg Setting.mode settingEq
      apply (((translates_renameOperand? edge.data).ensures named settingEq passWf).and
        (confined_renameOperand? closure attached pass named rfl only)).mono
      · exact fun _ _ done => ⟨done.1, done.2.2⟩
      · exact fun _ _ failed => failed
    · exact fun pass done _ => Ensures.of_pure ⟨done, rfl⟩
  have tracked : Tracked base.scope yielded.setting (fun _ => True)
      (Pass.forClosure yielded base) :=
    tracked_start starts wf
  apply (carried.and (tracked.migrateBody rfl (yielded.draws.mono fun _ _ => trivial))).mono
  · rintro blocks pass ⟨done, -, known⟩
    exact ⟨done, done.1.named.localsApart (congrArg Setting.mode done.1.setting_eq) known⟩
  · rintro fault pass ⟨⟨⟨-, conflict, passWf⟩, clash⟩, -⟩
    exact ⟨passWf, clash, conflict⟩

/-- Why a closure could not be laid: two of its locals would become one, or they stay apart and
one of its ends is dead. -/
def Unlaid (body : Graph) (fault : Fault) : Prop :=
  (¬ LocalsApart body ∧ ∃ source target holder, fault = .renameConflict source target holder) ∨
    LocalsApart body ∧ DeadEnd body fault

theorem ensures_layClosure {base : Host} {entry exit : BlockId} (yielded : YieldBinding)
    (wf : base.scope.graph.WellFormed) (bodyWf : body.WellFormed)
    (entryRole : body.entry = some entry) (exitRole : body.exit = some exit) :
    Ensures (runPass (Pass.forClosure yielded)
      (layBody (carryBlocks migrate body.liveBlocks) body entry exit)) base
      (fun result after =>
        Laid base yielded.setting yielded.rule false body entry exit result after ∧
        LocalsApart body)
      (fun fault after => after.scope.graph.WellFormed ∧ Unlaid body fault) :=
  ensures_layBody entryRole exitRole (ensures_layClosureInside yielded wf bodyWf)

/-- A closure is skipped for its size, refused, or spliced in under the rule of the yield, where its
locals stay apart; an admitted request fails because two of its locals would become one, or else for
a dead end of the closure. -/
theorem ensures_inlineClosure (wf : host.scope.graph.WellFormed) (bodyWf : body.WellFormed) :
    Ensures (inlineClosure policy body block site) host
      (fun outcome after => match outcome with
        | .skipped excess => (after = host ∧ Bounded body ∧ excess? policy body = some excess) ∧
            ∃ yielded, YieldBinding.of? site = some yielded
        | .inlined report => (Admitted policy host body block site ∧ LocalsApart body) ∧
            ∃ yielded, YieldBinding.of? site = some yielded ∧
              Nonempty (Splicing host policy yielded.setting yielded.rule false body block site
                report after))
      (fun fault after =>
        after = host ∧ (YieldBinding.of? site = none ∨ Refused policy host body block site fault) ∨
          after.scope.graph.WellFormed ∧ Admitted policy host body block site ∧
            (∃ yielded, YieldBinding.of? site = some yielded) ∧ Unlaid body fault) := by
  unfold inlineClosure
  cases bound : YieldBinding.of? site with
  | none => exact Ensures.of_throw (.inl ⟨rfl, .inl rfl⟩)
  | some yielded =>
      dsimp only
      rw [migrateBlocks_liveIds_eq bodyWf]
      apply (ensures_splice wf bodyWf fun _ _ _ baseWf entryRole exitRole =>
        ensures_layClosure yielded baseWf bodyWf entryRole exitRole).mono
      · intro outcome after done
        cases outcome with
        | skipped excess => exact ⟨done, yielded, rfl⟩
        | inlined report =>
            rcases done.2.2 with ⟨splicing, -⟩
            exact ⟨⟨done.1, done.2.1⟩, yielded, rfl, ⟨splicing⟩⟩
      · rintro fault after (refused | ⟨⟨afterWf, admitted, broken⟩, -⟩)
        · exact .inl ⟨refused.1, .inr refused.2⟩
        · exact .inr ⟨afterWf, admitted, ⟨yielded, rfl⟩, broken⟩

/-! ## Inlining at a site -/

/-- A request to inline the body at the site has been carried out. -/
def Inlines (policy : Policy) (body : Graph) (block : BlockId) (site : Instr) (report : Report)
    (host after : Host) : Prop :=
  inlineMethod policy body block site host = .ok (.inlined report) after ∨
    inlineClosure policy body block site host = .ok (.inlined report) after

/-- The rule for a body that takes the place of a site, which is a call or a yield. -/
def Rule.ofSite? (site : Instr) : Option Rule :=
  ((CallBinding.of? site).map CallBinding.rule).or ((YieldBinding.of? site).map YieldBinding.rule)

theorem Rule.ofSite?_call {call : CallBinding} (bound : CallBinding.of? site = some call) :
    Rule.ofSite? site = some call.rule := by
  simp [ofSite?, bound]

theorem Rule.ofSite?_yield {yielded : YieldBinding} (bound : YieldBinding.of? site = some yielded) :
    Rule.ofSite? site = some yielded.rule := by
  cases site <;> simp_all [ofSite?, CallBinding.of?, YieldBinding.of?]

/-- Whatever was inlined was spliced in under the rule of its site. -/
theorem Inlines.exists_splicing {report : Report} {after : Host}
    (inlined : Inlines policy body block site report host after)
    (wf : host.scope.graph.WellFormed) (bodyWf : body.WellFormed) :
    ∃ setting rule log, Rule.ofSite? site = some rule ∧
      Nonempty (Splicing host policy setting rule log body block site report after) := by
  rcases inlined with method | closure
  · rcases (ensures_inlineMethod wf bodyWf).of_ok method with ⟨-, call, bound, splicing⟩
    exact ⟨_, _, _, Rule.ofSite?_call bound, splicing⟩
  · rcases (ensures_inlineClosure wf bodyWf).of_ok closure with ⟨-, yielded, bound, splicing⟩
    exact ⟨_, _, _, Rule.ofSite?_yield bound, splicing⟩

/-! ### A host with two calls and a yield -/

/-- The call that is made twice by `sampleHost`. -/
def sampleCall : Instr :=
  .call (some (.temporary 0)) (.var (.temporary 0)) "check" [] none

/-- The yield of `sampleHost`. -/
def sampleYield : Instr :=
  .yield (some (.temporary 1)) (.var (.temporary 2)) (some (.var (.temporary 0)))

/-- A host whose only block is its entry and its exit and has an edge to itself. -/
def sampleHost : Host where
  nextLiteral := 5
  scope :=
    { name := "caller", kind := .method, nextTemp := 3
      graph :=
        { ({ id := 0 } : Graph).registerAll
            [{ id := ⟨0, 0⟩, label := ⟨"start"⟩
               instrs := [.nop, sampleCall, sampleCall, sampleYield] }] with
          edges := [⟨⟨0, 0⟩, ⟨0, 0⟩, .regular, none⟩]
          entry := some ⟨0, 0⟩
          exit := some ⟨0, 0⟩ } }

/-- A method that asks for an argument and branches to a later block. -/
def sampleMethod : Graph :=
  { ({ id := 1 } : Graph).registerAll
      [{ id := ⟨1, 0⟩, label := ⟨"start"⟩
         instrs :=
          [.receiveArgument (.named ⟨"x", 1⟩) 0, .branch (.var (.named ⟨"x", 1⟩)) ⟨"done"⟩] },
       { id := ⟨1, 1⟩, label := ⟨"done"⟩
         instrs :=
          [.receiveSelf (.temporary 0), .nop, .methodReturn (.var (.named ⟨"x", 1⟩))] }] with
    edges := [⟨⟨1, 0⟩, ⟨1, 1⟩, .regular, some (.var (.named ⟨"x", 1⟩))⟩]
    entry := some ⟨1, 0⟩
    exit := some ⟨1, 1⟩ }

/-- A closure that returns its argument. -/
def sampleClosure : Graph :=
  { ({ id := 2 } : Graph).registerAll
      [{ id := ⟨2, 0⟩, label := ⟨"start"⟩
         instrs :=
          [.receiveArgument (.named ⟨"y", 2⟩) 0, .closureReturn (.var (.named ⟨"y", 2⟩))] }] with
    entry := some ⟨2, 0⟩
    exit := some ⟨2, 0⟩ }

/-- A policy that logs yields and does not prune. -/
def samplePolicy : Policy where
  maxBlocks := 8
  maxInstrs := 64
  logYields := true
  prune := false

/-- The host that a request leaves, and whether the request was carried out. -/
def HostStep.result (step : HostStep Outcome) (host : Host) : Host × Bool :=
  match step host with
  | .ok (.inlined _) after => (after, true)
  | .ok (.skipped _) after => (after, false)
  | .error _ after => (after, false)

theorem HostStep.exists_report (step : HostStep Outcome) (host : Host)
    (done : (step.result host).2 = true) :
    ∃ report, step host = .ok (.inlined report) (step.result host).1 := by
  unfold result at done ⊢
  cases outcome : step host with
  | error fault after =>
      rw [outcome] at done
      contradiction
  | ok value after =>
      rw [outcome] at done
      cases value with
      | inlined report => exact ⟨report, rfl⟩
      | skipped excess => contradiction

/-- The sample host after its first call was inlined. -/
def sampleHostAfterCall : Host :=
  (HostStep.result (inlineMethod samplePolicy sampleMethod ⟨0, 0⟩ sampleCall) sampleHost).1

/-! ## Cloning a closure -/

/-- The setting of a pass that copies a closure body. -/
def cloneSetting : Setting :=
  { mode := .cloneClosure, call := none, yielded := none, logging := true }

theorem forClone_starts : Starts Pass.forClone cloneSetting where
  host_eq := fun _ => rfl
  setting_eq := fun _ => rfl
  blocks_eq := fun _ => rfl
  vars_eq := fun _ => rfl
  labels_eq := fun _ => rfl
  sites_eq := fun _ => rfl

/-- Lay a copy of a body into a host. -/
def copyBody (body : Graph) : Step (List BlockId) := do
  let blocks ← carryBlocks cloneBlockForCopy body.liveBlocks
  copyEdges body.edges
  return blocks

/-- The graph with the roles that are given, and its own where none is. -/
def withRoles (g : Graph) (entry exit : Option BlockId) : Graph :=
  { g with entry := entry.or g.entry, exit := exit.or g.exit }

/-- How a closure was copied into a host. -/
structure Copied (host : Host) (policy : Policy) (body : Graph) (report : CloneReport)
    (after : Host) where
  pass : Pass
  carried : CarriedBody host cloneSetting copyRule false body pass
  blocks_eq : report.blocks = (List.range body.liveBlocks.length).map host.scope.graph.idAt
  entry_eq : report.entry = body.entry.bind pass.blocks.target?
  exit_eq : report.exit = body.exit.bind pass.blocks.target?
  after_eq : after = Host.graphFocus.set
    (prunedBy policy (withRoles pass.graph report.entry report.exit)) pass.host

section Roles

variable {α : Type} {role : Option BlockId} {next : HostStep α} {post : α → Host → Prop}
  {fail : Fault → Host → Prop}

/-- A role is handed over to a block of the graph, or stays when there is none to take it. -/
theorem ensures_giveEntry (owns : ∀ id, role = some id → host.scope.graph.Owns id)
    (rest : Ensures next
      (Host.graphFocus.set { host.scope.graph with entry := role.or host.scope.graph.entry } host)
      post fail) :
    Ensures (match role with
      | some id => do
        editHost (Graph.setEntry id)
        next
      | _ => next) host post fail := by
  cases role with
  | none => exact rest
  | some id =>
      rcases owns id rfl with ⟨_, found⟩
      have given : Graph.setEntry id host.scope.graph =
          .ok () { host.scope.graph with entry := some id } := by
        rw [Graph.setEntry_apply, found]
      exact Ensures.of_ok_bind (Focus.run_eq_ok Host.graphFocus given) rest

theorem ensures_giveExit (owns : ∀ id, role = some id → host.scope.graph.Owns id)
    (rest : Ensures next
      (Host.graphFocus.set { host.scope.graph with exit := role.or host.scope.graph.exit } host)
      post fail) :
    Ensures (match role with
      | some id => do
        editHost (Graph.setExit id)
        next
      | _ => next) host post fail := by
  cases role with
  | none => exact rest
  | some id =>
      rcases owns id rfl with ⟨_, found⟩
      have given : Graph.setExit id host.scope.graph =
          .ok () { host.scope.graph with exit := some id } := by
        rw [Graph.setExit_apply, found]
      exact Ensures.of_ok_bind (Focus.run_eq_ok Host.graphFocus given) rest

end Roles

/-- Cloning a closure never fails. -/
theorem ensures_cloneClosure (wf : host.scope.graph.WellFormed) (bodyWf : body.WellFormed) :
    Ensures (cloneClosure policy body) host
      (fun report after => ∃ copied : Copied host policy body report after,
        copied.pass = left (copyBody body) (Pass.forClone host))
      (fun _ _ => False) := by
  unfold cloneClosure
  have copied : Ensures (runPass Pass.forClone (copyBody body)) host
      (fun result after => after = result.2.host ∧
        CarriedBody host cloneSetting copyRule false body result.2 ∧
        result.1 = (List.range body.liveBlocks.length).map host.scope.graph.idAt)
      (fun _ _ => False) := by
    apply ensures_runPass
    apply ensures_carryBody_of_carries forClone_starts cloneBlockForCopy_carries wf bodyWf
    · intro pass carried
      exact Ensures.of_pure ⟨rfl, carried, rfl⟩
    · rintro _ _ ⟨closure, -⟩
      contradiction
  apply ((copied.and (ensures_runPass_left Pass.forClone (copyBody body) host)).mono
    (fun _ _ done => done) (fun _ _ failed => failed.1)).bind
  rintro ⟨blocks, pass⟩ after ⟨⟨rfl, carried, rfl⟩, passEq, -⟩
  have owns : ∀ role id, Option.bind role pass.blocks.target? = some id → pass.graph.Owns id := by
    intro role id given
    rcases Option.bind_eq_some_iff.mp given with ⟨source, -, known⟩
    exact carried.owns_of_target? wf bodyWf known
  apply ensures_giveEntry (owns body.entry)
  dsimp only
  apply ensures_giveExit
  · exact owns body.exit
  obtain ⟨count, pruned⟩ := exists_pruneBy_eq_ok policy (withRoles pass.graph
    (body.entry.bind pass.blocks.target?) (body.exit.bind pass.blocks.target?))
  apply Ensures.of_ok_bind (Focus.run_eq_ok Host.graphFocus pruned)
  exact Ensures.of_pure ⟨{
    pass := pass, carried := carried, blocks_eq := rfl, entry_eq := rfl, exit_eq := rfl
    after_eq := rfl }, passEq⟩

theorem withRoles_wellFormed {g : Graph} (wf : g.WellFormed) {entry exit : Option BlockId}
    (entryOwned : ∀ id, entry = some id → g.Owns id)
    (exitOwned : ∀ id, exit = some id → g.Owns id) :
    (withRoles g entry exit).WellFormed where
  slots := wf.slots
  ordered := wf.ordered
  labelled := wf.labelled
  labels_nodup := wf.labels_nodup
  linked := wf.linked
  links_nodup := wf.links_nodup
  entry_owned := by
    intro id role
    rcases Option.or_eq_some_iff.mp role with given | ⟨-, own⟩
    · exact entryOwned id given
    · exact wf.entry_owned id own
  exit_owned := by
    intro id role
    rcases Option.or_eq_some_iff.mp role with given | ⟨-, own⟩
    · exact exitOwned id given
    · exact wf.exit_owned id own

namespace Copied

variable {report : CloneReport} {after : Host} (copied : Copied host policy body report after)

include copied

/-- The graph with the copy, before the policy has it pruned. -/
def graph : Graph :=
  withRoles copied.pass.graph report.entry report.exit

theorem graph_eq : after.scope.graph = prunedBy policy copied.graph :=
  congrArg (·.scope.graph) copied.after_eq

theorem graph_wellFormed (wf : host.scope.graph.WellFormed) (bodyWf : body.WellFormed) :
    copied.graph.WellFormed := by
  have owns : ∀ role id, Option.bind role copied.pass.blocks.target? = some id →
      copied.pass.graph.Owns id := by
    intro role id given
    rcases Option.bind_eq_some_iff.mp given with ⟨source, -, known⟩
    exact copied.carried.owns_of_target? wf bodyWf known
  unfold graph
  rw [copied.entry_eq, copied.exit_eq]
  exact withRoles_wellFormed copied.carried.wellFormed (owns body.entry) (owns body.exit)

end Copied

end FlowIR.Inlining
