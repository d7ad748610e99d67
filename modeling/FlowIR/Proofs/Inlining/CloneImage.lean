import FlowIR.Proofs.Inlining.MethodImage

/-!
# A copied closure is a renamed image beside the host

Copying a closure lays the image of its live part beside what the host holds, and no edge joins
the two.  The substitution keeps all locals, because the copy is nested as the closure is, and
gives new names to temporaries and labels.  Where the copy takes over the entry, the paths from
the entry are the images of those in the closure, and so a policy that prunes keeps the images of
what the closure reaches.
-/

namespace FlowIR.Inlining

open FlowIR.Graph

variable {policy : Policy} {host after : Host} {body : Graph} {report : CloneReport}
  {σ : Substitution}

/-! ## What the substitution does -/

/-- What the variables of a copied closure become, given what its temporaries become. -/
def keepLocals (temp : Variable → Variable) : Variable → Variable
  | .named place => .named place
  | .temporary index => temp (.temporary index)

/-- A copied closure keeps its locals, and its temporaries get temporaries of their own that the
host had not handed out. -/
theorem Named.exists_copied_var {base : Scope} {pass : Pass} (named : Named base pass)
    (copies : pass.mode = .cloneClosure) :
    ∃ var : Variable → Variable, Function.Injective var ∧
      (∀ v target, pass.vars.target? v = some target → var v = target) ∧
      (∀ place, var (.named place) = .named place) ∧
      ∀ index, ∃ n, var (.temporary index) = .temporary n ∧ base.nextTemp ≤ n := by
  rcases named.exists_unsettled_var with ⟨temp, tempInjective, tempExtends, tempNew⟩
  have new : ∀ index, ∃ n, temp (.temporary index) = .temporary n ∧ base.nextTemp ≤ n :=
    fun index => tempNew _ rfl
  refine ⟨keepLocals temp, ?_, ?_, fun _ => rfl, new⟩
  · intro v w same
    cases v with
    | named place =>
        cases w with
        | named other => exact same
        | temporary index =>
            rcases new index with ⟨n, isTemp, -⟩
            rw [keepLocals, keepLocals, isTemp] at same
            contradiction
    | temporary index =>
        cases w with
        | named place =>
            rcases new index with ⟨n, isTemp, -⟩
            rw [keepLocals, keepLocals, isTemp] at same
            contradiction
        | temporary other => exact tempInjective same
  · intro v target known
    cases v with
    | temporary index => exact tempExtends _ target known
    | named place =>
        rcases named.var_target _ target known with settled | ⟨unsettled, -⟩
        · rw [copies] at settled
          exact Option.some.inj settled
        · rw [copies] at unsettled
          contradiction

/-! ## The host beside the copy -/

namespace Copied

variable (copied : Copied host policy body report after)

include copied

/-- The block stands in the host with its image, in the graph before pruning. -/
theorem owned_copy (wf : host.scope.graph.WellFormed) (bodyWf : body.WellFormed)
    (agrees : copied.pass.Agrees σ) {block : Block} (live : block ∈ body.liveBlocks) :
    copied.graph.owned (σ.block block.id) = .ok (σ.copied block) := by
  have member : σ.copied block ∈ (copyRule.blocks σ host.nextLiteral body.liveBlocks).1 := by
    rw [copyRule_blocks]
    exact List.mem_map_of_mem live
  exact copied.carried.owned_image wf bodyWf agrees member

/-- The blocks of the graph are those of the host and the copies. -/
theorem owned_cases (agrees : copied.pass.Agrees σ) {id : BlockId} {held : Block}
    (found : copied.graph.owned id = .ok held) :
    host.scope.graph.owned id = .ok held ∨
      ∃ block ∈ body.liveBlocks, id = σ.block block.id ∧ held = σ.copied block := by
  rcases copied.carried.owned_cases agrees found with old | ⟨member, rfl⟩
  · exact .inl old
  · rw [copyRule_blocks] at member
    rcases List.mem_map.mp member with ⟨block, live, rfl⟩
    exact .inr ⟨block, live, rfl, rfl⟩

theorem owned_of_host {id : BlockId} {held : Block} (found : host.scope.graph.owned id = .ok held) :
    copied.graph.owned id = .ok held :=
  copied.carried.owned_of_owned found

theorem edges_eq (agrees : copied.pass.Agrees σ) :
    copied.graph.edges = host.scope.graph.edges ++ edgeImages σ body :=
  copied.carried.edges_eq agrees

theorem blocks_eq_map (agrees : copied.pass.Agrees σ) :
    report.blocks = body.liveIds.map σ.block := by
  rw [copied.blocks_eq, copied.carried.map_block_liveIds agrees]

/-- No block of the host is a copy. -/
theorem not_owns_copy (wf : host.scope.graph.WellFormed) {id : BlockId}
    (member : id ∈ report.blocks) :
    ¬ host.scope.graph.Owns id := by
  rw [copied.blocks_eq] at member
  rcases List.mem_map.mp member with ⟨i, -, rfl⟩
  exact wf.not_owns_idAt i

theorem blocks_nodup : report.blocks.Nodup := by
  rw [copied.blocks_eq]
  exact List.nodup_range.map fun i j same => idAt_inj.mp same

/-- A role goes to the image of the block that has it in the body, if that is
live, and else stays. -/
theorem bind_target?_eq (agrees : copied.pass.Agrees σ) (role : Option BlockId) :
    role.bind copied.pass.blocks.target? = (role.filter (· ∈ body.liveIds)).map σ.block := by
  cases role with
  | none => rfl
  | some id =>
      by_cases live : id ∈ body.liveIds
      · rcases List.mem_iff_getElem?.mp live with ⟨i, at_i⟩
        have known := copied.carried.carried i id at_i
        rw [Option.filter_some, if_pos (decide_eq_true live), Option.bind_some, known,
          Option.map_some, agrees.block id _ known]
      · rw [Option.filter_some, if_neg (by simpa using live), Option.bind_some,
          copied.carried.others id live]
        rfl

/-! ### Live blocks -/

/-- A block that stood in the host is live in the graph exactly if it was. -/
theorem mem_liveIds_iff_of_owns (wf : host.scope.graph.WellFormed) (bodyWf : body.WellFormed)
    {id : BlockId} (owns : host.scope.graph.Owns id) :
    id ∈ copied.graph.liveIds ↔ id ∈ host.scope.graph.liveIds := by
  rcases owns with ⟨held, found⟩
  rw [(copied.graph_wellFormed wf bodyWf).mem_liveIds_iff, wf.mem_liveIds_iff, found,
    copied.owned_of_host found]

theorem copy_mem_liveIds (wf : host.scope.graph.WellFormed) (bodyWf : body.WellFormed)
    (agrees : copied.pass.Agrees σ) {id : BlockId} (live : id ∈ body.liveIds) :
    σ.block id ∈ copied.graph.liveIds := by
  rcases List.mem_map.mp live with ⟨block, member, rfl⟩
  rw [(copied.graph_wellFormed wf bodyWf).mem_liveIds_iff]
  exact ⟨_, copied.owned_copy wf bodyWf agrees member, (bodyWf.mem_liveBlocks_iff.mp member).2⟩

/-! ### Paths -/

/-- From a copy, edges lead to the copies of the live blocks to which they lead from the block. -/
theorem mem_successors_copy_iff (wf : host.scope.graph.WellFormed) (agrees : copied.pass.Agrees σ)
    {id next : BlockId} (live : id ∈ body.liveIds) :
    next ∈ copied.graph.successors (σ.block id) ↔
      ∃ target ∈ body.successors id, target ∈ body.liveIds ∧ next = σ.block target := by
  have new : ¬ host.scope.graph.Owns (σ.block id) :=
    copied.not_owns_copy wf (copied.blocks_eq_map agrees ▸ List.mem_map_of_mem live)
  rw [mem_successors_iff, copied.edges_eq agrees]
  constructor
  · rintro ⟨edge, member, sourceEq, rfl⟩
    rcases List.mem_append.mp member with old | image
    · exact absurd (sourceEq ▸ (wf.linked edge old).1) new
    · rcases List.mem_map.mp image with ⟨original, spanned, rfl⟩
      rcases List.mem_filter.mp spanned with ⟨held, ends⟩
      have ends := of_decide_eq_true ends
      have same : original.source = id := copied.carried.block_inj agrees ends.1 live sourceEq
      exact ⟨_, mem_successors_iff.mpr ⟨original, held, same, rfl⟩, ends.2, rfl⟩
  · rintro ⟨target, follows, targetLive, rfl⟩
    rcases mem_successors_iff.mp follows with ⟨edge, held, rfl, rfl⟩
    refine ⟨σ.edge edge, List.mem_append_right _ (List.mem_map_of_mem ?_), rfl, rfl⟩
    exact List.mem_filter.mpr ⟨held, decide_eq_true ⟨live, targetLive⟩⟩

/-- From a block of the host, edges lead where they led before. -/
theorem successors_of_owns (wf : host.scope.graph.WellFormed) (agrees : copied.pass.Agrees σ)
    {id next : BlockId} (owns : host.scope.graph.Owns id) :
    next ∈ copied.graph.successors id ↔ next ∈ host.scope.graph.successors id := by
  rw [mem_successors_iff, copied.edges_eq agrees, mem_successors_iff]
  constructor
  · rintro ⟨edge, member, rfl, rfl⟩
    rcases List.mem_append.mp member with old | image
    · exact ⟨edge, old, rfl, rfl⟩
    · rcases List.mem_map.mp image with ⟨original, spanned, rfl⟩
      have ends := of_decide_eq_true (List.mem_filter.mp spanned).2
      have new : (σ.edge original).source ∈ report.blocks := by
        rw [copied.blocks_eq_map agrees]
        exact List.mem_map_of_mem ends.1
      exact absurd owns (copied.not_owns_copy wf new)
  · rintro ⟨edge, member, rfl, rfl⟩
    exact ⟨edge, List.mem_append_left _ member, rfl, rfl⟩

/-- When the copy has taken over the entry, exactly the images of the blocks that are
reachable in the body are. -/
theorem reaches_iff_of_entry (wf : host.scope.graph.WellFormed) (bodyWf : body.WellFormed)
    (agrees : copied.pass.Agrees σ) {entry : BlockId} (role : body.entry = some entry)
    (live : entry ∈ body.liveIds) {id : BlockId} :
    copied.graph.Reaches id ↔ ∃ source, body.Reaches source ∧ id = σ.block source := by
  have entryEq : copied.graph.entry = some (σ.block entry) := by
    show report.entry.or _ = _
    rw [copied.entry_eq, copied.bind_target?_eq agrees, role, Option.filter_some,
      if_pos (decide_eq_true live)]
    rfl
  constructor
  · intro reaches
    induction reaches with
    | entry given _ =>
        rw [entryEq] at given
        exact ⟨entry, .entry role live, (Option.some.inj given).symm⟩
    | step _ follows _ ih =>
        rcases ih with ⟨source, reached, rfl⟩
        rcases (copied.mem_successors_copy_iff wf agrees reached.live).mp follows with
          ⟨target, leads, targetLive, rfl⟩
        exact ⟨target, .step reached leads targetLive, rfl⟩
  · rintro ⟨source, reached, rfl⟩
    induction reached with
    | entry given entryLive =>
        rw [role] at given
        obtain rfl := Option.some.inj given
        exact .entry entryEq (copied.copy_mem_liveIds wf bodyWf agrees entryLive)
    | step before leads nextLive ih =>
        refine .step ih ?_ (copied.copy_mem_liveIds wf bodyWf agrees nextLive)
        exact (copied.mem_successors_copy_iff wf agrees before.live).mpr ⟨_, leads, nextLive, rfl⟩

/-- When the entry has stayed with the host, exactly the blocks that were reachable are. -/
theorem reaches_iff_of_stays (wf : host.scope.graph.WellFormed) (bodyWf : body.WellFormed)
    (stays : report.entry = none) {id : BlockId} :
    copied.graph.Reaches id ↔ host.scope.graph.Reaches id := by
  have agrees := copied.pass.agrees_substitution
  have entryEq : copied.graph.entry = host.scope.graph.entry := by
    show report.entry.or copied.pass.graph.entry = _
    rw [stays, (copied.carried.image _ agrees).1]
    exact registerAll_entry _
  constructor
  · intro reaches
    induction reaches with
    | entry given live =>
        rw [entryEq] at given
        exact .entry given
          ((copied.mem_liveIds_iff_of_owns wf bodyWf (wf.entry_owned _ given)).mp live)
    | step _ follows live ih =>
        have owns := wf.owns_of_mem_liveIds ih.live
        have followed := (copied.successors_of_owns wf agrees owns).mp follows
        rcases mem_successors_iff.mp followed with ⟨edge, member, -, rfl⟩
        have nextOwns := (wf.linked edge member).2
        exact .step ih followed ((copied.mem_liveIds_iff_of_owns wf bodyWf nextOwns).mp live)
  · intro reaches
    induction reaches with
    | entry given live =>
        have owns := wf.owns_of_mem_liveIds live
        exact .entry (entryEq.trans given)
          ((copied.mem_liveIds_iff_of_owns wf bodyWf owns).mpr live)
    | step before follows live ih =>
        have owns := wf.owns_of_mem_liveIds before.live
        have nextOwns := wf.owns_of_mem_liveIds live
        exact .step ih ((copied.successors_of_owns wf agrees owns).mpr follows)
          ((copied.mem_liveIds_iff_of_owns wf bodyWf nextOwns).mpr live)

end Copied

/-! ## The image -/

/-- A host that has taken in the image of the live part of a closure under a substitution. -/
structure CloneImage (policy : Policy) (host : Host) (source : Graph) (report : CloneReport)
    (after : Host) (σ : Substitution) : Prop where
  /-- One new block for each live block, in the order of the closure. -/
  blocks_eq : report.blocks = source.liveIds.map σ.block
  blocks_nodup : report.blocks.Nodup
  new : ∀ id ∈ report.blocks, ¬ host.scope.graph.Owns id
  owns_iff : ∀ id, after.scope.graph.Owns id ↔ host.scope.graph.Owns id ∨ id ∈ report.blocks
  image : ∀ block ∈ source.liveBlocks, ∃ live,
    after.scope.graph.owned (σ.block block.id) = .ok ((σ.copied block).mark live)
  kept : ∀ id held, host.scope.graph.owned id = .ok held →
    ∃ live, after.scope.graph.owned id = .ok (held.mark live)
  edges_eq : after.scope.graph.edges = host.scope.graph.edges ++ edgeImages σ source
  /-- No edge joins a new block to an old one. -/
  copied_edges : after.scope.graph.edges.filter
      (fun edge => edge.source ∈ report.blocks ∨ edge.destination ∈ report.blocks) =
    edgeImages σ source
  report_entry : report.entry = (source.entry.filter (· ∈ source.liveIds)).map σ.block
  report_exit : report.exit = (source.exit.filter (· ∈ source.liveIds)).map σ.block
  entry_eq : after.scope.graph.entry = report.entry.or host.scope.graph.entry
  exit_eq : after.scope.graph.exit = report.exit.or host.scope.graph.exit
  /-- No new literals are made. -/
  nextLiteral_eq : after.nextLiteral = host.nextLiteral
  /-- Where nothing is pruned, the images are live and the liveness of the host's blocks stays. -/
  unpruned : policy.prune = false ∨ after.scope.graph.entry = none →
    (∀ id ∈ report.blocks, id ∈ after.scope.graph.liveIds) ∧
      ∀ id, host.scope.graph.Owns id →
        (id ∈ after.scope.graph.liveIds ↔ id ∈ host.scope.graph.liveIds)
  /-- Where the copy takes over the entry, pruning leaves the image of what the closure reaches. -/
  pruned_copy : policy.prune = true → report.entry ≠ none →
    (∀ id ∈ source.liveIds, (σ.block id ∈ after.scope.graph.liveIds ↔ id ∈ source.reachable)) ∧
      ∀ id, host.scope.graph.Owns id → id ∉ after.scope.graph.liveIds
  /-- Where the entry stays with the host, pruning leaves what the host reaches. -/
  pruned_host : policy.prune = true → report.entry = none → host.scope.graph.entry ≠ none →
    (∀ id ∈ report.blocks, id ∉ after.scope.graph.liveIds) ∧
      ∀ id, host.scope.graph.Owns id →
        (id ∈ after.scope.graph.liveIds ↔ id ∈ host.scope.graph.reachable)

namespace Copied

variable (copied : Copied host policy body report after)

include copied

theorem owns_graph_iff (wf : host.scope.graph.WellFormed) (bodyWf : body.WellFormed)
    {id : BlockId} :
    copied.graph.Owns id ↔ host.scope.graph.Owns id ∨ id ∈ report.blocks := by
  have agrees := copied.pass.agrees_substitution
  rw [copied.blocks_eq_map agrees]
  constructor
  · rintro ⟨held, found⟩
    rcases copied.owned_cases agrees found with old | ⟨block, live, rfl, -⟩
    · exact .inl ⟨held, old⟩
    · exact .inr (List.mem_map_of_mem (List.mem_map_of_mem live))
  · rintro (⟨held, found⟩ | new)
    · exact ⟨held, copied.owned_of_host found⟩
    · rcases List.mem_map.mp new with ⟨id, live, rfl⟩
      rcases List.mem_map.mp live with ⟨block, member, rfl⟩
      exact ⟨_, copied.owned_copy wf bodyWf agrees member⟩

/-- The edges at the new blocks are the images of those between live blocks. -/
theorem filter_edges_eq (wf : host.scope.graph.WellFormed) (agrees : copied.pass.Agrees σ) :
    copied.graph.edges.filter
        (fun edge => edge.source ∈ report.blocks ∨ edge.destination ∈ report.blocks) =
      edgeImages σ body := by
  rw [copied.edges_eq agrees, List.filter_append]
  have none : host.scope.graph.edges.filter
      (fun edge => edge.source ∈ report.blocks ∨ edge.destination ∈ report.blocks) = [] := by
    rw [List.filter_eq_nil_iff]
    intro edge member new
    rcases of_decide_eq_true new with new | new
    · exact copied.not_owns_copy wf new (wf.linked edge member).1
    · exact copied.not_owns_copy wf new (wf.linked edge member).2
  have all : (edgeImages σ body).filter
      (fun edge => edge.source ∈ report.blocks ∨ edge.destination ∈ report.blocks) =
        edgeImages σ body := by
    rw [List.filter_eq_self]
    intro edge member
    rcases List.mem_map.mp member with ⟨original, spanned, rfl⟩
    have ends := of_decide_eq_true (List.mem_filter.mp spanned).2
    rw [copied.blocks_eq_map agrees]
    exact decide_eq_true (.inl (List.mem_map_of_mem ends.1))
  rw [none, all, List.nil_append]

theorem entry_graph : copied.graph.entry = report.entry.or host.scope.graph.entry := by
  show report.entry.or copied.pass.graph.entry = _
  rw [(copied.carried.image _ copied.pass.agrees_substitution).1]
  exact congrArg report.entry.or (registerAll_entry _)

theorem exit_graph : copied.graph.exit = report.exit.or host.scope.graph.exit := by
  show report.exit.or copied.pass.graph.exit = _
  rw [(copied.carried.image _ copied.pass.agrees_substitution).1]
  exact congrArg report.exit.or (registerAll_exit _)

/-- Pruning a host whose entry is in the copy. -/
theorem pruned_copy (wf : host.scope.graph.WellFormed) (bodyWf : body.WellFormed)
    (agrees : copied.pass.Agrees σ) (prunes : policy.prune = true) (moves : report.entry ≠ none) :
    (∀ id ∈ body.liveIds, (σ.block id ∈ (prunedBy policy copied.graph).liveIds ↔
        id ∈ body.reachable)) ∧
      ∀ id, host.scope.graph.Owns id → id ∉ (prunedBy policy copied.graph).liveIds := by
  obtain ⟨entry, role, live⟩ : ∃ entry, body.entry = some entry ∧ entry ∈ body.liveIds := by
    rw [copied.entry_eq, copied.bind_target?_eq agrees] at moves
    rcases Option.ne_none_iff_exists'.mp moves with ⟨target, given⟩
    rcases Option.map_eq_some_iff.mp given with ⟨entry, kept, -⟩
    rcases Option.filter_eq_some_iff.mp kept with ⟨role, live⟩
    exact ⟨entry, role, of_decide_eq_true live⟩
  have bounded : copied.graph.entry ≠ none := by
    rw [copied.entry_graph]
    simp [moves]
  have graphWf := copied.graph_wellFormed wf bodyWf
  constructor
  · intro id idLive
    rw [mem_liveIds_prunedBy_of_prune graphWf prunes bounded, mem_reachable_iff,
      copied.reaches_iff_of_entry wf bodyWf agrees role live]
    constructor
    · rintro ⟨source, reached, same⟩
      rwa [copied.carried.block_inj agrees idLive reached.live same]
    · exact fun reached => ⟨id, reached, rfl⟩
  · intro id owns
    rw [mem_liveIds_prunedBy_of_prune graphWf prunes bounded,
      copied.reaches_iff_of_entry wf bodyWf agrees role live]
    rintro ⟨source, reached, rfl⟩
    refine copied.not_owns_copy wf ?_ owns
    rw [copied.blocks_eq_map agrees]
    exact List.mem_map_of_mem reached.live

/-- Pruning a host whose entry has stayed. -/
theorem pruned_host (wf : host.scope.graph.WellFormed) (bodyWf : body.WellFormed)
    (prunes : policy.prune = true) (stays : report.entry = none)
    (bounded : host.scope.graph.entry ≠ none) :
    (∀ id ∈ report.blocks, id ∉ (prunedBy policy copied.graph).liveIds) ∧
      ∀ id, host.scope.graph.Owns id → (id ∈ (prunedBy policy copied.graph).liveIds ↔
        id ∈ host.scope.graph.reachable) := by
  have graphBounded : copied.graph.entry ≠ none := by
    rwa [copied.entry_graph, stays]
  have graphWf := copied.graph_wellFormed wf bodyWf
  constructor
  · intro id new kept
    rw [mem_liveIds_prunedBy_of_prune graphWf prunes graphBounded,
      copied.reaches_iff_of_stays wf bodyWf stays] at kept
    exact copied.not_owns_copy wf new (wf.owns_of_mem_liveIds kept.live)
  · intro id _
    rw [mem_liveIds_prunedBy_of_prune graphWf prunes graphBounded,
      copied.reaches_iff_of_stays wf bodyWf stays, mem_reachable_iff]

theorem cloneImage (wf : host.scope.graph.WellFormed) (bodyWf : body.WellFormed)
    (agrees : copied.pass.Agrees σ) : CloneImage policy host body report after σ where
  blocks_eq := copied.blocks_eq_map agrees
  blocks_nodup := copied.blocks_nodup
  new := fun _ member => copied.not_owns_copy wf member
  owns_iff := by
    intro id
    rw [← copied.owns_graph_iff wf bodyWf, copied.graph_eq]
    constructor
    · rintro ⟨held, found⟩
      rw [owned_prunedBy (copied.graph_wellFormed wf bodyWf)] at found
      cases before : copied.graph.owned id with
      | ok block => exact ⟨block, before⟩
      | error fault =>
          rw [before] at found
          contradiction
    · rintro ⟨held, found⟩
      rw [Owns, owned_prunedBy (copied.graph_wellFormed wf bodyWf), found]
      exact ⟨_, rfl⟩
  image := by
    intro block live
    rw [copied.graph_eq, owned_prunedBy (copied.graph_wellFormed wf bodyWf),
      copied.owned_copy wf bodyWf agrees live]
    exact ⟨_, rfl⟩
  kept := by
    intro id held found
    rw [copied.graph_eq, owned_prunedBy (copied.graph_wellFormed wf bodyWf),
      copied.owned_of_host found]
    exact ⟨_, rfl⟩
  edges_eq := by
    rw [copied.graph_eq, prunedBy_edges]
    exact copied.edges_eq agrees
  copied_edges := by
    rw [copied.graph_eq, prunedBy_edges]
    exact copied.filter_edges_eq wf agrees
  report_entry := by rw [copied.entry_eq, copied.bind_target?_eq agrees]
  report_exit := by rw [copied.exit_eq, copied.bind_target?_eq agrees]
  entry_eq := by rw [copied.graph_eq, prunedBy_entry, copied.entry_graph]
  exit_eq := by rw [copied.graph_eq, prunedBy_exit, copied.exit_graph]
  nextLiteral_eq := by
    rw [show after.nextLiteral = copied.pass.host.nextLiteral from
        congrArg (·.nextLiteral) copied.after_eq,
      (copied.carried.image σ agrees).2.1, copyRule_blocks]
  unpruned := by
    rw [copied.graph_eq, prunedBy_entry]
    intro kept
    have graphWf := copied.graph_wellFormed wf bodyWf
    constructor
    · intro id new
      rw [copied.blocks_eq_map agrees] at new
      rcases List.mem_map.mp new with ⟨source, live, rfl⟩
      rw [mem_liveIds_prunedBy_of_unpruned graphWf kept]
      exact copied.copy_mem_liveIds wf bodyWf agrees live
    · intro id owns
      rw [mem_liveIds_prunedBy_of_unpruned graphWf kept]
      exact copied.mem_liveIds_iff_of_owns wf bodyWf owns
  pruned_copy := by
    rw [copied.graph_eq]
    exact copied.pruned_copy wf bodyWf agrees
  pruned_host := by
    rw [copied.graph_eq]
    exact copied.pruned_host wf bodyWf

end Copied

/-- Copying a closure always ends, with the image of the closure's live part beside the host.  One
substitution keeps all locals, gives every temporary a new one and every label one that was free. -/
theorem cloneClosure_image (wf : host.scope.graph.WellFormed) (sourceWf : body.WellFormed) :
    ∃ report after σ, cloneClosure policy body host = .ok report after ∧
      CloneImage policy host body report after σ ∧
      Function.Injective σ.var ∧ (∀ place, σ.var (.named place) = .named place) ∧
      (∀ index, ∃ n, σ.var (.temporary index) = .temporary n ∧ host.scope.nextTemp ≤ n) ∧
      Function.Injective σ.label ∧ ∀ label, host.scope.graph.binds (σ.label label) = false := by
  have ensured : Ensures (cloneClosure policy body) host _ _ := ensures_cloneClosure wf sourceWf
  cases run : cloneClosure policy body host with
  | error fault after => exact (ensured.of_error run).elim
  | ok report after =>
      rcases ensured.of_ok run with ⟨copied, -⟩
      have named := copied.carried.named
      have copies : copied.pass.mode = .cloneClosure :=
        congrArg Setting.mode copied.carried.setting_eq
      rcases named.exists_copied_var copies with ⟨var, varInjective, varExtends, locals, temps⟩
      rcases named.exists_label with ⟨label, labelInjective, labelExtends, labelFree⟩
      let σ : Substitution := { copied.pass.substitution with var := var, label := label }
      have agrees : copied.pass.Agrees σ :=
        ⟨copied.pass.agrees_substitution.block, varExtends, labelExtends⟩
      exact ⟨report, after, σ, rfl, copied.cloneImage wf sourceWf agrees, varInjective, locals,
        temps, labelInjective, labelFree⟩

/-- The sample closure is copied into the sample host. -/
theorem cloneClosure_image_sample :
    sampleHost.scope.graph.WellFormed ∧ sampleClosure.WellFormed ∧ ∃ report after σ,
      cloneClosure samplePolicy sampleClosure sampleHost = .ok report after ∧
      CloneImage samplePolicy sampleHost sampleClosure report after σ ∧
      Function.Injective σ.var ∧ (∀ place, σ.var (.named place) = .named place) ∧
      (∀ index, ∃ n, σ.var (.temporary index) = .temporary n ∧ sampleHost.scope.nextTemp ≤ n) ∧
      Function.Injective σ.label ∧
      ∀ label, sampleHost.scope.graph.binds (σ.label label) = false := by
  have wf : sampleHost.scope.graph.WellFormed := by decide +kernel
  have closureWf : sampleClosure.WellFormed := by decide +kernel
  exact ⟨wf, closureWf, cloneClosure_image wf closureWf⟩

end FlowIR.Inlining
