import FlowIR.Proofs.Graph.Reachability
import FlowIR.Proofs.Inlining.Body
import FlowIR.Proofs.Inlining.Request
import FlowIR.Proofs.Inlining.Site

/-!
# Splicing a body into a host

A request either leaves the host as it was, or opens the host at the site, carries the body over,
links both ends and prunes.  Once the host has been opened only two things can go wrong: two locals
of a closure would become one, or a boundary block of the body is dead.  Nothing that the host holds
stands in the way, and the graph is well formed also where the request fails.
-/

namespace FlowIR.Inlining

/-- The graph after the pruning that a policy asks for. -/
def prunedBy (policy : Policy) (g : Graph) : Graph :=
  if policy.prune then g.prune.2 else g

/-- How a body was spliced into a host, with the pieces that the outcome is made of. -/
structure Splicing (host : Host) (policy : Policy) (setting : Setting) (rule : Rule) (log : Bool)
    (body : Graph) (block : BlockId) (site : Instr) (report : Report) (after : Host) where
  /-- The block that was opened, and its instructions before and after the site. -/
  held : Block
  pre : List Instr
  post : List Instr
  /-- The ends of the body, and their places among its live blocks. -/
  entry : BlockId
  exit : BlockId
  entryPlace : Nat
  exitPlace : Nat
  /-- The pass that carried the body over. -/
  pass : Pass
  /-- What the entry of the body has become. -/
  entryBlock : Block
  found : host.scope.graph.owned block = .ok held
  cut_eq : cut site .opensTail held.instrs = some (pre, site :: post)
  instrs_eq : held.instrs = pre ++ site :: post
  first : site ∉ pre
  entry_role : body.entry = some entry
  exit_role : body.exit = some exit
  entry_at : body.liveIds[entryPlace]? = some entry
  exit_at : body.liveIds[exitPlace]? = some exit
  carried : CarriedBody (host.opened block pre post) setting rule log body pass
  entry_owned : pass.graph.owned report.entry = .ok entryBlock
  continuation_eq : report.continuation = host.scope.graph.freshId
  entry_eq : report.entry = (host.opened block pre post).scope.graph.idAt entryPlace
  exit_eq : report.exit = (host.opened block pre post).scope.graph.idAt exitPlace
  blocks_eq : report.blocks =
    (List.range body.liveBlocks.length).map (host.opened block pre post).scope.graph.idAt
  sites_eq : report.yieldSites = pass.sites
  after_eq : after = Host.graphFocus.set
    (prunedBy policy (pass.graph.linked block report.entry report.exit report.continuation
      entryBlock.label (.numbered host.scope.labelNumber))) pass.host

/-- An end of the body is dead, and the fault says which. -/
def DeadEnd (body : Graph) (fault : Fault) : Prop :=
  ∃ id, (body.entry = some id ∨ body.exit = some id) ∧ id ∉ body.liveIds ∧
    fault = .invalidTransform (.deadBoundary id)

/-- A pass run on a host is described by what it does from its start. -/
theorem ensures_runPass {α : Type} {start : Host → Pass} {step : Step α} {host : Host}
    {post : α × Pass → Host → Prop} {fail : Fault → Host → Prop}
    (inner : Ensures step (start host) (fun value pass => post (value, pass) pass.host)
      (fun fault pass => fail fault pass.host)) : Ensures (runPass start step) host post fail := by
  unfold Ensures runPass at *
  cases outcome : step (start host) with
  | ok value pass =>
      rw [outcome] at inner
      exact inner
  | error fault pass =>
      rw [outcome] at inner
      exact inner

/-- Whatever its outcome, a pass run on a host leaves the host of the pass. -/
theorem ensures_runPass_left {α : Type} (start : Host → Pass) (step : Step α) (host : Host) :
    Ensures (runPass start step) host
      (fun result after => result.2 = left step (start host) ∧ after = result.2.host)
      (fun _ after => after = (left step (start host)).host) := by
  apply ensures_runPass
  unfold Ensures left
  cases step (start host) with
  | ok value pass => exact ⟨rfl, rfl⟩
  | error fault pass => rfl

section Splice

variable {setting : Setting} {rule : Rule} {log : Bool} {start : Host → Pass}
  {carry : Block → Step BlockId} {host : Host} {body : Graph} {policy : Policy} {block : BlockId}
  {site : Instr}

/-- Lay a body into the opened host and look up what its ends have become. -/
def layBody (lay : Step (List BlockId)) (body : Graph) (entry exit : BlockId) :
    Step (List BlockId × BlockId × BlockId) := do
  let blocks ← lay
  copyEdges body.edges
  let entry ← carried entry
  let exit ← carried exit
  return (blocks, entry, exit)

/-- Lay the blocks of a body into the opened host, and the edges between them. -/
def layInside (lay : Step (List BlockId)) (body : Graph) : Step (List BlockId) := do
  let blocks ← lay
  copyEdges body.edges
  return blocks

/-- The ends of a body are looked up when all of it has been laid. -/
theorem layBody_eq (lay : Step (List BlockId)) (body : Graph) (entry exit : BlockId) :
    layBody lay body entry exit = do
      let blocks ← layInside lay body
      let entry ← Inlining.carried entry
      let exit ← Inlining.carried exit
      return (blocks, entry, exit) := by
  simp only [layBody, layInside, bind_assoc, pure_bind]

/-- What a pass that carries a body over and looks up its ends leaves and returns. -/
structure Laid (base : Host) (setting : Setting) (rule : Rule) (log : Bool) (body : Graph)
    (entry exit : BlockId) (result : (List BlockId × BlockId × BlockId) × Pass) (after : Host) :
    Prop where
  host_eq : after = result.2.host
  carried : CarriedBody base setting rule log body result.2
  blocks_eq : result.1.1 = (List.range body.liveBlocks.length).map base.scope.graph.idAt
  entry_at : ∃ i, body.liveIds[i]? = some entry ∧ result.1.2.1 = base.scope.graph.idAt i
  exit_at : ∃ j, body.liveIds[j]? = some exit ∧ result.1.2.2 = base.scope.graph.idAt j

/-- When a body has been laid, only a dead end can stand in the way of linking it. -/
theorem ensures_layBody {base : Host} {entry exit : BlockId} {lay : Step (List BlockId)}
    {sound : Prop} {broken : Fault → Prop} (entryRole : body.entry = some entry)
    (exitRole : body.exit = some exit)
    (laying : Ensures (layInside lay body) (start base) (fun blocks pass =>
      (CarriedBody base setting rule log body pass ∧
        blocks = (List.range body.liveBlocks.length).map base.scope.graph.idAt) ∧ sound)
          (fun fault pass => pass.graph.WellFormed ∧ broken fault)) :
    Ensures (runPass start (layBody lay body entry exit)) base
      (fun result after => Laid base setting rule log body entry exit result after ∧ sound)
      (fun fault after => after.scope.graph.WellFormed ∧
        (broken fault ∨ sound ∧ DeadEnd body fault)) := by
  apply ensures_runPass
  rw [layBody_eq]
  apply (laying.mono (fun _ _ done => done) fun _ _ failed => failed.imp_right .inl).bind
  rintro _ pass ⟨⟨carriedBody, rfl⟩, holds⟩
  apply ensures_carried_bind carriedBody
  · intro i entryAt
    apply ensures_carried_bind carriedBody
    · intro j exitAt
      exact Ensures.of_pure
        ⟨⟨rfl, carriedBody, rfl, ⟨i, entryAt, rfl⟩, j, exitAt, rfl⟩, holds⟩
    · intro dead
      exact ⟨carriedBody.wellFormed, .inr ⟨holds, exit, .inr exitRole, dead, rfl⟩⟩
  · intro dead
    exact ⟨carriedBody.wellFormed, .inr ⟨holds, entry, .inl entryRole, dead, rfl⟩⟩

/-- The body that was carried over can be linked to the opened host. -/
theorem link_opened_eq_ok {pre post : List Instr} {held entryBlock : Block} {pass : Pass}
    {i j : Nat} (wf : host.scope.graph.WellFormed)
    (openedWf : (host.opened block pre post).scope.graph.WellFormed) (bodyWf : body.WellFormed)
    (found : host.scope.graph.owned block = .ok held)
    (carried : CarriedBody (host.opened block pre post) setting rule log body pass)
    (entryFound : pass.graph.owned ((host.opened block pre post).scope.graph.idAt i) =
      .ok entryBlock)
    (below : j < body.liveBlocks.length) :
    link block ((host.opened block pre post).scope.graph.idAt i)
      ((host.opened block pre post).scope.graph.idAt j) host.scope.graph.freshId pass.graph =
        .ok () (pass.graph.linked block ((host.opened block pre post).scope.graph.idAt i)
          ((host.opened block pre post).scope.graph.idAt j) host.scope.graph.freshId
          entryBlock.label (.numbered host.scope.labelNumber)) := by
  have owns : host.scope.graph.Owns block := .of_owned found
  let opened := (host.opened block pre post).scope.graph
  have lookup := wf.owned_opened (.numbered host.scope.labelNumber) pre post owns
  have apart : block ≠ host.scope.graph.freshId := wf.ne_freshId owns
  have continuationFound : opened.owned host.scope.graph.freshId =
      .ok { id := host.scope.graph.freshId, label := .numbered host.scope.labelNumber
            instrs := post } := by
    rw [show opened.owned host.scope.graph.freshId = _ from lookup _, if_pos rfl]
  have blockFound : opened.owned block = .ok (held.withInstrs pre) := by
    rw [show opened.owned block = _ from lookup _, if_neg apart, if_pos rfl, found]
    rfl
  have enters : pass.graph.hasLink ⟨block, opened.idAt i, .regular⟩ = false := by
    apply carried.hasLink_eq_false openedWf
    intro same
    exact openedWf.not_owns_idAt i (same.mp (.of_owned blockFound))
  have leaves : pass.graph.hasLink ⟨opened.idAt j, host.scope.graph.freshId, .regular⟩ = false := by
    apply carried.hasLink_eq_false openedWf
    intro same
    exact openedWf.not_owns_idAt j (same.mpr (.of_owned continuationFound))
  have siteApart : block ≠ opened.idAt j := by
    intro same
    exact openedWf.not_owns_idAt j (same ▸ .of_owned blockFound)
  exact link_eq_ok (.of_owned (carried.owned_of_owned blockFound)) entryFound
    (carried.owns_idAt openedWf bodyWf below) (carried.owned_of_owned continuationFound) enters
    leaves siteApart

theorem exists_pruneBy_eq_ok (policy : Policy) (g : Graph) :
    ∃ count, pruneBy policy g = .ok count (prunedBy policy g) := by
  unfold pruneBy prunedBy
  split
  · exact ⟨_, rfl⟩
  · exact ⟨0, rfl⟩

theorem prunedBy_wellFormed (policy : Policy) {g : Graph} (wf : g.WellFormed) :
    (prunedBy policy g).WellFormed := by
  unfold prunedBy
  split
  · exact wf.prune
  · exact wf

/-- The pass that lays a body into a host which was opened at a site, where
the pass ends or fails. -/
def Lays (start : Host → Pass) (lay : Step (List BlockId)) (body : Graph) (block : BlockId)
    (site : Instr) (host : Host) (pass : Pass) : Prop :=
  ∃ entry exit continuation opened, boundary body = .ok (entry, exit) ∧
    splitAtSite block site host = .ok continuation opened ∧
    pass = left (layBody lay body entry exit) (start opened)

/-- Opening a host fails only where the block does not offer the site, and leaves the host alone. -/
theorem ensures_open (wf : host.scope.graph.WellFormed) (fits : Fits policy body) :
    Ensures (splitAtSite block site) host
      (fun continuation opened => continuation = host.scope.graph.freshId ∧
        ∃ held pre post, host.scope.graph.owned block = .ok held ∧
          cut site .opensTail held.instrs = some (pre, site :: post) ∧
          held.instrs = pre ++ site :: post ∧ site ∉ pre ∧ opened = host.opened block pre post)
      (fun fault after => after = host ∧ Refused policy host body block site fault) := by
  apply (ensures_splitAtSite wf block site).mono
  · exact fun _ _ done => done
  · rintro fault after ⟨same, missing | ⟨held, found, lacks, rfl⟩⟩
    · exact ⟨same, .absent fits missing⟩
    · exact ⟨same, .lacking fits found lacks⟩

/-- Once a body has been laid into the opened host, both its ends are linked and the host is pruned,
in which nothing can go wrong. -/
theorem ensures_close {held : Block} {pre post : List Instr} {entry exit entryId exitId : BlockId}
    {blocks : List BlockId} {pass : Pass} {after : Host} (wf : host.scope.graph.WellFormed)
    (bodyWf : body.WellFormed) (found : host.scope.graph.owned block = .ok held)
    (cutEq : cut site .opensTail held.instrs = some (pre, site :: post))
    (instrsEq : held.instrs = pre ++ site :: post) (first : site ∉ pre)
    (entryRole : body.entry = some entry) (exitRole : body.exit = some exit)
    (laid : Laid (host.opened block pre post) setting rule log body entry exit
      ((blocks, entryId, exitId), pass) after) :
    Ensures (do
        editHost (link block entryId exitId host.scope.graph.freshId)
        let pruned ← editHost (pruneBy policy)
        return Outcome.inlined
          { continuation := host.scope.graph.freshId, entry := entryId, exit := exitId
            blocks := blocks, yieldSites := pass.sites, pruned := pruned }) after
      (fun outcome last => ∃ report,
        ∃ splicing : Splicing host policy setting rule log body block site report last,
          outcome = .inlined report ∧ splicing.pass = pass)
      (fun _ _ => False) := by
  rcases laid with ⟨rfl, carried, rfl, ⟨i, entryAt, rfl⟩, j, exitAt, rfl⟩
  have openedWf : (host.opened block pre post).scope.graph.WellFormed :=
    opened_wellFormed wf found cutEq host.scope.binds_labelNumber
  have below : ∀ {place : Nat} {id : BlockId}, body.liveIds[place]? = some id →
      place < body.liveBlocks.length := by
    intro place id here
    rcases List.getElem?_eq_some_iff.mp here with ⟨within, -⟩
    rwa [Graph.liveIds, List.length_map] at within
  rcases carried.owns_idAt openedWf bodyWf (below entryAt) with ⟨entryBlock, entryFound⟩
  have linked := link_opened_eq_ok wf openedWf bodyWf found carried entryFound (below exitAt)
  apply Ensures.of_ok_bind (Focus.run_eq_ok Host.graphFocus linked)
  obtain ⟨count, pruned⟩ := exists_pruneBy_eq_ok policy (pass.graph.linked block
    ((host.opened block pre post).scope.graph.idAt i)
    ((host.opened block pre post).scope.graph.idAt j) host.scope.graph.freshId
    entryBlock.label (.numbered host.scope.labelNumber))
  apply Ensures.of_ok_bind (Focus.run_eq_ok Host.graphFocus pruned)
  apply Ensures.of_pure
  refine ⟨_, ?_, rfl, ?_⟩
  · exact {
      held := held, pre := pre, post := post, entry := entry, exit := exit
      entryPlace := i, exitPlace := j, pass := pass, entryBlock := entryBlock
      found := found, cut_eq := cutEq, instrs_eq := instrsEq, first := first
      entry_role := entryRole, exit_role := exitRole, entry_at := entryAt, exit_at := exitAt
      carried := carried, entry_owned := entryFound, continuation_eq := rfl
      entry_eq := rfl, exit_eq := rfl, blocks_eq := rfl, sites_eq := rfl
      after_eq := rfl }
  · rfl

/-- Splicing skips a body for its size and refuses a request that is not admitted, both of
which leave the host alone.  An admitted request is carried out as described, or it fails
for a reason `broken` for which laying the body may fail, in a well-formed graph.  Where
laying ends, `sound` holds. -/
theorem ensures_splice {lay : Step (List BlockId)} {sound : Prop} {broken : Fault → Prop}
    (wf : host.scope.graph.WellFormed) (bodyWf : body.WellFormed)
    (laying : ∀ base entry exit, base.scope.graph.WellFormed → body.entry = some entry →
      body.exit = some exit →
      Ensures (runPass start (layBody lay body entry exit)) base
        (fun result after => Laid base setting rule log body entry exit result after ∧ sound)
        (fun fault after => after.scope.graph.WellFormed ∧ broken fault)) :
    Ensures (splice policy start lay body block site) host
      (fun outcome after => match outcome with
        | .skipped excess => after = host ∧ Bounded body ∧ excess? policy body = some excess
        | .inlined report => Admitted policy host body block site ∧ sound ∧
            ∃ splicing : Splicing host policy setting rule log body block site report after,
              Lays start lay body block site host splicing.pass)
      (fun fault after => after = host ∧ Refused policy host body block site fault ∨
        (after.scope.graph.WellFormed ∧ Admitted policy host body block site ∧ broken fault) ∧
          ∃ pass, Lays start lay body block site host pass ∧ after = pass.host) := by
  unfold splice
  cases bounds : boundary body with
  | error fault => exact Ensures.throw_bind (.inl ⟨rfl, .unbounded bounds⟩)
  | ok ends =>
      rcases ends with ⟨entry, exit⟩
      have bounded : Bounded body := exists_boundary_eq_ok_iff.mp ⟨_, bounds⟩
      have roles := boundary_eq_ok_iff.mp bounds
      apply Ensures.of_ok_bind (ofExcept_ok _ _)
      dsimp only
      cases tooLarge : excess? policy body with
      | some excess => exact Ensures.of_pure ⟨rfl, bounded, rfl⟩
      | none =>
          have fits : Fits policy body := excess?_eq_none_iff.mp tooLarge
          dsimp only
          apply (((ensures_open wf fits).and (Ensures.outcome _ _)).mono (fun _ _ done => done)
            (fun _ _ refused => .inl refused.1)).bind
          rintro continuation opened
            ⟨⟨rfl, held, pre, post, found, cutEq, instrsEq, first, rfl⟩, opening⟩
          have admitted : Admitted policy host body block site :=
            ⟨bounded, fits, held, found, by simp [instrsEq]⟩
          have openedWf : (host.opened block pre post).scope.graph.WellFormed :=
            opened_wellFormed wf found cutEq host.scope.binds_labelNumber
          have laysPass : Lays start lay body block site host
              (left (layBody lay body entry exit) (start (host.opened block pre post))) :=
            ⟨entry, exit, _, _, bounds, opening, rfl⟩
          apply (((laying _ entry exit openedWf roles.1 roles.2).and
            (ensures_runPass_left start _ _)).mono (fun _ _ done => done) (fun _ _ failed =>
              .inr ⟨⟨failed.1.1, admitted, failed.1.2⟩, _, laysPass, failed.2⟩)).bind
          rintro ⟨⟨blocks, entryId, exitId⟩, pass⟩ after ⟨⟨laid, soundHolds⟩, passEq, -⟩
          rw [← passEq] at laysPass
          apply (ensures_close wf bodyWf found cutEq instrsEq first roles.1 roles.2 laid).mono
          · rintro outcome last ⟨report, splicing, rfl, rfl⟩
            exact ⟨admitted, soundHolds, splicing, laysPass⟩
          · exact fun _ _ impossible => impossible.elim

/-! ## After splicing -/

variable {report : Report} {after : Host}

/-- The graph after linking, before the policy has it pruned. -/
def Splicing.graph (splicing : Splicing host policy setting rule log body block site report after) :
    Graph :=
  splicing.pass.graph.linked block report.entry report.exit report.continuation
    splicing.entryBlock.label (.numbered host.scope.labelNumber)

/-- The host's graph after opening. -/
def Splicing.opened
    (splicing : Splicing host policy setting rule log body block site report after) :
    Graph :=
  (host.opened block splicing.pre splicing.post).scope.graph

theorem Splicing.graph_eq
    (splicing : Splicing host policy setting rule log body block site report after) :
    after.scope.graph = prunedBy policy splicing.graph :=
  congrArg (·.scope.graph) splicing.after_eq

theorem Splicing.opened_wellFormed (wf : host.scope.graph.WellFormed)
    (splicing : Splicing host policy setting rule log body block site report after) :
    splicing.opened.WellFormed :=
  Inlining.opened_wellFormed wf splicing.found splicing.cut_eq host.scope.binds_labelNumber

theorem Splicing.exitPlace_lt
    (splicing : Splicing host policy setting rule log body block site report after) :
    splicing.exitPlace < body.liveBlocks.length := by
  rcases List.getElem?_eq_some_iff.mp splicing.exit_at with ⟨here, -⟩
  rwa [Graph.liveIds, List.length_map] at here

theorem Splicing.graph_wellFormed (wf : host.scope.graph.WellFormed) (bodyWf : body.WellFormed)
    (splicing : Splicing host policy setting rule log body block site report after) :
    splicing.graph.WellFormed := by
  have entryFound := splicing.entry_owned
  rw [splicing.entry_eq] at entryFound
  have linked := link_opened_eq_ok wf (splicing.opened_wellFormed wf) bodyWf splicing.found
    splicing.carried entryFound splicing.exitPlace_lt
  rw [← splicing.entry_eq, ← splicing.exit_eq, ← splicing.continuation_eq] at linked
  exact (link_preserves Graph.wellFormed_lasting _ _ _ _ _ splicing.carried.wellFormed).of_ok linked

theorem Splicing.wellFormed (wf : host.scope.graph.WellFormed) (bodyWf : body.WellFormed)
    (splicing : Splicing host policy setting rule log body block site report after) :
    after.scope.graph.WellFormed := by
  rw [splicing.graph_eq]
  exact prunedBy_wellFormed policy (splicing.graph_wellFormed wf bodyWf)

end Splice

end FlowIR.Inlining
