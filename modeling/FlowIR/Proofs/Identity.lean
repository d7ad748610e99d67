import FlowIR.Proofs.Graph.Descent
import FlowIR.Proofs.Session

/-!
# Identity

The id of a block is given out once.  Within a graph ids are given out in increasing order, an id
that has stopped resolving never resolves again, whatever is added under the old label, and the ids
of one graph are foreign to all others.  This holds along every run of a session, failed actions
included, and also in the midst of moving the blocks of a closure into a host.

The state alone does not know which ids are spent.  What carries the proofs is that every action
turns each graph into one that descends from it, so that the counters bound all that was given out.
-/

namespace FlowIR

namespace Graph

variable {g after : Graph}

/-! ## Ids of a graph -/

/-- The ids of the blocks, in order. -/
def ids (g : Graph) : List BlockId :=
  g.blocks.map (·.id)

theorem WellFormed.mem_ids_iff (wf : g.WellFormed) {id : BlockId} : id ∈ g.ids ↔ g.Owns id := by
  constructor
  · intro member
    rcases List.mem_map.mp member with ⟨block, held, rfl⟩
    exact ⟨block, wf.mem_blocks_iff.mp held⟩
  · rintro ⟨block, found⟩
    obtain rfl := wf.id_of_owned found
    exact List.mem_map_of_mem (wf.mem_blocks_iff.mpr found)

theorem WellFormed.ids_increasing (wf : g.WellFormed) :
    g.ids.Pairwise fun id other => id.index < other.index := by
  apply List.pairwise_map.mp
  rw [ids, wf.map_index_ids]
  exact wf.ordered

/-- The ids of the blocks that a later state of the graph has more. -/
def added (before after : Graph) : List BlockId :=
  after.ids.filter fun id => !before.contains id

/-- The id was given out on the way from one state of the graph to a later one. -/
structure GivesOut (before after : Graph) (id : BlockId) : Prop where
  graph_eq : id.graph = before.id
  not_before : before.nextIndex ≤ id.index
  by_then : id.index < after.nextIndex

/-- A block that is there later and was not there before has an id that was given out in between. -/
theorem Descends.givesOut_of_mem_added (descends : g.Descends after) (wf : after.WellFormed)
    {id : BlockId} (member : id ∈ g.added after) : g.GivesOut after id := by
  rcases List.mem_filter.mp member with ⟨there, absent⟩
  have owns := wf.mem_ids_iff.mp there
  refine ⟨(owns_iff.mp owns).1.trans descends.id_eq, ?_, wf.index_lt owns⟩
  by_contra below
  have known := contains_iff_owns.mpr (descends.owned_before id owns (Nat.lt_of_not_le below))
  rw [known] at absent
  contradiction

/-- The id that an edit returns, if it ends. -/
def returned (step : Edit BlockId) (g : Graph) : List BlockId :=
  match step g with
  | .ok id _ => [id]
  | .error _ _ => []

/-- An id that is returned is given out where the edit gives it out. -/
theorem givesOut_of_mem_returned {step : Edit BlockId}
    (ensured : Ensures step g (fun id after => g.GivesOut after id) (fun _ _ => True))
    {id : BlockId} (member : id ∈ returned step g) :
    g.GivesOut (left (do let _ ← step : Edit Unit) g) id := by
  unfold returned at member
  cases outcome : step g with
  | ok value after =>
      rw [outcome] at member
      obtain rfl := List.mem_singleton.mp member
      have leaves : left (do let _ ← step : Edit Unit) g = after := by
        simp only [left, bind_apply, outcome, pure_apply]
      rw [leaves]
      exact ensured.of_ok outcome
  | error fault after =>
      rw [outcome] at member
      contradiction

theorem givesOut_register (block : Block) : g.GivesOut (g.register block) g.freshId :=
  ⟨rfl, Nat.le_refl _, Nat.lt_succ_self _⟩

theorem ensures_createBlock_givesOut (label : Label) :
    Ensures (createBlock label) g (fun id after => g.GivesOut after id) (fun _ _ => True) := by
  apply (ensures_createBlock label g).mono
  · rintro _ _ ⟨-, rfl, rfl⟩
    exact givesOut_register _
  · exact fun _ _ _ => trivial

theorem ensures_adoptBlock_givesOut (block : Block) :
    Ensures (adoptBlock block) g (fun id after => g.GivesOut after id) (fun _ _ => True) := by
  unfold Ensures adoptBlock
  by_cases bound : g.binds block.label
  · rw [if_pos bound]
    exact trivial
  · rw [if_neg bound]
    exact givesOut_register block

/-- What is done to the two halves after the new one is made takes no index back. -/
theorem ensures_split_givesOut (id : BlockId) (point : Instr) (label : Label)
    (placement : Placement) :
    Ensures (split id point label placement) g (fun id after => g.GivesOut after id)
      (fun _ _ => True) := by
  apply ensures_require_bind (fun _ _ => trivial)
  intro block _
  apply ((ensures_createBlock label g).mono (fun _ _ made => made) fun _ _ _ => trivial).bind
  rintro _ grown ⟨-, rfl, rfl⟩
  dsimp only
  apply ((Descends.editBlock id _ _ (.refl _)).mono (fun _ _ kept => kept)
    fun _ _ _ => trivial).bind
  intro _ cut early
  apply ((Descends.editBlock _ _ _ early).mono (fun _ _ kept => kept) fun _ _ _ => trivial).bind
  intro _ after late
  exact Ensures.of_pure ⟨rfl, Nat.le_refl _, late.nextIndex_le⟩

end Graph

/-- The ids that an edit returns. -/
def GraphEdit.issued : GraphEdit → Graph → List BlockId
  | createBlock label => Graph.returned (Graph.createBlock label)
  | adoptBlock block => Graph.returned (Graph.adoptBlock block)
  | split id point label placement => Graph.returned (Graph.split id point label placement)
  | _ => fun _ => []

theorem GraphEdit.givesOut_of_mem_issued {edit : GraphEdit} {g : Graph} {id : BlockId}
    (member : id ∈ edit.issued g) : g.GivesOut (left edit.run g) id := by
  cases edit with
  | createBlock label =>
      exact Graph.givesOut_of_mem_returned (Graph.ensures_createBlock_givesOut label) member
  | adoptBlock block =>
      exact Graph.givesOut_of_mem_returned (Graph.ensures_adoptBlock_givesOut block) member
  | split source point label placement =>
      exact Graph.givesOut_of_mem_returned
        (Graph.ensures_split_givesOut source point label placement) member
  | _ => exact absurd member List.not_mem_nil

/-- An edit returns one id at most. -/
theorem GraphEdit.issued_pairwise (edit : GraphEdit) (g : Graph) (r : BlockId → BlockId → Prop) :
    (edit.issued g).Pairwise r := by
  have single : ∀ step : Graph.Edit BlockId, (Graph.returned step g).Pairwise r := by
    intro step
    unfold Graph.returned
    split <;> simp
  cases edit with
  | createBlock label => exact single _
  | adoptBlock block => exact single _
  | split id point label placement => exact single _
  | _ => exact .nil

namespace Session

variable {session : Session} {action : Action} {id : BlockId}

/-! ## What an action gives out -/

/-- The ids of the blocks that an action adds to what is held under a name. -/
def added (session : Session) (action : Action) (name : Nat) : List BlockId :=
  match session.held name, (session.step action).held name with
  | some before, some after => before.contents.added after.contents
  | _, _ => []

/-- The ids that an action gives out: what an edit returns, and the ids of the blocks that a
transformation adds to its host. -/
def issued (session : Session) (action : Action) : List BlockId :=
  match action with
  | .edit name edit => (session.held name).elim [] fun holding => edit.issued holding.contents
  | .inlineMethod _ host _ _ _ => session.added action host
  | .cloneClosure _ _ target => session.added action target
  | .inlineClosure _ host _ _ _ => session.added action host
  | _ => []

/-- Under some name the action turns a graph into one that descends from it, and gives
out the id on the way. -/
def GivesOut (session : Session) (action : Action) (id : BlockId) : Prop :=
  ∃ name before after,
    session.held name = some before ∧ (session.step action).held name = some after ∧
    before.contents.Descends after.contents ∧ before.contents.GivesOut after.contents id

theorem givesOut_of_mem_added (wf : session.WellFormed) {name : Nat}
    (opensNone : action.opens = none) (member : id ∈ session.added action name) :
    session.GivesOut action id := by
  unfold added at member
  split at member
  next before after held heldAfter =>
    rcases held_step heldAfter with ⟨opened, -⟩ | ⟨earlier, earlierHeld, develops⟩
    · rw [opensNone] at opened
      contradiction
    · obtain rfl := Option.some.inj (held.symm.trans earlierHeld)
      have afterWf : after.contents.WellFormed := develops.wellFormed (wf name before held)
      exact ⟨name, before, after, held, heldAfter, develops.descends,
        develops.descends.givesOut_of_mem_added afterWf member⟩
  next => contradiction

theorem givesOut_of_mem_issued (wf : session.WellFormed) (member : id ∈ session.issued action) :
    session.GivesOut action id := by
  cases action with
  | edit name edit =>
      cases held : session.held name with
      | none =>
          rw [issued, held] at member
          contradiction
      | some holding =>
          rw [issued, held] at member
          have heldAfter : (session.step (.edit name edit)).held name =
              some (holding.withContents (left edit.run holding.contents)) := by
            simp only [step, held, put, if_true]
          have contents : (holding.withContents (left edit.run holding.contents)).contents =
              left edit.run holding.contents := by
            cases holding <;> rfl
          refine ⟨name, holding, _, held, heldAfter, ?_, ?_⟩
          · rw [contents]
            exact (edit.preserves (Graph.descends_lasting holding.contents)).left (.refl _)
          · rw [contents]
            exact GraphEdit.givesOut_of_mem_issued member
  | inlineMethod policy host callee block call => exact givesOut_of_mem_added wf rfl member
  | cloneClosure policy source target => exact givesOut_of_mem_added wf rfl member
  | inlineClosure policy host closure block yielding => exact givesOut_of_mem_added wf rfl member
  | _ => exact absurd member List.not_mem_nil

/-- One action gives out ids in increasing order. -/
theorem issued_increasing (wf : session.WellFormed) (action : Action) :
    (session.issued action).Pairwise fun id other => id.index < other.index := by
  have byName : ∀ name, (session.added action name).Pairwise fun id other =>
      id.index < other.index := by
    intro name
    unfold added
    split
    next before after _ heldAfter =>
      exact (wf.step action name after heldAfter).ids_increasing.sublist List.filter_sublist
    next => exact .nil
  cases action with
  | edit name edit =>
      show ((session.held name).elim [] fun holding => edit.issued holding.contents).Pairwise _
      cases session.held name with
      | none => exact .nil
      | some holding => exact edit.issued_pairwise holding.contents _
  | inlineMethod policy host callee block call => exact byName host
  | cloneClosure policy source target => exact byName target
  | inlineClosure policy host closure block yielding => exact byName host
  | _ => exact .nil

/-! ## Graphs are kept apart -/

/-- An action that begins a graph takes the next number for it, and others take none. -/
theorem Effect.nextGraph_eq {after : Session} (effect : session.Effect action after) :
    after.nextGraph = session.nextGraph + if action.opens.isSome then 1 else 0 := by
  cases effect with
  | idle unfit =>
      rw [unfit.opens_eq]
      rfl
  | begun begins =>
      rw [begins.opens_eq]
      rfl
  | transformed transforms =>
      rw [nextGraph_letGo, opens_of_transforms transforms]
      rfl
  | _ => rfl

theorem nextGraph_step (session : Session) (action : Action) :
    (session.step action).nextGraph =
      session.nextGraph + if action.opens.isSome then 1 else 0 :=
  (session.effect_step action).nextGraph_eq

theorem nextGraph_le_step (session : Session) (action : Action) :
    session.nextGraph ≤ (session.step action).nextGraph := by
  rw [nextGraph_step]
  exact Nat.le_add_right _ _

/-- All graphs that are held have numbers that were taken, and under different
names different ones. -/
structure Separate (session : Session) : Prop where
  below : ∀ name holding, session.held name = some holding → holding.contents.id < session.nextGraph
  distinct : ∀ name other first second, session.held name = some first →
    session.held other = some second → first.contents.id = second.contents.id → name = other

theorem Separate.step (separate : session.Separate) (action : Action) :
    (session.step action).Separate where
  below := by
    intro name holding held
    rcases held_step held with ⟨opened, new⟩ | ⟨before, beforeHeld, develops⟩
    · rw [nextGraph_step, opened, new]
      exact Nat.lt_succ_self _
    · rw [develops.descends.id_eq]
      exact Nat.lt_of_lt_of_le (separate.below name before beforeHeld)
        (session.nextGraph_le_step action)
  distinct := by
    intro name other first second held otherHeld same
    rcases held_step held with ⟨opened, new⟩ | ⟨before, beforeHeld, develops⟩
    · rcases held_step otherHeld with ⟨otherOpened, -⟩ | ⟨earlier, earlierHeld, otherDevelops⟩
      · exact Option.some.inj (opened.symm.trans otherOpened)
      · have taken := separate.below other earlier earlierHeld
        rw [new, otherDevelops.descends.id_eq] at same
        exact absurd taken (same ▸ Nat.lt_irrefl _)
    · rcases held_step otherHeld with ⟨-, otherNew⟩ | ⟨earlier, earlierHeld, otherDevelops⟩
      · have taken := separate.below name before beforeHeld
        rw [otherNew, develops.descends.id_eq] at same
        exact absurd taken (same ▸ Nat.lt_irrefl _)
      · rw [develops.descends.id_eq, otherDevelops.descends.id_eq] at same
        exact separate.distinct name other before earlier beforeHeld earlierHeld same

/-- Graphs that have come of graphs that are kept apart are kept apart. -/
theorem Separate.of_developsAt (separate : session.Separate) {later : Session}
    (develops : ∀ name holding, later.held name = some holding → session.DevelopsAt name holding)
    (sameNext : later.nextGraph = session.nextGraph) : later.Separate where
  below := by
    intro name holding held
    rcases develops name holding held with ⟨before, beforeHeld, comes⟩
    rw [comes.descends.id_eq, sameNext]
    exact separate.below name before beforeHeld
  distinct := by
    intro name other first second held otherHeld same
    rcases develops name first held with ⟨before, beforeHeld, comes⟩
    rcases develops other second otherHeld with ⟨earlier, earlierHeld, otherComes⟩
    rw [comes.descends.id_eq, otherComes.descends.id_eq] at same
    exact separate.distinct name other before earlier beforeHeld earlierHeld same

/-- No id resolves in two graphs, and in none twice. -/
structure IdsApart (session : Session) : Prop where
  /-- An id of one graph is foreign to every other. -/
  foreign : ∀ name other first second, name ≠ other → session.held name = some first →
    session.held other = some second → ∀ id : BlockId, id.graph = first.contents.id →
      second.contents.owned id = .error (.foreignBlock id second.contents.id)
  nodup : ∀ name holding, session.held name = some holding → holding.contents.ids.Nodup
  disjoint : ∀ name other first second, name ≠ other → session.held name = some first →
    session.held other = some second → first.contents.ids.Disjoint second.contents.ids

theorem Separate.idsApart (separate : session.Separate) (wf : session.WellFormed) :
    session.IdsApart where
  foreign := by
    intro name other first second different held otherHeld id here
    have elsewhere : id.graph ≠ second.contents.id := fun same =>
      different (separate.distinct name other first second held otherHeld (here.symm.trans same))
    exact if_neg elsewhere
  nodup := fun name holding held => (wf name holding held).ids_nodup
  disjoint := by
    intro name other first second different held otherHeld id member otherMember
    have owns := (wf name first held).mem_ids_iff.mp member
    have otherOwns := (wf other second otherHeld).mem_ids_iff.mp otherMember
    have here := (Graph.owns_iff.mp owns).1
    have there := (Graph.owns_iff.mp otherOwns).1
    exact different (separate.distinct name other first second held otherHeld
      (here.symm.trans there))

/-! ## Behind and ahead of the counters -/

/-- The id lies behind the counters, so it is not to be given out any more. -/
structure Behind (session : Session) (id : BlockId) : Prop where
  graph_lt : id.graph < session.nextGraph
  index_lt : ∀ name holding, session.held name = some holding → holding.contents.id = id.graph →
    id.index < holding.contents.nextIndex

/-- The id lies ahead of the counters: if there has been a graph of its number, it is held and has
not yet given out the id. -/
def Ahead (session : Session) (id : BlockId) : Prop :=
  id.graph < session.nextGraph → ∃ name holding, session.held name = some holding ∧
    holding.contents.id = id.graph ∧ holding.contents.nextIndex ≤ id.index

/-- Of two ids of one graph, the one behind the counters has the smaller index. -/
theorem Behind.index_lt_of_ahead (behind : session.Behind id) {later : BlockId}
    (ahead : session.Ahead later) (same : id.graph = later.graph) : id.index < later.index := by
  rcases ahead (same ▸ behind.graph_lt) with ⟨name, holding, held, here, below⟩
  exact Nat.lt_of_lt_of_le (behind.index_lt name holding held (here.trans same.symm)) below

/-- No action gets back to an id that lies behind the counters. -/
theorem Behind.step (behind : session.Behind id) (action : Action) :
    (session.step action).Behind id where
  graph_lt := Nat.lt_of_lt_of_le behind.graph_lt (session.nextGraph_le_step action)
  index_lt := by
    intro name holding held here
    rcases held_step held with ⟨-, new⟩ | ⟨before, beforeHeld, develops⟩
    · have taken := behind.graph_lt
      rw [← here, new] at taken
      exact absurd taken (Nat.lt_irrefl _)
    · have early := behind.index_lt name before beforeHeld (develops.descends.id_eq.symm.trans here)
      exact Nat.lt_of_lt_of_le early develops.descends.nextIndex_le

/-- What lies ahead after an action lay ahead before it. -/
theorem Ahead.of_step (ahead : (session.step action).Ahead id) : session.Ahead id := by
  intro taken
  rcases ahead (Nat.lt_of_lt_of_le taken (session.nextGraph_le_step action)) with
    ⟨name, holding, held, here, below⟩
  rcases held_step held with ⟨-, new⟩ | ⟨before, beforeHeld, develops⟩
  · rw [← here, new] at taken
    exact absurd taken (Nat.lt_irrefl _)
  · exact ⟨name, before, beforeHeld, develops.descends.id_eq.symm.trans here,
      Nat.le_trans develops.descends.nextIndex_le below⟩

/-- What an action gives out lay ahead before it. -/
theorem GivesOut.ahead (givesOut : session.GivesOut action id) : session.Ahead id := by
  rcases givesOut with ⟨name, before, after, held, -, -, given⟩
  exact fun _ => ⟨name, before, held, given.graph_eq.symm, given.not_before⟩

/-- What an action gives out lies behind after it. -/
theorem GivesOut.behind (givesOut : session.GivesOut action id) (separate : session.Separate) :
    (session.step action).Behind id := by
  rcases givesOut with ⟨name, before, after, held, heldAfter, descends, given⟩
  have separateAfter := separate.step action
  have here : after.contents.id = id.graph := descends.id_eq.trans given.graph_eq.symm
  constructor
  · rw [← here]
    exact separateAfter.below name after heldAfter
  · intro other holding otherHeld otherHere
    obtain rfl := separateAfter.distinct name other after holding heldAfter otherHeld
      (here.trans otherHere.symm)
    obtain rfl := Option.some.inj (heldAfter.symm.trans otherHeld)
    exact given.by_then

/-! ## Along a run -/

/-- The ids that are given out by actions in sequence, in the order in which they are given out. -/
def issuedFrom : Session → List Action → List BlockId
  | _, [] => []
  | session, action :: rest => session.issued action ++ issuedFrom (session.step action) rest

/-- All that will be given out lies ahead. -/
theorem ahead_of_mem_issuedFrom (wf : session.WellFormed) {actions : List Action}
    (member : id ∈ issuedFrom session actions) : session.Ahead id := by
  induction actions generalizing session with
  | nil => contradiction
  | cons action rest ih =>
      rcases List.mem_append.mp member with now | later
      · exact (givesOut_of_mem_issued wf now).ahead
      · exact (ih (wf.step action) later).of_step

/-- The ids of one graph are given out in increasing order. -/
theorem issuedFrom_increasing (wf : session.WellFormed) (separate : session.Separate)
    (actions : List Action) : (issuedFrom session actions).Pairwise fun earlier later =>
      earlier.graph = later.graph → earlier.index < later.index := by
  induction actions generalizing session with
  | nil => exact .nil
  | cons action rest ih =>
      have first : (session.issued action).Pairwise fun earlier later =>
          earlier.graph = later.graph → earlier.index < later.index := by
        apply (session.issued_increasing wf action).imp
        exact fun less _ => less
      apply List.pairwise_append.mpr
      refine ⟨first, ih (wf.step action) (separate.step action), ?_⟩
      intro earlier now later member same
      have behind := (givesOut_of_mem_issued wf now).behind separate
      exact behind.index_lt_of_ahead (ahead_of_mem_issuedFrom (wf.step action) member) same

/-- A label that is bound again gets a block with a new id. -/
example : issuedFrom {}
    [.newGraph 0, .edit 0 (.createBlock ⟨"body"⟩), .edit 0 (.removeBlock ⟨1, 0⟩),
      .edit 0 (.createBlock ⟨"body"⟩)] = [⟨1, 0⟩, ⟨1, 1⟩] := by
  decide

/-- Some graph that is held has a block of that id. -/
def Resolves (session : Session) (id : BlockId) : Prop :=
  ∃ name holding, session.held name = some holding ∧ holding.contents.Owns id

/-- An id that resolves lies behind the counters. -/
theorem Resolves.behind (resolves : session.Resolves id) (wf : session.WellFormed)
    (separate : session.Separate) : session.Behind id := by
  rcases resolves with ⟨name, holding, held, owns⟩
  have here : id.graph = holding.contents.id := (Graph.owns_iff.mp owns).1
  constructor
  · rw [here]
    exact separate.below name holding held
  · intro other found otherHeld otherHere
    obtain rfl := separate.distinct name other holding found held otherHeld
      (here.symm.trans otherHere.symm)
    obtain rfl := Option.some.inj (held.symm.trans otherHeld)
    exact (wf name holding held).index_lt owns

/-- The id has been given out and does not resolve. -/
structure Spent (session : Session) (id : BlockId) : Prop where
  behind : session.Behind id
  gone : ¬ session.Resolves id

/-- A spent id stays spent. -/
theorem Spent.step (spent : session.Spent id) (action : Action) :
    (session.step action).Spent id where
  behind := spent.behind.step action
  gone := by
    rintro ⟨name, holding, held, owns⟩
    have here : id.graph = holding.contents.id := (Graph.owns_iff.mp owns).1
    rcases held_step held with ⟨-, new⟩ | ⟨before, beforeHeld, develops⟩
    · have taken := spent.behind.graph_lt
      rw [here, new] at taken
      exact Nat.lt_irrefl _ taken
    · have early := spent.behind.index_lt name before beforeHeld
        (develops.descends.id_eq.symm.trans here.symm)
      exact spent.gone ⟨name, before, beforeHeld, develops.descends.owned_before id owns early⟩

theorem Behind.foldl (behind : session.Behind id) (actions : List Action) :
    (actions.foldl Session.step session).Behind id :=
  @foldl_induction (·.Behind id) (fun _ kept => kept.step) session behind actions

theorem Spent.foldl (spent : session.Spent id) (actions : List Action) :
    (actions.foldl Session.step session).Spent id :=
  @foldl_induction (·.Spent id) (fun _ kept => kept.step) session spent actions

end Session

/-! ## While a closure is moved -/

namespace Graph

variable {g : Graph}

/-- The graph after blocks were taken out one after the other. -/
def drained (g : Graph) (ids : List BlockId) : Graph :=
  ids.foldl (fun g id => left (removeBlock id) g) g

theorem develops_drained (g : Graph) (ids : List BlockId) : g.Develops (g.drained ids) := by
  intro inv lasting holds
  exact List.foldlRecOn ids _ holds fun _ kept id _ => (lasting.removeBlock id).left kept

theorem owns_left_removeBlock (id other : BlockId) :
    (left (removeBlock id) g).Owns other ↔ g.Owns other ∧ other ≠ id := by
  unfold left
  rw [removeBlock_apply]
  cases found : g.owned id with
  | ok block =>
      rw [owns_without]
      refine and_congr_right fun owns => not_congr ⟨fun same => ?_, fun same => same ▸ rfl⟩
      exact id_eq_of_index_eq (.of_owned found) owns same
  | error fault =>
      refine ⟨fun owns => ⟨owns, ?_⟩, fun owns => owns.1⟩
      rintro rfl
      rcases owns with ⟨block, otherFound⟩
      rw [found] at otherFound
      contradiction

/-- What was taken out is gone, and nothing else is. -/
theorem owns_drained (ids : List BlockId) (other : BlockId) :
    (g.drained ids).Owns other ↔ g.Owns other ∧ other ∉ ids := by
  induction ids generalizing g with
  | nil => simp [drained]
  | cons id rest ih =>
      have later : (g.drained (id :: rest)).Owns other ↔
          (left (removeBlock id) g).Owns other ∧ other ∉ rest := ih
      rw [later, owns_left_removeBlock, List.mem_cons, not_or, and_assoc]

end Graph

/-- Moving blocks is moving the first of them, and then the others out of what is left. -/
theorem Inlining.migrateBlocks_append (body : Graph) (front back : List BlockId) :
    migrateBlocks body (front ++ back) = do
      let (targets, _) ← migrateBlocks body front
      let (others, last) ← migrateBlocks (body.drained front) back
      return (targets ++ others, last) := by
  induction front generalizing body with
  | nil => simp [migrateBlocks, Graph.drained]
  | cons id rest ih =>
      have first : body.drained (id :: rest) = (left (Graph.removeBlock id) body).drained rest :=
        rfl
      rw [List.cons_append, migrateBlocks, migrateBlocks, first]
      unfold left
      cases Graph.removeBlock id body with
      | ok block after => simp only [ih, bind_assoc, pure_bind, List.cons_append]
      | error fault after => rfl

namespace Session

variable {session : Session}

/-- The session in the midst of inlining the closure held under `closure` into the scope held under
`host`: the scope has been opened at the yield, the first `taken` live blocks have been taken out of
the closure, and the steps that move the first `moved` of them into the scope have been run. -/
def midway (session : Session) (host : Nat) (scope : Scope) (closure : Nat) (body : Graph)
    (binding : Inlining.YieldBinding) (block : BlockId) (yielding : Instr)
    (moved taken : Nat) : Session :=
  let opened := left (Inlining.splitAtSite block yielding) ⟨scope, session.nextLiteral⟩
  let pass :=
    left (Inlining.migrateBlocks body (body.liveIds.take moved)) (.forClosure binding opened)
  (session.put host (some (.scope pass.host.scope))).put closure
    (some (.graph (body.drained (body.liveIds.take taken))))

section Midway

variable {host closure : Nat} {scope : Scope} {body : Graph} {binding : Inlining.YieldBinding}
  {block : BlockId} {yielding : Instr} {moved taken : Nat}
  (hostHeld : session.held host = some (.scope scope))
  (closureHeld : session.held closure = some (.graph body))

include hostHeld closureHeld

/-- What is held midway has come of what was held. -/
theorem developsAt_midway {name : Nat} {holding : Holding}
    (held : (session.midway host scope closure body binding block yielding moved taken).held name =
      some holding) : session.DevelopsAt name holding := by
  rcases held_put held with ⟨rfl, same⟩ | ⟨-, onHost⟩
  · obtain rfl := Option.some.inj same
    exact ⟨_, closureHeld, body.develops_drained _⟩
  · apply developsAt_put hostHeld onHost
    intro inv lasting holds
    have start : inv (Host.scope ⟨scope, session.nextLiteral⟩).graph := holds
    have opened := (Inlining.keeps_splitAtSite lasting block yielding).left start
    have entered : inv (Inlining.Pass.forClosure binding
        (left (Inlining.splitAtSite block yielding) ⟨scope, session.nextLiteral⟩)).graph := opened
    exact (Inlining.keeps_migrateBlocks (Inlining.durable_graph lasting) body
      (body.liveIds.take moved)).left entered

/-- Midway no id resolves twice. -/
theorem idsApart_midway (wf : session.WellFormed) (separate : session.Separate) :
    (session.midway host scope closure body binding block yielding moved taken).IdsApart := by
  apply Separate.idsApart
  · exact separate.of_developsAt (fun _ _ => developsAt_midway hostHeld closureHeld) rfl
  · intro name holding held
    rcases developsAt_midway hostHeld closureHeld held with ⟨before, beforeHeld, develops⟩
    exact develops.wellFormed (wf name before beforeHeld)

/-- The ids of the blocks that were taken out of the closure resolve nowhere. -/
theorem not_resolves_midway (wf : session.WellFormed) (separate : session.Separate) {id : BlockId}
    (member : id ∈ body.liveIds.take taken) :
    ¬ (session.midway host scope closure body binding block yielding moved taken).Resolves id := by
  rintro ⟨name, holding, held, owns⟩
  have bodyWf : body.WellFormed := wf closure (.graph body) closureHeld
  have here : id.graph = body.id :=
    (Graph.owns_iff.mp (bodyWf.owns_of_mem_liveIds (List.mem_of_mem_take member))).1
  rcases developsAt_midway hostHeld closureHeld held with ⟨before, beforeHeld, develops⟩
  have there : id.graph = before.contents.id :=
    (Graph.owns_iff.mp owns).1.trans develops.descends.id_eq
  obtain rfl :=
    separate.distinct name closure before _ beforeHeld closureHeld (there.symm.trans here)
  have drained : holding = .graph (body.drained (body.liveIds.take taken)) := by
    simpa [midway, put] using held.symm
  rw [drained] at owns
  exact ((Graph.owns_drained _ id).mp owns).2 member

end Midway

/-! ## Every run -/

/-- How the ids of blocks fare in a run. -/
structure IdsLast (actions : List Action) : Prop where
  /-- What an action gives out has the number of a graph that it changes, and an index that the
  counter of this graph passes. -/
  given : ∀ (earlier : List Action) (action : Action) (later : List Action),
    actions = earlier ++ action :: later →
      ∀ id ∈ (run earlier).issued action, (run earlier).GivesOut action id
  /-- The ids of one graph are given out in increasing order. -/
  increasing : (issuedFrom {} actions).Pairwise fun earlier later =>
    earlier.graph = later.graph → earlier.index < later.index
  /-- An id that has resolved and then not never resolves again. -/
  spent : ∀ earlier middle later : List Action, actions = earlier ++ middle ++ later →
    ∀ id, (run earlier).Resolves id → ¬ (run (earlier ++ middle)).Resolves id →
      ¬ (run actions).Resolves id
  /-- No id resolves twice. -/
  apart : (run actions).IdsApart
  /-- So it is also while the blocks of a closure are moved into a scope one after the other.  Those
  that were taken out then resolve nowhere, and moving all blocks passes through these states. -/
  moving : ∀ host scope closure body, (run actions).held host = some (.scope scope) →
    (run actions).held closure = some (.graph body) →
      ∀ binding block yielding moved taken,
        ((run actions).midway host scope closure body binding block yielding moved taken).IdsApart ∧
        (∀ id ∈ body.liveIds.take taken,
          ¬ ((run actions).midway host scope closure body binding block yielding moved
            taken).Resolves id) ∧
        Inlining.migrateBlocks body body.liveIds = do
          let (targets, _) ← Inlining.migrateBlocks body (body.liveIds.take moved)
          let (others, last) ← Inlining.migrateBlocks (body.drained (body.liveIds.take moved))
            (body.liveIds.drop moved)
          return (targets ++ others, last)

/-- Ids of blocks are never given out twice and never resolve again once they have stopped, in every
run, whichever of its actions failed. -/
theorem idsLast_run (actions : List Action) : IdsLast actions := by
  have wf : ∀ actions, (run actions).WellFormed := run_induction nofun fun _ wf => wf.step
  have start : Separate {} := ⟨nofun, nofun⟩
  have separate : ∀ actions, (run actions).Separate := run_induction start fun _ kept => kept.step
  constructor
  · exact fun earlier action later _ id member => givesOut_of_mem_issued (wf earlier) member
  · exact issuedFrom_increasing (wf []) (separate []) actions
  · rintro earlier middle later rfl id resolved gone
    have early : (run earlier).Behind id := resolved.behind (wf earlier) (separate earlier)
    have behind : (run (earlier ++ middle)).Behind id := by
      rw [run, List.foldl_append]
      exact early.foldl middle
    have spent : (run (earlier ++ middle)).Spent id := ⟨behind, gone⟩
    rw [run, List.foldl_append]
    exact (spent.foldl later).gone
  · exact (separate actions).idsApart (wf actions)
  · intro host scope closure body hostHeld closureHeld binding block yielding moved taken
    refine ⟨idsApart_midway hostHeld closureHeld (wf actions) (separate actions), ?_, ?_⟩
    · exact fun id member =>
        not_resolves_midway hostHeld closureHeld (wf actions) (separate actions) member
    · have whole :=
        Inlining.migrateBlocks_append body (body.liveIds.take moved) (body.liveIds.drop moved)
      rwa [List.take_append_drop] at whole

end Session

end FlowIR
