import FlowIR.Proofs.Graph.Edits

/-!
# What pruning keeps

The search meets exactly the blocks to which a path of edges leads from the entry through live
blocks.  Pruning therefore keeps the target of every edge between live blocks whose source it keeps,
and it changes nothing but the liveness of the blocks that it drops.
-/

namespace FlowIR.Graph

variable {g : Graph}

/-- A path of edges leads to the block from the entry, and all blocks on it are live. -/
inductive Reaches (g : Graph) : BlockId → Prop where
  | entry {id : BlockId} (role : g.entry = some id) (live : id ∈ g.liveIds) : Reaches g id
  | step {id next : BlockId} (before : Reaches g id) (follows : next ∈ g.successors id)
      (live : next ∈ g.liveIds) : Reaches g next

theorem mem_successors_iff {id next : BlockId} :
    next ∈ g.successors id ↔ ∃ edge ∈ g.edges, edge.source = id ∧ edge.destination = next := by
  simp [successors, outgoing, and_assoc]

theorem mem_successors_of_mem {edge : Edge} (member : edge ∈ g.edges) :
    edge.destination ∈ g.successors edge.source :=
  mem_successors_iff.mpr ⟨edge, member, rfl, rfl⟩

/-! ## The search -/

/-- The search meets what holds of the pending blocks and is handed on along edges. -/
theorem forall_mem_explore (holds : BlockId → Prop) {unmet pending : List BlockId}
    (start : ∀ id ∈ pending, id ∈ unmet → holds id)
    (follow : ∀ id, holds id → ∀ next ∈ g.successors id, next ∈ unmet → holds next) :
    ∀ id ∈ g.explore unmet pending, holds id := by
  fun_induction explore g unmet pending with
  | case1 unmet => simp
  | case2 unmet id rest member ih =>
      have here : holds id := start id List.mem_cons_self member
      have smaller : ∀ {other}, other ∈ unmet.erase id → other ∈ unmet :=
        List.mem_of_mem_erase
      have others : ∀ other ∈ explore g (unmet.erase id) (g.successors id ++ rest),
          holds other := by
        apply ih
        · intro other pending kept
          rcases List.mem_append.mp pending with next | old
          · exact follow id here other next (smaller kept)
          · exact start other (List.mem_cons_of_mem _ old) (smaller kept)
        · intro source holdsSource next follows kept
          exact follow source holdsSource next follows (smaller kept)
      intro other met
      rcases List.mem_cons.mp met with rfl | met
      · exact here
      · exact others other met
  | case3 unmet id rest gone ih =>
      apply ih
      · exact fun other pending kept => start other (List.mem_cons_of_mem _ pending) kept
      · exact follow

/-- The search meets every pending block that is not met yet, and with a block the blocks to which
edges lead from there. -/
theorem explore_closed (g : Graph) (unmet pending : List BlockId) :
    (∀ id ∈ pending, id ∈ unmet → id ∈ g.explore unmet pending) ∧
    ∀ id ∈ g.explore unmet pending, ∀ next ∈ g.successors id, next ∈ unmet →
      next ∈ g.explore unmet pending := by
  fun_induction explore g unmet pending with
  | case1 unmet => simp
  | case2 unmet id rest member ih =>
      rcases ih with ⟨ofPending, ofEdges⟩
      -- A block that was not met yet is the one met now, or is still not met.
      have split : ∀ {other}, other ∈ unmet → other = id ∨ other ∈ unmet.erase id := by
        intro other kept
        by_cases same : other = id
        · exact .inl same
        · exact .inr ((List.mem_erase_of_ne same).mpr kept)
      constructor
      · intro other pending kept
        rcases split kept with rfl | still
        · exact List.mem_cons_self
        · rcases List.mem_cons.mp pending with rfl | old
          · exact List.mem_cons_self
          · exact List.mem_cons_of_mem _ (ofPending other (List.mem_append_right _ old) still)
      · intro source met next follows kept
        rcases split kept with rfl | still
        · exact List.mem_cons_self
        · rcases List.mem_cons.mp met with rfl | met
          · exact List.mem_cons_of_mem _ (ofPending next (List.mem_append_left _ follows) still)
          · exact List.mem_cons_of_mem _ (ofEdges source met next follows still)
  | case3 unmet id rest gone ih =>
      rcases ih with ⟨ofPending, ofEdges⟩
      constructor
      · intro other pending kept
        rcases List.mem_cons.mp pending with rfl | old
        · exact absurd kept gone
        · exact ofPending other old kept
      · exact ofEdges

/-- The reachable blocks are those to which a path through live blocks leads. -/
theorem mem_reachable_iff {id : BlockId} : id ∈ g.reachable ↔ g.Reaches id := by
  have closed := explore_closed g g.liveIds g.entry.toList
  have member : id ∈ g.reachable ↔ id ∈ g.liveIds ∧ id ∈ g.explore g.liveIds g.entry.toList := by
    simp [reachable]
  rw [member]
  clear member
  constructor
  · rintro ⟨-, met⟩
    apply forall_mem_explore g.Reaches _ _ id met
    · intro entry pending live
      exact .entry (by simpa [eq_comm] using pending) live
    · intro source before next follows live
      exact .step before follows live
  · intro reaches
    induction reaches with
    | entry role live => exact ⟨live, closed.1 _ (by simp [role]) live⟩
    | step before follows live ih => exact ⟨live, closed.2 _ ih.2 _ follows live⟩

/-- The reachable blocks are in the order of the live ones. -/
theorem reachable_eq_filter (g : Graph) : g.reachable = g.liveIds.filter (· ∈ g.reachable) := by
  apply List.filter_congr
  intro id live
  simp [reachable, live]

/-! ## Paths that stop at a block -/

theorem Reaches.live {id : BlockId} (reaches : g.Reaches id) : id ∈ g.liveIds := by
  cases reaches with
  | entry _ live => exact live
  | step _ _ live => exact live

/-- A path leads to the block from the entry, of which no edge leaves `stop`; all blocks on it are
live. -/
inductive ReachesAvoiding (g : Graph) (stop : BlockId) : BlockId → Prop where
  | entry {id : BlockId} (role : g.entry = some id) (live : id ∈ g.liveIds) :
      ReachesAvoiding g stop id
  | step {id next : BlockId} (before : ReachesAvoiding g stop id) (onward : id ≠ stop)
      (follows : next ∈ g.successors id) (live : next ∈ g.liveIds) : ReachesAvoiding g stop next

section ReachesAvoiding

variable {stop id : BlockId}

theorem ReachesAvoiding.reaches (avoids : g.ReachesAvoiding stop id) : g.Reaches id := by
  induction avoids with
  | entry role live => exact .entry role live
  | step _ _ follows live ih => exact .step ih follows live

/-- A path that goes on from `stop` has come there a first time. -/
theorem Reaches.avoiding (reaches : g.Reaches id) :
    g.ReachesAvoiding stop id ∨ g.ReachesAvoiding stop stop := by
  induction reaches with
  | entry role live => exact .inl (.entry role live)
  | @step id next before follows live ih =>
      rcases ih with avoids | first
      · by_cases here : id = stop
        · exact .inr (here ▸ avoids)
        · exact .inl (.step avoids here follows live)
      · exact .inr first

/-- What is reached at all is reached without going on from there. -/
theorem reachesAvoiding_self_iff : g.ReachesAvoiding stop stop ↔ g.Reaches stop :=
  ⟨ReachesAvoiding.reaches, fun reaches => or_self_iff.mp reaches.avoiding⟩

end ReachesAvoiding

/-! ## Pruning -/

/-- Marking blocks of the graph changes the liveness of these blocks and nothing else. -/
theorem owned_markAll {ids : List BlockId} (live : Bool) (owns : ∀ id ∈ ids, g.Owns id)
    (other : BlockId) :
    (ids.foldl (fun g id => g.adjust id (·.mark live)) g).owned other =
      if other ∈ ids then (g.owned other).map (·.mark live) else g.owned other := by
  induction ids generalizing g with
  | nil => simp
  | cons id rest ih =>
      have ownsRest : ∀ next ∈ rest, (g.adjust id (·.mark live)).Owns next := by
        intro next member
        rw [owns_adjust]
        exact owns next (List.mem_cons_of_mem _ member)
      rw [List.foldl_cons, ih ownsRest, owned_adjust_of_owns (owns id List.mem_cons_self)]
      by_cases same : other = id
      · subst same
        have twice : ((g.owned other).map (·.mark live)).map (·.mark live) =
            (g.owned other).map (·.mark live) := by
          cases g.owned other <;> rfl
        simp [twice]
      · simp [same]

/-- What marking leaves alone in a graph. -/
theorem markAll_fields (ids : List BlockId) (live : Bool) :
    let after := ids.foldl (fun g id => g.adjust id (·.mark live)) g
    after.id = g.id ∧ after.nextIndex = g.nextIndex ∧ after.labels = g.labels ∧
      after.edges = g.edges ∧ after.entry = g.entry ∧ after.exit = g.exit := by
  induction ids generalizing g with
  | nil => exact ⟨rfl, rfl, rfl, rfl, rfl, rfl⟩
  | cons id rest ih => exact ih

/-- Pruning changes neither ids and labels nor edges and roles. -/
theorem prune_fields (g : Graph) :
    g.prune.2.id = g.id ∧ g.prune.2.nextIndex = g.nextIndex ∧ g.prune.2.labels = g.labels ∧
      g.prune.2.edges = g.edges ∧ g.prune.2.entry = g.entry ∧ g.prune.2.exit = g.exit := by
  unfold prune
  cases entry : g.entry with
  | none => exact ⟨rfl, rfl, rfl, rfl, entry, rfl⟩
  | some _ =>
      have fields := markAll_fields (g := g) (g.liveIds.filter (· ∉ g.reachable)) false
      rw [entry] at fields
      exact fields

/-- Pruning keeps a block as it is, but for its liveness: it is live afterwards when it was live
before and, in a graph with an entry, reachable. -/
theorem WellFormed.owned_prune (wf : g.WellFormed) (id : BlockId) :
    g.prune.2.owned id =
      (g.owned id).map fun block =>
        block.mark (block.live && (g.entry.isNone || decide (id ∈ g.reachable))) := by
  unfold Graph.prune
  cases entry : g.entry with
  | none => cases g.owned id <;> simp [Except.map, Block.mark]
  | some _ =>
      have owns : ∀ lost ∈ g.liveIds.filter (· ∉ g.reachable), g.Owns lost :=
        fun lost member => wf.owns_of_mem_liveIds (List.mem_filter.mp member).1
      dsimp only
      rw [owned_markAll false owns]
      cases found : g.owned id with
      | error fault => simp [Except.map]
      | ok block =>
          have live : block.live = true ↔ id ∈ g.liveIds := by
            rw [wf.mem_liveIds_iff, found]
            simp
          by_cases lost : id ∈ g.liveIds ∧ id ∉ g.reachable
          · simp [lost, live.mpr lost.1, Except.map]
          · have same : (block.live && decide (id ∈ g.reachable)) = block.live := by
              cases alive : block.live with
              | false => rfl
              | true =>
                  have kept : id ∈ g.reachable :=
                    Decidable.not_not.mp fun gone => lost ⟨live.mp alive, gone⟩
                  simp [kept]
            have marked : block.mark (block.live && decide (id ∈ g.reachable)) = block := by
              rw [same]
              rfl
            simp [lost, Except.map, marked]

/-- The live blocks after pruning are those that were live and, in a graph
with an entry, reached. -/
theorem WellFormed.mem_liveBlocks_prune_iff (wf : g.WellFormed) {block : Block} :
    block ∈ g.prune.2.liveBlocks ↔
      block ∈ g.liveBlocks ∧ (g.entry = none ∨ g.Reaches block.id) := by
  have kept : (g.entry.isNone || decide (block.id ∈ g.reachable)) = true ↔
      g.entry = none ∨ g.Reaches block.id := by
    rw [Bool.or_eq_true_iff, Option.isNone_iff_eq_none, decide_eq_true_iff, mem_reachable_iff]
  rw [wf.prune.mem_liveBlocks_iff, wf.mem_liveBlocks_iff, wf.owned_prune, ← kept]
  cases found : g.owned block.id with
  | error fault => simp [Except.map]
  | ok held =>
      constructor
      · rintro ⟨marked, live⟩
        have same : held.mark (held.live && (g.entry.isNone || decide (block.id ∈ g.reachable))) =
          block := Except.ok.inj marked
        have stays := (congrArg Block.live same).trans live
        have alive := Bool.and_eq_true_iff.mp stays
        have unchanged : held = block := by
          rw [← same, show (held.live && _) = true from stays, ← alive.1]
          rfl
        exact ⟨⟨congrArg Except.ok unchanged, live⟩, alive.2⟩
      · rintro ⟨⟨here, live⟩, stays⟩
        obtain rfl := Except.ok.inj here
        constructor
        · rw [stays]
          simp [Except.map, Block.mark]
        · exact live

theorem WellFormed.mem_liveIds_prune_iff (wf : g.WellFormed) {id : BlockId} :
    id ∈ g.prune.2.liveIds ↔ id ∈ g.liveIds ∧ (g.entry = none ∨ g.Reaches id) := by
  simp only [liveIds, List.mem_map, wf.mem_liveBlocks_prune_iff]
  constructor
  · rintro ⟨block, ⟨member, kept⟩, rfl⟩
    exact ⟨⟨block, member, rfl⟩, kept⟩
  · rintro ⟨⟨block, member, rfl⟩, kept⟩
    exact ⟨block, ⟨member, kept⟩, rfl⟩

theorem successors_prune (id : BlockId) : g.prune.2.successors id = g.successors id := by
  rw [successors, outgoing, g.prune_fields.2.2.2.1]
  rfl

/-- Pruning loses no path. -/
theorem WellFormed.reaches_prune_iff (wf : g.WellFormed) {id : BlockId} :
    g.prune.2.Reaches id ↔ g.Reaches id := by
  have live : ∀ {other}, other ∈ g.prune.2.liveIds ↔ _ := wf.mem_liveIds_prune_iff
  have entryEq : g.prune.2.entry = g.entry := g.prune_fields.2.2.2.2.1
  constructor
  · intro reaches
    induction reaches with
    | entry role alive => exact .entry (entryEq ▸ role) (live.mp alive).1
    | step _ follows alive ih => exact .step ih (successors_prune _ ▸ follows) (live.mp alive).1
  · intro reaches
    induction reaches with
    | entry role alive =>
        exact .entry (entryEq.trans role) (live.mpr ⟨alive, .inr (.entry role alive)⟩)
    | @step id next before follows alive ih =>
        apply Reaches.step ih
        · rw [successors_prune]
          exact follows
        · exact live.mpr ⟨alive, .inr (.step before follows alive)⟩

end FlowIR.Graph
