import FlowIR.Proofs.Graph.Reachability
import FlowIR.Proofs.Graph.Grow
import Mathlib.Logic.Relation

/-!
# The search for reachable blocks

The search is a loop that looks at one pending block after the other.  Each look takes one from a
weight, that of the pending blocks and of the edges whose source was not met yet, so the loop
ends after at most one look more than there are edges.  At all times the blocks met and those not
met yet are the live ones.

In the end the search has met the blocks to which a path of edges leads from the entry through live
blocks, whichever order it took.
-/

namespace FlowIR.Graph

variable {g : Graph}

/-! ## The search as a loop -/

/-- Where a search stands: the live blocks that it has not met, the blocks that it has still to look
at, and those that it has met. -/
structure Search where
  unmet : List BlockId
  pending : List BlockId
  met : List BlockId

namespace Search

variable {search middle next : Search}

/-- At the beginning no block is met and the entry is to be looked at. -/
def start (g : Graph) : Search where
  unmet := g.liveIds
  pending := g.entry.toList
  met := []

/-- Look at the next pending block.  If it was not met it is met now, and the blocks to
which its edges lead become pending; otherwise it is passed over.  The search is over
when nothing is pending. -/
def look (g : Graph) (search : Search) : Option Search :=
  match search.pending with
  | [] => none
  | id :: rest =>
      if id ∈ search.unmet then
        some ⟨search.unmet.erase id, g.successors id ++ rest, search.met ++ [id]⟩
      else
        some ⟨search.unmet, rest, search.met⟩

/-- Look a number of times. -/
def run (g : Graph) : Nat → Search → Option Search
  | 0, search => some search
  | n + 1, search => (look g search).bind (run g n)

theorem look_eq_none_iff : look g search = none ↔ search.pending = [] := by
  unfold look
  split
  next ended => simp [ended]
  next pending => split <;> simp [pending]

/-- A look meets the next pending block or passes it over. -/
theorem look_cases (looked : look g search = some next) :
    ∃ id rest, search.pending = id :: rest ∧
      (id ∈ search.unmet ∧
          next = ⟨search.unmet.erase id, g.successors id ++ rest, search.met ++ [id]⟩ ∨
        id ∉ search.unmet ∧ next = ⟨search.unmet, rest, search.met⟩) := by
  unfold look at looked
  split at looked
  next => contradiction
  next id rest pending =>
    refine ⟨id, rest, pending, ?_⟩
    split at looked
    next unmet => exact .inl ⟨unmet, (Option.some.inj looked).symm⟩
    next met => exact .inr ⟨met, (Option.some.inj looked).symm⟩

/-! ### What a search keeps -/

/-- The second search comes of the first: both divide the same blocks into those met and those not
met, and both are to meet the same blocks in the end. -/
structure Continues (g : Graph) (search next : Search) : Prop where
  parts : (next.met ++ next.unmet).Perm (search.met ++ search.unmet)
  answer : next.met ++ g.explore next.unmet next.pending =
    search.met ++ g.explore search.unmet search.pending

theorem Continues.refl (g : Graph) (search : Search) : Continues g search search :=
  ⟨.refl _, rfl⟩

theorem Continues.trans (first : Continues g search middle) (second : Continues g middle next) :
    Continues g search next :=
  ⟨second.parts.trans first.parts, second.answer.trans first.answer⟩

theorem continues_of_look (looked : look g search = some next) : Continues g search next := by
  rcases look_cases looked with ⟨id, rest, pending, ⟨unmet, rfl⟩ | ⟨met, rfl⟩⟩
  · constructor
    · rw [List.append_assoc]
      exact (List.perm_cons_erase unmet).symm.append_left search.met
    · rw [pending, explore, if_pos unmet, List.append_assoc]
      rfl
  · constructor
    · exact .refl _
    · rw [pending, explore, if_neg met]

/-! ### Why a search ends -/

/-- The looks that a search may still take: one for each pending block, and one for each edge whose
source is not met yet. -/
def weight (g : Graph) (search : Search) : Nat :=
  search.pending.length + g.edges.countP (·.source ∈ search.unmet)

/-- The edges whose sources are not met are those of one block and those of the others. -/
theorem countP_source_erase {unmet : List BlockId} (distinct : unmet.Nodup) {id : BlockId}
    (member : id ∈ unmet) (edges : List Edge) :
    edges.countP (·.source ∈ unmet) =
      edges.countP (·.source ∈ unmet.erase id) + edges.countP (·.source = id) := by
  induction edges with
  | nil => rfl
  | cons edge rest ih =>
      have here : edge.source ∈ unmet ↔ edge.source ∈ unmet.erase id ∨ edge.source = id := by
        rw [distinct.mem_erase_iff]
        by_cases same : edge.source = id <;> simp [same, member]
      have apart : edge.source = id → edge.source ∉ unmet.erase id :=
        fun same => same ▸ distinct.not_mem_erase
      simp only [List.countP_cons, ih, decide_eq_true_eq, here]
      by_cases same : edge.source = id
      · simp only [same, or_true, if_true]
        rw [if_neg (same ▸ apart same)]
        omega
      · simp only [same, or_false, if_false]
        omega

/-- Every look takes one from the weight. -/
theorem weight_of_look (distinct : search.unmet.Nodup) (looked : look g search = some next) :
    weight g next + 1 = weight g search := by
  rcases look_cases looked with ⟨id, rest, pending, ⟨unmet, rfl⟩ | ⟨met, rfl⟩⟩
  · have followed : (g.successors id).length = g.edges.countP (·.source = id) := by
      rw [successors, List.length_map, outgoing, List.countP_eq_length_filter]
    simp only [weight, pending, List.length_append, List.length_cons, followed,
      countP_source_erase distinct unmet g.edges]
    omega
  · simp only [weight, pending, List.length_cons]
    omega

/-- Every search comes to its end, after as many looks as it has lost weight. -/
theorem exists_run (g : Graph) (search : Search) (distinct : (search.met ++ search.unmet).Nodup) :
    ∃ n last, run g n search = some last ∧ last.pending = [] ∧
      n + weight g last = weight g search ∧ Continues g search last := by
  induction heavy : weight g search generalizing search with
  | zero =>
      have ended : search.pending = [] := by
        simp only [weight, Nat.add_eq_zero_iff, List.length_eq_zero_iff] at heavy
        exact heavy.1
      exact ⟨0, search, rfl, ended, by rw [heavy], .refl g search⟩
  | succ remaining ih =>
      cases looked : look g search with
      | none =>
          exact ⟨0, search, rfl, look_eq_none_iff.mp looked, by rw [heavy, Nat.zero_add],
            .refl g search⟩
      | some next =>
          have unmetDistinct : search.unmet.Nodup :=
            distinct.sublist (List.sublist_append_right _ _)
          have lighter := weight_of_look unmetDistinct looked
          have continued := continues_of_look looked
          obtain ⟨n, last, ran, ended, looks, later⟩ :=
            ih next (continued.parts.nodup_iff.mpr distinct) (by omega)
          refine ⟨n + 1, last, ?_, ended, by omega, continued.trans later⟩
          rw [run, looked]
          exact ran

end Search

/-! ## Paths -/

/-- The graph has a live block of that id. -/
def Alive (g : Graph) (id : BlockId) : Prop :=
  ∃ block, g.owned id = .ok block ∧ block.live = true

/-- The edges, of whatever kinds, lead one after the other from one block to another. -/
def IsPath (g : Graph) : BlockId → List Edge → BlockId → Prop
  | source, [], target => source = target
  | source, edge :: rest, target =>
      edge ∈ g.edges ∧ edge.source = source ∧ g.IsPath edge.destination rest target

theorem IsPath.concat {source middle : BlockId} {path : List Edge}
    (leads : g.IsPath source path middle) {edge : Edge} (member : edge ∈ g.edges)
    (onward : edge.source = middle) :
    g.IsPath source (path ++ [edge]) edge.destination := by
  induction path generalizing source with
  | nil =>
      have here : source = middle := leads
      exact ⟨member, onward.trans here.symm, rfl⟩
  | cons first rest ih =>
      rcases leads with ⟨held, starts, further⟩
      exact ⟨held, starts, ih further⟩

/-- The edges lead from the entry to the block, and all blocks on the way are
live, both ends included. -/
def IsLivePath (g : Graph) (path : List Edge) (target : BlockId) : Prop :=
  ∃ entry, g.entry = some entry ∧ g.IsPath entry path target ∧
    ∀ id ∈ entry :: path.map (·.destination), g.Alive id

/-- Where a block is reached, a path through live blocks goes on from there. -/
theorem Reaches.of_isPath (wf : g.WellFormed) {source target : BlockId} {path : List Edge}
    (reaches : g.Reaches source) (leads : g.IsPath source path target)
    (alive : ∀ id ∈ path.map (·.destination), g.Alive id) : g.Reaches target := by
  induction path generalizing source with
  | nil =>
      have here : source = target := leads
      exact here ▸ reaches
  | cons edge rest ih =>
      rcases leads with ⟨held, rfl, further⟩
      rw [List.map_cons, List.forall_mem_cons] at alive
      apply ih _ further alive.2
      exact reaches.step (mem_successors_of_mem held) (wf.mem_liveIds_iff.mpr alive.1)

/-- A block is reached exactly when a path through live blocks leads there. -/
theorem WellFormed.reaches_iff_exists_path (wf : g.WellFormed) {id : BlockId} :
    g.Reaches id ↔ ∃ path, g.IsLivePath path id := by
  constructor
  · intro reaches
    induction reaches with
    | @entry id role live =>
        refine ⟨[], id, role, rfl, ?_⟩
        intro other listed
        obtain rfl : other = id := List.mem_singleton.mp listed
        exact wf.mem_liveIds_iff.mp live
    | @step id next before follows live ih =>
        rcases ih with ⟨path, entry, role, leads, alive⟩
        rcases mem_successors_iff.mp follows with ⟨edge, member, onward, rfl⟩
        refine ⟨path ++ [edge], entry, role, leads.concat member onward, ?_⟩
        intro other listed
        rw [List.map_append, ← List.cons_append] at listed
        rcases List.mem_append.mp listed with before | last
        · exact alive other before
        · obtain rfl : other = edge.destination := by simpa using last
          exact wf.mem_liveIds_iff.mp live
  · rintro ⟨path, entry, role, leads, alive⟩
    rw [List.forall_mem_cons] at alive
    exact (Reaches.entry role (wf.mem_liveIds_iff.mpr alive.1)).of_isPath wf leads alive.2

/-! ## The live part of a graph -/

/-- An edge leads from a live block to a live block. -/
def Arc (g : Graph) (id next : BlockId) : Prop :=
  id ∈ g.liveIds ∧ next ∈ g.liveIds ∧ next ∈ g.successors id

/-- The answer of a search of the live part of the graph that visits each block which can be reached
there once: nothing, if the entry is missing or dead. -/
structure Visits (g : Graph) (visited : List BlockId) : Prop where
  once : visited.Nodup
  connected : ∀ id, id ∈ visited ↔
    ∃ entry, g.entry = some entry ∧ entry ∈ g.liveIds ∧ Relation.ReflTransGen g.Arc entry id

theorem reaches_iff_reflTransGen {id : BlockId} :
    g.Reaches id ↔
      ∃ entry, g.entry = some entry ∧ entry ∈ g.liveIds ∧ Relation.ReflTransGen g.Arc entry id := by
  constructor
  · intro reaches
    induction reaches with
    | entry role live => exact ⟨_, role, live, .refl⟩
    | step before follows live ih =>
        rcases ih with ⟨entry, role, alive, connected⟩
        exact ⟨entry, role, alive, connected.tail ⟨before.live, live, follows⟩⟩
  · rintro ⟨entry, role, alive, connected⟩
    induction connected with
    | refl => exact .entry role alive
    | tail _ arc ih => exact ih.step arc.2.2 arc.2.1

theorem WellFormed.reachable_nodup (wf : g.WellFormed) : g.reachable.Nodup := by
  rw [reachable_eq_filter]
  exact wf.liveIds_nodup.filter _

/-- Every such search finds the reachable blocks, in whatever order. -/
theorem WellFormed.visits_iff (wf : g.WellFormed) {visited : List BlockId} :
    g.Visits visited ↔ visited.Perm g.reachable := by
  constructor
  · intro visits
    rw [List.perm_ext_iff_of_nodup visits.once wf.reachable_nodup]
    intro id
    rw [visits.connected, mem_reachable_iff, reaches_iff_reflTransGen]
  · intro same
    refine ⟨same.nodup_iff.mpr wf.reachable_nodup, fun id => ?_⟩
    rw [same.mem_iff, mem_reachable_iff, reaches_iff_reflTransGen]

/-! ## The outcome of the search -/

/-- The search ends, and it has met the reachable blocks then. -/
theorem WellFormed.exists_search_run (wf : g.WellFormed) :
    ∃ looks ≤ g.edges.length + 1, ∃ last, Search.run g looks (.start g) = some last ∧
      last.look g = none ∧ last.met.Perm g.reachable := by
  have distinct : ((Search.start g).met ++ (Search.start g).unmet).Nodup := wf.liveIds_nodup
  obtain ⟨looks, last, ran, ended, weights, continued⟩ := Search.exists_run g (.start g) distinct
  have bounded : Search.weight g (.start g) ≤ g.edges.length + 1 := by
    have pending : (Search.start g).pending.length ≤ 1 := by
      unfold Search.start
      cases g.entry <;> simp
    have edges : g.edges.countP (·.source ∈ (Search.start g).unmet) ≤ g.edges.length :=
      List.countP_le_length
    unfold Search.weight
    omega
  have met : last.met = g.explore g.liveIds g.entry.toList := by
    have answer := continued.answer
    rw [ended, explore, List.append_nil] at answer
    exact answer
  have metDistinct : last.met.Nodup :=
    (continued.parts.nodup_iff.mpr distinct).sublist (List.sublist_append_left _ _)
  refine ⟨looks, by omega, last, ran, Search.look_eq_none_iff.mpr ended, ?_⟩
  rw [List.perm_ext_iff_of_nodup metDistinct wf.reachable_nodup]
  intro id
  have live : id ∈ last.met → id ∈ g.liveIds := fun member =>
    continued.parts.mem_iff.mp (List.mem_append_left _ member)
  rw [reachable, List.mem_filter, decide_eq_true_iff, ← met]
  exact ⟨fun member => ⟨live member, member⟩, And.right⟩

/-- The search ends, after at most one look more than there are edges, and it answers with the
blocks to which a path leads from the entry through live blocks, each once, as any search of the
live part would.  There are none exactly when there is no entry or the entry is dead. -/
theorem reachable_exact (wf : g.WellFormed) :
    (∃ looks ≤ g.edges.length + 1, ∃ last, Search.run g looks (.start g) = some last ∧
      last.look g = none ∧ last.met.Perm g.reachable) ∧
    g.reachable.Nodup ∧
    (∀ id, id ∈ g.reachable ↔ ∃ path, g.IsLivePath path id) ∧
    (∀ visited, g.Visits visited ↔ visited.Perm g.reachable) ∧
    (g.reachable = [] ↔ ∀ entry, g.entry = some entry → ¬ g.Alive entry) := by
  refine ⟨wf.exists_search_run, wf.reachable_nodup, ?_, fun _ => wf.visits_iff, ?_⟩
  · intro id
    rw [mem_reachable_iff, wf.reaches_iff_exists_path]
  · rw [List.eq_nil_iff_forall_not_mem]
    constructor
    · intro none entry role alive
      apply none entry
      rw [mem_reachable_iff]
      exact .entry role (wf.mem_liveIds_iff.mpr alive)
    · intro dead id member
      rcases wf.reaches_iff_exists_path.mp (mem_reachable_iff.mp member) with
        ⟨path, entry, role, -, alive⟩
      exact dead entry role (alive entry List.mem_cons_self)

/-- A graph with a cycle, an edge from a block to itself, two edges between the same blocks and a
dead block on the only way to the last one. -/
def tangledGraph : Graph :=
  { ({ id := 0 } : Graph).registerAll
      [{ id := ⟨0, 0⟩, label := ⟨"entry"⟩ }, { id := ⟨0, 1⟩, label := ⟨"loop"⟩ },
       { id := ⟨0, 2⟩, label := ⟨"gone"⟩, live := false },
       { id := ⟨0, 3⟩, label := ⟨"behind"⟩ }] with
    edges :=
      [⟨⟨0, 0⟩, ⟨0, 1⟩, .regular, none⟩, ⟨⟨0, 0⟩, ⟨0, 1⟩, .exception, none⟩,
       ⟨⟨0, 1⟩, ⟨0, 0⟩, .regular, none⟩, ⟨⟨0, 1⟩, ⟨0, 1⟩, .regular, none⟩,
       ⟨⟨0, 1⟩, ⟨0, 2⟩, .exit, none⟩, ⟨⟨0, 2⟩, ⟨0, 3⟩, .fallThrough, none⟩]
    entry := some ⟨0, 0⟩ }

theorem reachable_tangledGraph : tangledGraph.reachable = [⟨0, 0⟩, ⟨0, 1⟩] := by
  simp [reachable, explore, tangledGraph, liveIds, liveBlocks, blocks, registerAll, register,
    successors, outgoing, freshId]

/-- A path leads to the block on the cycle, but none leads through the dead block. -/
theorem reachable_exact_sample :
    tangledGraph.WellFormed ∧ (∃ path, tangledGraph.IsLivePath path ⟨0, 1⟩) ∧
      ¬ ∃ path, tangledGraph.IsLivePath path ⟨0, 3⟩ := by
  have wf : tangledGraph.WellFormed := by decide +kernel
  have sought := (reachable_exact wf).2.2.1
  refine ⟨wf, (sought ⟨0, 1⟩).mp ?_, fun path => ?_⟩
  · simp [reachable_tangledGraph]
  · have member := (sought ⟨0, 3⟩).mpr path
    simp [reachable_tangledGraph] at member

end FlowIR.Graph
