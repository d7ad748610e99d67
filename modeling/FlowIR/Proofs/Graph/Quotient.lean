import FlowIR.Proofs.Atomicity
import FlowIR.Proofs.Graph.Listing

/-!
# Merging as a quotient

A merge makes one block of two, of which the second is entered from the first only.  The edges of
the second block leave the first one afterwards, and where both had an edge of one kind to one
destination, that of the first block stays.

A path through the second block comes from the first one, so taking the second one out of it
leaves a path of the merged graph.  Hence the same blocks are reachable before and after,
the second one excepted.
-/

namespace FlowIR.Graph

variable {g after : Graph} {into donor : BlockId} {held food : Block}

/-! ## Taking a block out -/

/-- Without a block of its own, the graph has the other ones in their order. -/
theorem WellFormed.blocks_without (wf : g.WellFormed) {id : BlockId} (owns : g.Owns id)
    (label : Label) :
    (g.without id label).blocks = g.blocks.filter (·.id ≠ id) := by
  simp only [Graph.blocks, Graph.without, List.filter_map]
  congr 1
  apply List.filter_congr
  rintro ⟨index, block⟩ member
  have slot := (wf.slots index block member).1
  have here : index = id.index ↔ block.id = id := by
    rw [slot]
    constructor
    · rintro rfl
      rw [← (owns_iff.mp owns).1]
    · rintro rfl
      rfl
  simp [here]

/-! ## What a merge does -/

/-- The graph that a merge leaves. -/
def merged (g : Graph) (into donor : BlockId) (food : Block) : Graph :=
  { g.swallowing into donor food with
    edges := (g.swallowing into donor food).edges ++
      (g.swallowing into donor food).lacking (g.handedOver into donor) }

/-- A merge that succeeds, with the two blocks as they were before. -/
structure Merging (g : Graph) (into donor : BlockId) (held food : Block)
    (after : Graph) : Prop where
  into_found : g.owned into = .ok held
  donor_found : g.owned donor = .ok food
  apart : into ≠ donor
  sole : g.SolePredecessor into donor
  after_eq : after = g.merged into donor food

/-- A merge succeeds only for two blocks of which the second is entered from the first alone. -/
theorem WellFormed.exists_merging (wf : g.WellFormed) (done : merge into donor g = .ok () after) :
    ∃ held food, g.Merging into donor held food after := by
  have accepts : g.Accepts (.merge into donor) := (GraphEdit.decides_merge wf into donor).of_ok done
  have intoOwned : g.Owns into := accepts.owned into (by simp [GraphEdit.blocks])
  have donorOwned : g.Owns donor := accepts.owned donor (by simp [GraphEdit.blocks])
  rcases accepts.mergeable into donor rfl with ⟨apart, sole⟩
  rcases intoOwned with ⟨held, intoFound⟩
  rcases donorOwned with ⟨food, donorFound⟩
  refine ⟨held, food, intoFound, donorFound, apart, sole, ?_⟩
  have inserted := wf.insertEdges_swallowing food ⟨held, intoFound⟩ ⟨food, donorFound⟩ apart
  rw [merge_eq_insertEdges ⟨held, intoFound⟩ donorFound apart sole, bind_of_ok inserted] at done
  exact (EStateM.Result.ok.inj done).2.symm

/-- The edges after a merge: those that do not touch the donor, and then those that left the donor,
from `into`, without those of a link that is known already. -/
def mergedEdges (g : Graph) (into donor : BlockId) : List Edge :=
  g.edges.filter (fun edge => !edge.touches donor) ++
    ((g.outgoing donor).map (·.leaving into)).filter fun edge => !g.hasLink edge.link

namespace Merging

variable (merging : g.Merging into donor held food after)

include merging

theorem intoOwned : g.Owns into := ⟨held, merging.into_found⟩

theorem donorOwned : g.Owns donor := ⟨food, merging.donor_found⟩

/-! ### Blocks and labels -/

theorem index_ne {id : BlockId} (owns : g.Owns id) (other : id ≠ donor) : id.index ≠ donor.index :=
  fun same => other (id_eq_of_index_eq merging.donorOwned owns same)

theorem owned_eq (id : BlockId) :
    after.owned id = ((g.without donor food.label).adjust into (·.swallow food)).owned id := by
  rw [merging.after_eq]
  rfl

theorem owned_into : after.owned into = .ok (held.swallow food) := by
  have index := merging.index_ne merging.intoOwned merging.apart
  rw [merging.owned_eq, owned_adjust, if_pos rfl, owned_without_of_ne donor food.label index,
    merging.into_found]
  rfl

/-- The donor is not there any more. -/
theorem owned_donor : after.owned donor = .error (.blockNotFound donor) := by
  have here : donor.graph = g.id := (owns_iff.mp merging.donorOwned).1
  have other : donor.index ≠ into.index := (merging.index_ne merging.intoOwned merging.apart).symm
  rw [merging.owned_eq, owned_adjust, if_neg other]
  simp [owned, here, block?_without]

theorem owned_of_ne {id : BlockId} (notInto : id ≠ into) (notDonor : id ≠ donor) :
    after.owned id = g.owned id := by
  have stays : (g.without donor food.label).Owns into := by
    rw [owns_without]
    exact ⟨merging.intoOwned, merging.index_ne merging.intoOwned merging.apart⟩
  rw [merging.owned_eq, owned_adjust_of_owns stays, if_neg notInto]
  by_cases index : id.index = donor.index
  · -- Under the index of the donor, the graph has no other id.
    have elsewhere : id.graph ≠ g.id := by
      intro here
      apply notDonor
      rcases id with ⟨graph, _⟩
      obtain rfl : graph = g.id := here
      obtain rfl : _ = donor.index := index
      rw [← (owns_iff.mp merging.donorOwned).1]
    simp [owned, elsewhere]
  · exact owned_without_of_ne donor food.label index

/-- The label of the donor is free; the others are bound as before. -/
theorem byLabel?_eq (label : Label) :
    after.byLabel? label = if label = food.label then none else g.byLabel? label := by
  rw [merging.after_eq]
  exact byLabel?_without donor food.label label

theorem byLabel?_eq_some_iff (wf : g.WellFormed) {label : Label} {id : BlockId} :
    after.byLabel? label = some id ↔ g.byLabel? label = some id ∧ id ≠ donor := by
  have bound : g.byLabel? food.label = some donor :=
    (wf.labelled food.label donor).mpr ⟨food, merging.donor_found, rfl⟩
  rw [merging.byLabel?_eq]
  split
  next same => simp [same, bound, eq_comm]
  next different =>
    refine ⟨fun found => ⟨found, ?_⟩, And.left⟩
    rintro rfl
    rcases (wf.labelled label id).mp found with ⟨block, blockFound, rfl⟩
    rw [merging.donor_found] at blockFound
    exact different (congrArg Block.label (Except.ok.inj blockFound)).symm

theorem blocks_eq (wf : g.WellFormed) :
    after.blocks = (g.blocks.filter (·.id ≠ donor)).map fun block =>
      if block.id = into then block.swallow food else block := by
  have stays : (g.without donor food.label).Owns into := by
    rw [owns_without]
    exact ⟨merging.intoOwned, merging.index_ne merging.intoOwned merging.apart⟩
  have listed := (wf.without merging.donor_found).blocks_adjust stays (·.swallow food)
  rw [wf.blocks_without merging.donorOwned] at listed
  rw [merging.after_eq]
  exact listed

theorem liveBlocks_eq (wf : g.WellFormed) :
    after.liveBlocks = (g.liveBlocks.filter (·.id ≠ donor)).map fun block =>
      if block.id = into then block.swallow food else block := by
  have sameLive : ((·.live) ∘ fun block : Block =>
      if block.id = into then block.swallow food else block) = (·.live) := by
    funext block
    simp only [Function.comp]
    split <;> rfl
  rw [liveBlocks, merging.blocks_eq wf, List.filter_map, sameLive, List.filter_comm]
  rfl

theorem liveIds_eq (wf : g.WellFormed) : after.liveIds = g.liveIds.filter (· ≠ donor) := by
  have sameId : ((·.id) ∘ fun block : Block =>
      if block.id = into then block.swallow food else block) = (·.id) := by
    funext block
    simp only [Function.comp]
    split <;> rfl
  rw [liveIds, merging.liveBlocks_eq wf, List.map_map, sameId, liveIds, List.filter_map]
  rfl

/-! ### Edges -/

/-- No edge leads from the donor to itself. -/
theorem destination_ne {edge : Edge} (leaves : edge ∈ g.outgoing donor) :
    edge.destination ≠ donor := by
  intro loop
  rcases List.mem_filter.mp leaves with ⟨member, source⟩
  exact merging.apart ((merging.sole edge member loop).symm.trans (of_decide_eq_true source))

/-- An edge of `into` that does not lead to the donor is known after the donor was taken out
when it was known before. -/
theorem hasLink_swallowing {link : Link} (source : link.source = into)
    (destination : link.destination ≠ donor) :
    (g.swallowing into donor food).hasLink link = g.hasLink link := by
  have iff : (g.swallowing into donor food).hasLink link = true ↔ g.hasLink link = true := by
    rw [hasLink_iff, hasLink_iff]
    constructor
    · intro known
      rcases List.mem_map.mp known with ⟨edge, member, rfl⟩
      exact List.mem_map_of_mem (List.mem_filter.mp member).1
    · intro known
      rcases List.mem_map.mp known with ⟨edge, member, rfl⟩
      have sourceEq : edge.source = into := source
      have apart : edge.touches donor = false := by
        simp [Edge.touches, sourceEq, merging.apart, show edge.destination ≠ donor from destination]
      exact List.mem_map_of_mem (List.mem_filter.mpr ⟨member, by rw [apart]; rfl⟩)
  exact Bool.eq_iff_iff.mpr iff

theorem edges_eq : after.edges = g.mergedEdges into donor := by
  have all : g.handedOver into donor = (g.outgoing donor).map (·.leaving into) := by
    rw [handedOver,
      List.filter_eq_self.mpr fun edge leaves => decide_eq_true (merging.destination_ne leaves)]
  have new : (g.swallowing into donor food).lacking ((g.outgoing donor).map (·.leaving into)) =
      ((g.outgoing donor).map (·.leaving into)).filter fun edge => !g.hasLink edge.link := by
    apply List.filter_congr
    intro edge moved
    rcases List.mem_map.mp moved with ⟨old, leaves, rfl⟩
    rw [merging.hasLink_swallowing rfl (merging.destination_ne leaves)]
  rw [merging.after_eq, mergedEdges, ← new, ← all]
  rfl

/-- An edge that does not touch the donor stays. -/
theorem mem_edges_of_apart {edge : Edge} (member : edge ∈ g.edges) (source : edge.source ≠ donor)
    (destination : edge.destination ≠ donor) : edge ∈ after.edges := by
  rw [merging.edges_eq]
  exact List.mem_append_left _
    (List.mem_filter.mpr ⟨member, by simp [Edge.touches, source, destination]⟩)

/-- An edge of the donor is one of `into`, or `into` has had one of that link. -/
theorem hasLink_of_leaves {edge : Edge} (leaves : edge ∈ g.outgoing donor) :
    after.hasLink (edge.leaving into).link = true := by
  rw [hasLink_iff]
  cases known : g.hasLink (edge.leaving into).link with
  | true =>
      rcases List.mem_map.mp (hasLink_iff.mp known) with ⟨other, member, same⟩
      have source : other.source = into := congrArg Link.source same
      have destination : other.destination = edge.destination := congrArg Link.destination same
      rw [← same]
      apply List.mem_map_of_mem
      apply merging.mem_edges_of_apart member
      · rw [source]
        exact merging.apart
      · rw [destination]
        exact merging.destination_ne leaves
  | false =>
      apply List.mem_map_of_mem
      rw [merging.edges_eq]
      apply List.mem_append_right
      exact List.mem_filter.mpr ⟨List.mem_map_of_mem leaves, by rw [known]; rfl⟩

/-- An edge after the merge has not touched the donor, or has left it. -/
theorem edge_cases {edge : Edge} (member : edge ∈ after.edges) :
    edge ∈ g.edges ∧ edge.source ≠ donor ∧ edge.destination ≠ donor ∨
      ∃ old ∈ g.outgoing donor, edge = old.leaving into := by
  rw [merging.edges_eq] at member
  rcases List.mem_append.mp member with kept | moved
  · rcases List.mem_filter.mp kept with ⟨old, apart⟩
    have ends : edge.source ≠ donor ∧ edge.destination ≠ donor := by
      simpa [Edge.touches] using apart
    exact .inl ⟨old, ends.1, ends.2⟩
  · rcases List.mem_map.mp (List.mem_filter.mp moved).1 with ⟨old, leaves, rfl⟩
    exact .inr ⟨old, leaves, rfl⟩

/-- Where edges lead after a merge: to where they led, and from `into` also to
where the donor's led. -/
theorem mem_successors_iff {id next : BlockId} :
    next ∈ after.successors id ↔ id ≠ donor ∧ next ≠ donor ∧
      (next ∈ g.successors id ∨ id = into ∧ next ∈ g.successors donor) := by
  constructor
  · intro follows
    rcases Graph.mem_successors_iff.mp follows with ⟨edge, member, rfl, rfl⟩
    rcases merging.edge_cases member with ⟨old, source, destination⟩ | ⟨old, leaves, rfl⟩
    · exact ⟨source, destination, .inl (mem_successors_of_mem old)⟩
    · have follows : old.destination ∈ g.successors donor := List.mem_map_of_mem leaves
      have notDonor : old.destination ≠ donor := merging.destination_ne leaves
      exact ⟨merging.apart, notDonor, .inr ⟨rfl, follows⟩⟩
  · rintro ⟨source, destination, follows | ⟨rfl, follows⟩⟩
    · rcases Graph.mem_successors_iff.mp follows with ⟨edge, member, rfl, rfl⟩
      exact mem_successors_of_mem (merging.mem_edges_of_apart member source destination)
    · rcases List.mem_map.mp follows with ⟨edge, leaves, rfl⟩
      rcases List.mem_map.mp (hasLink_iff.mp (merging.hasLink_of_leaves leaves)) with
        ⟨other, member, same⟩
      rw [Graph.mem_successors_iff]
      exact ⟨other, member, congrArg Link.source same, congrArg Link.destination same⟩

/-! ### Roles -/

/-- The roles of the donor are lost, those of the other blocks stay. -/
theorem roles_eq :
    after.entry = g.entry.filter (· ≠ donor) ∧ after.exit = g.exit.filter (· ≠ donor) := by
  rw [merging.after_eq]
  exact ⟨rfl, rfl⟩

/-! ### Reachability -/

section Reaches

variable (wf : g.WellFormed) (linked : donor ∈ g.successors into) (notEntry : g.entry ≠ some donor)

include wf linked notEntry

/-- A path that leads to the donor comes from `into`, and one that goes on from it
can go on from there. -/
theorem reaches_of_reaches {id : BlockId} (reaches : g.Reaches id) :
    (id ≠ donor → after.Reaches id) ∧ (id = donor → after.Reaches into) := by
  have stays : ∀ {other}, other ∈ g.liveIds → other ≠ donor → other ∈ after.liveIds := by
    intro other live notDonor
    rw [merging.liveIds_eq wf]
    exact List.mem_filter.mpr ⟨live, decide_eq_true notDonor⟩
  induction reaches with
  | @entry id role live =>
      have notDonor : id ≠ donor := by
        rintro rfl
        exact notEntry role
      refine ⟨fun _ => .entry ?_ (stays live notDonor), fun same => absurd same notDonor⟩
      rw [merging.roles_eq.1, role]
      simp [Option.filter, notDonor]
  | @step id next before follows live ih =>
      constructor
      · intro notDonor
        by_cases through : id = donor
        · subst through
          exact .step (ih.2 rfl)
            (merging.mem_successors_iff.mpr ⟨merging.apart, notDonor, .inr ⟨rfl, follows⟩⟩)
            (stays live notDonor)
        · exact .step (ih.1 through)
            (merging.mem_successors_iff.mpr ⟨through, notDonor, .inl follows⟩) (stays live notDonor)
      · rintro rfl
        rcases Graph.mem_successors_iff.mp follows with ⟨edge, member, rfl, destination⟩
        have source := merging.sole edge member destination
        rw [source] at ih
        exact ih.1 merging.apart

/-- Where the donor was live, merging it neither cuts off a block nor makes one reachable. -/
theorem reaches_iff (donorLive : food.live = true) {id : BlockId} :
    after.Reaches id ↔ g.Reaches id ∧ id ≠ donor := by
  have donorAlive : donor ∈ g.liveIds :=
    wf.mem_liveIds_iff.mpr ⟨food, merging.donor_found, donorLive⟩
  have alive : ∀ {other}, other ∈ after.liveIds → other ∈ g.liveIds ∧ other ≠ donor := by
    intro other live
    rw [merging.liveIds_eq wf] at live
    rcases List.mem_filter.mp live with ⟨old, notDonor⟩
    exact ⟨old, of_decide_eq_true notDonor⟩
  constructor
  · intro reaches
    refine ⟨?_, (alive reaches.live).2⟩
    induction reaches with
    | @entry id role live =>
        rw [merging.roles_eq.1] at role
        exact .entry (Option.filter_eq_some_iff.mp role).1 (alive live).1
    | @step id next before follows live ih =>
        rcases (merging.mem_successors_iff.mp follows).2.2 with direct | ⟨rfl, through⟩
        · exact .step ih direct (alive live).1
        · exact .step (.step ih linked donorAlive) through (alive live).1
  · rintro ⟨reaches, notDonor⟩
    exact (merging.reaches_of_reaches wf linked notEntry reaches).1 notDonor

theorem reachable_eq (donorLive : food.live = true) :
    after.reachable = g.reachable.filter (· ≠ donor) := by
  rw [reachable_eq_filter, reachable_eq_filter g, merging.liveIds_eq wf, List.filter_filter,
    List.filter_filter]
  apply List.filter_congr
  intro id _
  rw [Bool.eq_iff_iff]
  simp only [Bool.and_eq_true, decide_eq_true_eq, mem_reachable_iff,
    merging.reaches_iff wf linked notEntry donorLive]
  exact ⟨fun both => ⟨both.2, both.1.1⟩, fun both => ⟨⟨both.2, both.1⟩, both.1⟩⟩

end Reaches

end Merging

/-! ## The quotient -/

/-- The graph in which `into` and `donor` are one block, under the id and the label of `into`. -/
structure IsQuotient (g : Graph) (into donor : BlockId) (after : Graph) : Prop where
  /-- The instructions of the donor follow those of `into`, and its label is free. -/
  joined : ∃ held food, g.owned into = .ok held ∧ g.owned donor = .ok food ∧
    after.owned into = .ok { held with instrs := held.instrs ++ food.instrs } ∧
    after.binds food.label = false
  donor_gone : after.owned donor = .error (.blockNotFound donor)
  others : ∀ id, id ≠ into → id ≠ donor → after.owned id = g.owned id
  labels : ∀ label id, after.byLabel? label = some id ↔ g.byLabel? label = some id ∧ id ≠ donor
  edges_eq : after.edges = g.mergedEdges into donor
  /-- Where both had an edge of one kind to one destination, that of `into`
  stays and is the only one. -/
  precedence : ∀ edge ∈ g.outgoing donor, ∀ other ∈ g.edges, other.link = (edge.leaving into).link →
    other ∈ after.edges ∧ ∀ same ∈ after.edges, same.link = other.link → same = other
  /-- An edge from the donor back to `into` has become one from `into` to itself. -/
  loops : ∀ edge ∈ g.outgoing donor, edge.destination = into →
    after.hasLink ⟨into, into, edge.kind⟩ = true
  /-- When the donor is live, entered from `into` and not the entry, the other blocks are reachable
  as before, whether or not `into` is live. -/
  reachable_eq : donor ∈ g.liveIds → donor ∈ g.successors into → g.entry ≠ some donor →
    after.reachable = g.reachable.filter (· ≠ donor)

/-- A merge that succeeds leaves the quotient. -/
theorem isQuotient_of_merge (wf : g.WellFormed) (done : merge into donor g = .ok () after) :
    g.IsQuotient into donor after := by
  have afterWf : after.WellFormed := (wellFormed_lasting.merge into donor g wf).of_ok done
  rcases wf.exists_merging done with ⟨held, food, merging⟩
  constructor
  case joined =>
    have free : after.binds food.label = false := by
      rw [binds, merging.byLabel?_eq, if_pos rfl]
      rfl
    exact ⟨held, food, merging.into_found, merging.donor_found, merging.owned_into, free⟩
  case donor_gone => exact merging.owned_donor
  case others => exact fun id notInto notDonor => merging.owned_of_ne notInto notDonor
  case labels => exact fun label id => merging.byLabel?_eq_some_iff wf
  case edges_eq => exact merging.edges_eq
  case precedence =>
    intro edge leaves other member sameLink
    have source : other.source = into := congrArg Link.source sameLink
    have destination : other.destination = edge.destination := congrArg Link.destination sameLink
    have stays : other ∈ after.edges := by
      apply merging.mem_edges_of_apart member
      · rw [source]
        exact merging.apart
      · rw [destination]
        exact merging.destination_ne leaves
    exact ⟨stays, fun same sameMember eq =>
      List.inj_on_of_nodup_map afterWf.links_nodup sameMember stays eq⟩
  case loops =>
    intro edge leaves back
    have known := merging.hasLink_of_leaves leaves
    rw [Edge.link_leaving, back] at known
    exact known
  case reachable_eq =>
    intro donorLive linked notEntry
    rcases wf.mem_liveIds_iff.mp donorLive with ⟨block, found, live⟩
    rw [merging.donor_found] at found
    obtain rfl := Except.ok.inj found
    exact merging.reachable_eq wf linked notEntry live

/-- Two blocks in a circle, which both have an edge of one kind to a third block and which are
linked by edges of several kinds. -/
def circleGraph : Graph :=
  { ({ id := 0 } : Graph).registerAll
      [{ id := ⟨0, 0⟩, label := ⟨"into"⟩, instrs := [.receiveSelf (.temporary 0)] },
       { id := ⟨0, 1⟩, label := ⟨"donor"⟩, instrs := [.nop, .methodReturn (.var (.temporary 0))] },
       { id := ⟨0, 2⟩, label := ⟨"handler"⟩ }] with
    edges :=
      [⟨⟨0, 0⟩, ⟨0, 1⟩, .regular, none⟩,
       ⟨⟨0, 1⟩, ⟨0, 2⟩, .exception, some (.var (.temporary 1))⟩,
       ⟨⟨0, 0⟩, ⟨0, 2⟩, .exception, some (.var (.temporary 2))⟩,
       ⟨⟨0, 1⟩, ⟨0, 2⟩, .exit, none⟩,
       ⟨⟨0, 1⟩, ⟨0, 0⟩, .fallThrough, none⟩,
       ⟨⟨0, 0⟩, ⟨0, 1⟩, .fallThrough, none⟩]
    entry := some ⟨0, 0⟩
    exit := some ⟨0, 2⟩ }

theorem isQuotient_of_merge_sample :
    circleGraph.WellFormed ∧ ∃ after, merge ⟨0, 0⟩ ⟨0, 1⟩ circleGraph = .ok () after ∧
      circleGraph.IsQuotient ⟨0, 0⟩ ⟨0, 1⟩ after ∧
      after.edges =
        [⟨⟨0, 0⟩, ⟨0, 2⟩, .exception, some (.var (.temporary 2))⟩,
         ⟨⟨0, 0⟩, ⟨0, 2⟩, .exit, none⟩,
         ⟨⟨0, 0⟩, ⟨0, 0⟩, .fallThrough, none⟩] := by
  have wf : circleGraph.WellFormed := by decide +kernel
  exact ⟨wf, _, rfl, isQuotient_of_merge wf rfl, rfl⟩

end FlowIR.Graph
