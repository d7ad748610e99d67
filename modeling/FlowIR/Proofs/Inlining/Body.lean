import FlowIR.Proofs.Graph.Edits
import FlowIR.Proofs.Inlining.Carry

/-!
# Carrying a body over

The blocks of a body are carried over one after the other, then the edges between them.  Afterwards
the host's graph is the graph at the start with the images of the live blocks and of the edges
between them, all under one substitution.  Only an inlined closure can fail, where two of its locals
would become one.
-/

namespace FlowIR.Inlining

/-- What a pass is started with: the host, its setting, and nothing renamed yet. -/
structure Starts (start : Host → Pass) (setting : Setting) : Prop where
  host_eq : ∀ host, (start host).host = host
  setting_eq : ∀ host, (start host).setting = setting
  blocks_eq : ∀ host, (start host).blocks = {}
  vars_eq : ∀ host, (start host).vars = {}
  labels_eq : ∀ host, (start host).labels = {}
  sites_eq : ∀ host, (start host).sites = []

/-! ## Blocks -/

/-- The pass began with the host `base` and has carried over the blocks in `done`. -/
structure Carrying (base : Host) (setting : Setting) (rule : Rule) (log : Bool) (done : List Block)
    (pass : Pass) : Prop where
  named : Named base.scope pass
  setting_eq : pass.setting = setting
  wellFormed : pass.graph.WellFormed
  blocks_oneToOne : pass.blocks.OneToOne
  /-- The blocks have got consecutive ids. -/
  carried : ∀ i block, done[i]? = some block →
    pass.blocks.target? block.id = some (base.scope.graph.idAt i)
  others : ∀ id, id ∉ done.map (·.id) → pass.blocks.target? id = none
  owns : ∀ id target, pass.blocks.target? id = some target → pass.graph.Owns target
  labelled : ∀ block ∈ done, ∃ label, pass.labels.target? block.label = some label
  image : ∀ σ, pass.Agrees σ →
    pass.graph = base.scope.graph.registerAll (rule.blocks σ base.nextLiteral done).1 ∧
    pass.host.nextLiteral = (rule.blocks σ base.nextLiteral done).2 ∧
    pass.sites =
      if log && setting.logging then
        (rule.blocks σ base.nextLiteral done).1.flatMap fun block => yieldsIn block.id block.instrs
      else []

section Blocks

variable {base : Host} {setting : Setting} {rule : Rule} {log : Bool} {done : List Block}
  {pass : Pass} {source : Block}

/-- At the start nothing has been carried over. -/
theorem carrying_start {start : Host → Pass} (starts : Starts start setting)
    (wf : base.scope.graph.WellFormed) : Carrying base setting rule log [] (start base) where
  named := named_start base (starts.host_eq base) (starts.vars_eq base) (starts.labels_eq base)
  setting_eq := starts.setting_eq base
  wellFormed := by
    rw [Pass.graph, starts.host_eq]
    exact wf
  blocks_oneToOne := by
    rw [starts.blocks_eq]
    exact Renaming.oneToOne_empty
  carried := by simp
  others := by
    intro id _
    rw [starts.blocks_eq]
    rfl
  owns := by
    intro id target found
    rw [starts.blocks_eq] at found
    cases found
  labelled := by simp
  image := by
    intro σ _
    simp [Rule.blocks, Pass.graph, starts.host_eq, starts.sites_eq]

/-- What a source block has become was given out in sequence. -/
theorem Carrying.exists_idAt (carrying : Carrying base setting rule log done pass)
    {id target : BlockId} (found : pass.blocks.target? id = some target) :
    ∃ i, i < done.length ∧ target = base.scope.graph.idAt i := by
  by_cases member : id ∈ done.map (·.id)
  · rcases List.mem_map.mp member with ⟨block, listed, rfl⟩
    rcases List.mem_iff_getElem.mp listed with ⟨i, here, rfl⟩
    have known := carrying.carried i done[i] (List.getElem?_eq_getElem here)
    exact ⟨i, here, Option.some.inj (found.symm.trans known)⟩
  · rw [carrying.others id member] at found
    contradiction

theorem Carrying.freshId_eq (carrying : Carrying base setting rule log done pass) :
    pass.graph.freshId = base.scope.graph.idAt done.length := by
  rw [(carrying.image _ pass.agrees_substitution).1, Graph.freshId_registerAll, Rule.length_blocks]

/-- A bound label was bound at the start or is what the label of a block has become. -/
theorem Carrying.bound (carrying : Carrying base setting rule log done pass) {label : Label}
    (bound : pass.graph.binds label = true) : base.scope.graph.binds label = true ∨
      ∃ block ∈ done, pass.labels.target? block.label = some label := by
  rw [(carrying.image _ pass.agrees_substitution).1, Graph.binds_registerAll] at bound
  rcases bound with old | ⟨image, member, rfl⟩
  · exact .inl old
  · right
    have listed : image.label ∈
        (rule.blocks pass.substitution base.nextLiteral done).1.map (·.label) :=
      List.mem_map_of_mem member
    rw [Rule.map_label_blocks] at listed
    rcases List.mem_map.mp listed with ⟨block, sourceMember, labelEq⟩
    rcases carrying.labelled block sourceMember with ⟨target, known⟩
    refine ⟨block, sourceMember, ?_⟩
    rw [known, ← labelEq, pass.agrees_substitution.label _ _ known]

/-- A block with an id and a label of its own can be carried over next. -/
theorem Carrying.ready (carrying : Carrying base setting rule log done pass)
    (newId : source.id ∉ done.map (·.id)) (newLabel : source.label ∉ done.map (·.label)) :
    Ready base.scope setting source pass where
  named := carrying.named
  setting_eq := carrying.setting_eq
  wellFormed := carrying.wellFormed
  blocks_oneToOne := carrying.blocks_oneToOne
  unplaced := carrying.others source.id newId
  unused := by
    intro id found
    rcases carrying.exists_idAt found with ⟨i, below, same⟩
    rw [carrying.freshId_eq] at same
    exact Nat.ne_of_gt below (Graph.idAt_inj.mp same)
  bound := by
    intro label bound
    rcases carrying.bound bound with old | ⟨block, member, known⟩
    · exact .inl old
    · refine .inr ⟨block.label, ?_, known⟩
      rintro same
      exact newLabel (same ▸ List.mem_map_of_mem member)

/-- A block that has been carried over joins those done. -/
theorem Carrying.concat (carrying : Carrying base setting rule log done pass)
    (newId : source.id ∉ done.map (·.id)) {target : BlockId} {after : Pass}
    (carried : CarriedBlock base.scope rule log source pass target after) :
    Carrying base setting rule log (done ++ [source]) after where
  named := carried.named
  setting_eq := carried.setting_eq.trans carrying.setting_eq
  wellFormed := by
    rcases carried.labelled with ⟨label, known, free⟩
    rw [(carried.image _ after.agrees_substitution).1]
    apply carrying.wellFormed.register
    rw [show (rule.block after.substitution pass.host.nextLiteral source).1.label = label from
      after.agrees_substitution.label _ _ known]
    exact free
  blocks_oneToOne := carried.blocks_oneToOne
  carried := by
    intro i block at_i
    rw [carried.blocks_eq]
    rw [List.getElem?_append] at at_i
    split at at_i
    next below =>
      rw [if_neg]
      · exact carrying.carried i block at_i
      · intro same
        apply newId
        rw [← same]
        exact List.mem_map_of_mem (List.mem_of_getElem? at_i)
    next above =>
      rcases List.getElem?_eq_some_iff.mp at_i with ⟨here, rfl⟩
      have last : i = done.length := by
        simp at here
        omega
      subst last
      simp [carried.target_eq, carrying.freshId_eq]
  others := by
    intro id absent
    rw [List.map_append, List.mem_append, not_or] at absent
    rw [carried.blocks_eq, if_neg (by simpa using absent.2)]
    exact carrying.others id absent.1
  owns := by
    intro id image found
    rw [(carried.image _ after.agrees_substitution).1]
    rw [carried.blocks_eq] at found
    split at found
    · obtain rfl := Option.some.inj found
      rw [carried.target_eq]
      exact ⟨_, carrying.wellFormed.owned_register_freshId _⟩
    · exact (carrying.owns id image found).register _
  labelled := by
    intro block member
    rcases List.mem_append.mp member with old | new
    · rcases carrying.labelled block old with ⟨label, known⟩
      exact ⟨label, carried.grows.label _ _ known⟩
    · obtain rfl := List.mem_singleton.mp new
      rcases carried.labelled with ⟨label, known, -⟩
      exact ⟨label, known⟩
  image := by
    intro σ agrees
    rcases carried.image σ agrees with ⟨graphEq, nextEq, sitesEq⟩
    obtain ⟨graphBefore, nextBefore, sitesBefore⟩ := carrying.image σ (carried.grows.agrees agrees)
    rw [nextBefore] at graphEq nextEq sitesEq
    rw [graphBefore] at graphEq
    rw [Rule.blocks_concat]
    refine ⟨?_, nextEq, ?_⟩
    · rw [graphEq, Graph.registerAll_append, Graph.registerAll_singleton]
    · have blockEq : σ.block source.id = target :=
        agrees.block _ _ (by rw [carried.blocks_eq, if_pos rfl])
      have logging : pass.logging = setting.logging := congrArg Setting.logging carrying.setting_eq
      rw [sitesEq, sitesBefore, logging]
      split
      · simp [Rule.block, blockEq]
      · rfl

/-- Carrying over blocks with ids and labels of their own carries over all of them, under
consecutive ids, and keeps what carrying over one of them keeps. -/
theorem ensures_carryBlocks {carry : Block → Step BlockId} {blocks : List Block} {inv : Pass → Prop}
    {fail : Fault → Pass → Prop}
    (carries : ∀ source ∈ blocks, ∀ pass, inv pass → Ready base.scope setting source pass →
      Ensures (carry source) pass (fun target after =>
        CarriedBlock base.scope rule log source pass target after ∧ inv after) fail)
    (carrying : Carrying base setting rule log done pass) (held : inv pass)
    (ids : ((done ++ blocks).map (·.id)).Nodup) (labels : ((done ++ blocks).map (·.label)).Nodup) :
    Ensures (carryBlocks carry blocks) pass
      (fun targets after =>
        targets = (List.range' done.length blocks.length).map base.scope.graph.idAt ∧
        Carrying base setting rule log (done ++ blocks) after ∧ inv after) fail := by
  induction blocks generalizing done pass with
  | nil =>
      rw [List.append_nil]
      exact Ensures.of_pure ⟨rfl, carrying, held⟩
  | cons block rest ih =>
      have newId : block.id ∉ done.map (·.id) := by
        rw [List.map_append, List.nodup_append] at ids
        intro member
        exact ids.2.2 _ member _ (List.mem_map_of_mem List.mem_cons_self) rfl
      have newLabel : block.label ∉ done.map (·.label) := by
        rw [List.map_append, List.nodup_append] at labels
        intro member
        exact labels.2.2 _ member _ (List.mem_map_of_mem List.mem_cons_self) rfl
      have split : done ++ block :: rest = done ++ [block] ++ rest := by simp
      rw [split] at ids labels ⊢
      apply (carries block List.mem_cons_self pass held (carrying.ready newId newLabel)).bind
      rintro target middle ⟨carried, kept⟩
      have next := carrying.concat newId carried
      apply (ih (fun other member => carries other (List.mem_cons_of_mem _ member)) next kept ids
        labels).bind
      rintro targets after ⟨targetsEq, finished⟩
      refine Ensures.of_pure ⟨?_, finished⟩
      rw [targetsEq, carried.target_eq, carrying.freshId_eq]
      simp [List.range'_succ]

end Blocks

/-- Taking blocks out of the body one after the other is migrating the blocks that are there. -/
theorem exists_migrateBlocks_eq {body : Graph} {blocks : List Block}
    (held : ∀ block ∈ blocks, body.owned block.id = .ok block)
    (distinct : (blocks.map (·.id)).Nodup) :
    ∃ left, migrateBlocks body (blocks.map (·.id)) = do
      let targets ← carryBlocks migrate blocks
      return (targets, left) := by
  induction blocks generalizing body with
  | nil => exact ⟨body, rfl⟩
  | cons block rest ih =>
      rw [List.map_cons, List.nodup_cons] at distinct
      have found := held block List.mem_cons_self
      have others : ∀ other ∈ rest,
          (body.without block.id block.label).owned other.id = .ok other := by
        intro other member
        have otherFound := held other (List.mem_cons_of_mem _ member)
        rw [Graph.owned_without_of_ne, otherFound]
        intro same
        have sameId := Graph.id_eq_of_index_eq (.of_owned found) (.of_owned otherFound) same
        exact distinct.1 (sameId ▸ List.mem_map_of_mem member)
      rcases ih others distinct.2 with ⟨left, leftEq⟩
      have removed : Graph.removeBlock block.id body =
          .ok block (body.without block.id block.label) := by
        rw [Graph.removeBlock_apply, found]
      refine ⟨left, ?_⟩
      rw [List.map_cons, migrateBlocks, removed]
      simp only [leftEq, carryBlocks, bind_assoc, pure_bind]

/-! ## Edges -/

/-- The pass has carried over both ends of an edge. -/
def Pass.spans (pass : Pass) (edge : Edge) : Bool :=
  (pass.blocks.target? edge.source).isSome && (pass.blocks.target? edge.destination).isSome

/-- No edge of the graph joins what the ends of an edge have become. -/
def Pass.Lacks (pass : Pass) (edge : Edge) : Prop :=
  ∀ source destination, pass.blocks.target? edge.source = some source →
    pass.blocks.target? edge.destination = some destination →
    pass.graph.hasLink ⟨source, destination, edge.kind⟩ = false

/-- What carrying edges over has done. -/
structure CarriedEdges (base : Scope) (edges : List Edge) (before after : Pass) : Prop where
  named : Named base after
  setting_eq : after.setting = before.setting
  blocks_eq : after.blocks = before.blocks
  sites_eq : after.sites = before.sites
  grows : before.Grows after
  wellFormed : after.graph.WellFormed
  image : ∀ σ, after.Agrees σ →
    after.graph = { before.graph with
      edges := before.graph.edges ++ (edges.filter before.spans).map σ.edge } ∧
    after.host.nextLiteral = before.host.nextLiteral

section Edges

variable {base : Scope} {setting : Setting} {edge : Edge} {rest : List Edge} {pass after : Pass}

/-- An edge with an end that was not carried over is left out. -/
theorem CarriedEdges.skip (apart : pass.spans edge = false)
    (others : CarriedEdges base rest pass after) : CarriedEdges base (edge :: rest) pass after where
  named := others.named
  setting_eq := others.setting_eq
  blocks_eq := others.blocks_eq
  sites_eq := others.sites_eq
  grows := others.grows
  wellFormed := others.wellFormed
  image := by
    intro σ agrees
    rw [List.filter_cons_of_neg (by simp [apart])]
    exact others.image σ agrees

/-- The image of an edge stands before the images of the others. -/
theorem CarriedEdges.cons {middle : Pass} {source destination : BlockId} {data : Option Operand}
    (sourceEq : pass.blocks.target? edge.source = some source)
    (destinationEq : pass.blocks.target? edge.destination = some destination)
    (renamed : Translated base pass.frame (fun σ n => (edge.data.map σ.operand, n)) pass
      data middle)
    (others : CarriedEdges base rest
      (Pass.graphFocus.set
        { pass.graph with edges := pass.graph.edges ++ [⟨source, destination, edge.kind, data⟩] }
        middle) after) :
    CarriedEdges base (edge :: rest) pass after where
  named := others.named
  setting_eq := others.setting_eq.trans (congrArg Frame.setting renamed.frame_eq)
  blocks_eq := others.blocks_eq.trans (congrArg Frame.blocks renamed.frame_eq)
  sites_eq := others.sites_eq.trans (congrArg Frame.sites renamed.frame_eq)
  grows := (renamed.grows.trans (grows_setGraph _ middle)).trans others.grows
  wellFormed := others.wellFormed
  image := by
    intro σ agrees
    rcases others.image σ agrees with ⟨graphEq, nextEq⟩
    have middleAgrees : middle.Agrees σ :=
      (grows_setGraph _ middle).agrees (others.grows.agrees agrees)
    have passAgrees := renamed.grows.agrees middleAgrees
    rcases Prod.mk.inj (renamed.image_eq σ middleAgrees) with ⟨dataEq, literalEq⟩
    have imageEq : σ.edge edge = ⟨source, destination, edge.kind, data⟩ := by
      rw [Substitution.edge, passAgrees.block _ _ sourceEq, passAgrees.block _ _ destinationEq,
        dataEq]
    have spansEq : (Pass.graphFocus.set { pass.graph with
        edges := pass.graph.edges ++ [⟨source, destination, edge.kind, data⟩] } middle).spans =
          pass.spans := by
      funext other
      rw [Pass.spans, Pass.spans, blocks_setGraph,
        show middle.blocks = pass.blocks from congrArg Frame.blocks renamed.frame_eq]
    have spanned : pass.spans edge = true := by simp [Pass.spans, sourceEq, destinationEq]
    refine ⟨?_, nextEq.trans literalEq⟩
    rw [graphEq, List.filter_cons_of_pos spanned, List.map_cons, imageEq, spansEq, graph_setGraph]
    simp

/-- Adding the image of one edge leaves the images of edges with other links to be added. -/
theorem lacks_setGraph {middle : Pass} {source destination : BlockId} {data : Option Operand}
    (sameBlocks : middle.blocks = pass.blocks) (oneToOne : pass.blocks.OneToOne)
    (sourceEq : pass.blocks.target? edge.source = some source)
    (destinationEq : pass.blocks.target? edge.destination = some destination) {other : Edge}
    (different : other.link ≠ edge.link) (lacks : pass.Lacks other) :
    (Pass.graphFocus.set { pass.graph with
      edges := pass.graph.edges ++ [⟨source, destination, edge.kind, data⟩] }
      middle).Lacks other := by
  intro otherSource otherDestination fromSource toDestination
  rw [blocks_setGraph, sameBlocks] at fromSource toDestination
  have known := lacks otherSource otherDestination fromSource toDestination
  apply Bool.eq_false_iff.mpr
  intro held
  rw [Graph.hasLink_iff, graph_setGraph, List.map_append, List.mem_append] at held
  rcases held with old | new
  · rw [← Graph.hasLink_iff, known] at old
    contradiction
  · rcases Link.mk.inj (List.mem_singleton.mp new) with ⟨rfl, rfl, kindEq⟩
    apply different
    rw [Edge.link, Edge.link, oneToOne.source_eq fromSource sourceEq,
      oneToOne.source_eq toDestination destinationEq, show other.kind = edge.kind from kindEq]

/-- The images of the edges can be added one after the other. -/
structure ReadyEdges (base : Scope) (setting : Setting) (edges : List Edge)
    (pass : Pass) : Prop where
  named : Named base pass
  setting_eq : pass.setting = setting
  wellFormed : pass.graph.WellFormed
  blocks_oneToOne : pass.blocks.OneToOne
  owns : ∀ id target, pass.blocks.target? id = some target → pass.graph.Owns target
  links_nodup : (edges.map Edge.link).Nodup
  lacks : ∀ edge ∈ edges, pass.Lacks edge

/-- The first edge may be left out. -/
theorem ReadyEdges.tail (ready : ReadyEdges base setting (edge :: rest) pass) :
    ReadyEdges base setting rest pass where
  named := ready.named
  setting_eq := ready.setting_eq
  wellFormed := ready.wellFormed
  blocks_oneToOne := ready.blocks_oneToOne
  owns := ready.owns
  links_nodup := (List.nodup_cons.mp ready.links_nodup).2
  lacks := fun other member => ready.lacks other (List.mem_cons_of_mem _ member)

/-- When the image of the first edge has been added, those of the others can be. -/
theorem ReadyEdges.add {middle : Pass} {source destination : BlockId} {data : Option Operand}
    (ready : ReadyEdges base setting (edge :: rest) pass)
    (sourceEq : pass.blocks.target? edge.source = some source)
    (destinationEq : pass.blocks.target? edge.destination = some destination)
    (renamed : Translated base pass.frame (fun σ n => (edge.data.map σ.operand, n)) pass
      data middle) :
    ReadyEdges base setting rest
      (Pass.graphFocus.set { pass.graph with
        edges := pass.graph.edges ++ [⟨source, destination, edge.kind, data⟩] } middle) where
  named := by
    apply renamed.named.setGraph
    rw [show middle.graph = pass.graph from congrArg Frame.graph renamed.frame_eq]
    exact fun _ bound => bound
  setting_eq := (congrArg Frame.setting renamed.frame_eq).trans ready.setting_eq
  wellFormed := by
    have free := ready.lacks edge List.mem_cons_self source destination sourceEq destinationEq
    exact ready.wellFormed.addEdge (ready.owns _ _ sourceEq) (ready.owns _ _ destinationEq) free
  blocks_oneToOne := by
    rw [blocks_setGraph,
      show middle.blocks = pass.blocks from congrArg Frame.blocks renamed.frame_eq]
    exact ready.blocks_oneToOne
  owns := by
    rw [blocks_setGraph,
      show middle.blocks = pass.blocks from congrArg Frame.blocks renamed.frame_eq]
    exact ready.owns
  links_nodup := (List.nodup_cons.mp ready.links_nodup).2
  lacks := by
    intro other member
    apply lacks_setGraph (congrArg Frame.blocks renamed.frame_eq) ready.blocks_oneToOne sourceEq
      destinationEq _ (ready.lacks other (List.mem_cons_of_mem _ member))
    intro same
    exact (List.nodup_cons.mp ready.links_nodup).1 (same ▸ List.mem_map_of_mem member)

/-- Carrying edges with distinct links over adds the images of those whose ends were carried
over; none is taken for one that the graph has already.  What renaming the attachments of
these edges keeps is kept. -/
theorem ensures_copyEdges {edges : List Edge} {inv : Pass → Prop} {fail : Fault → Pass → Prop}
    (ready : ReadyEdges base setting edges pass) (held : inv pass)
    (stable : ∀ g pass, inv pass → inv (Pass.graphFocus.set g pass))
    (renames : ∀ edge ∈ edges, pass.spans edge = true → ∀ start, inv start → Named base start →
      start.setting = setting → start.graph.WellFormed →
      Ensures (renameOperand? edge.data) start (fun data after =>
        Translated base start.frame (fun σ n => (edge.data.map σ.operand, n)) start data after ∧
          inv after) fail) :
    Ensures (copyEdges edges) pass (fun _ after => CarriedEdges base edges pass after ∧ inv after)
      fail := by
  induction edges generalizing pass with
  | nil =>
      refine Ensures.of_pure ⟨⟨ready.named, rfl, rfl, rfl, .refl pass, ready.wellFormed, ?_⟩, held⟩
      intro σ _
      simp
  | cons edge rest ih =>
      have others : ∀ other ∈ rest, other ∈ edge :: rest :=
        fun other member => List.mem_cons_of_mem _ member
      have skipped : pass.spans edge = false →
          Ensures (copyEdges rest) pass
            (fun _ after => CarriedEdges base (edge :: rest) pass after ∧ inv after) fail := by
        intro apart
        apply (ih ready.tail held fun other member => renames other (others other member)).mono
        · exact fun _ _ done => ⟨done.1.skip apart, done.2⟩
        · exact fun _ _ failed => failed
      unfold copyEdges
      apply Ensures.get_bind
      cases sourceEq : pass.blocks.target? edge.source with
      | none => exact skipped (by simp [Pass.spans, sourceEq])
      | some source =>
          cases destinationEq : pass.blocks.target? edge.destination with
          | none => exact skipped (by simp [Pass.spans, destinationEq])
          | some destination =>
              dsimp only
              have spans : pass.spans edge = true := by simp [Pass.spans, sourceEq, destinationEq]
              apply (renames edge List.mem_cons_self spans pass held ready.named ready.setting_eq
                ready.wellFormed).bind
              rintro data middle ⟨renamed, kept⟩
              have free := ready.lacks edge List.mem_cons_self source destination sourceEq
                destinationEq
              have sameBlocks : middle.blocks = pass.blocks :=
                congrArg Frame.blocks renamed.frame_eq
              have inserted : Graph.insertEdge ⟨source, destination, edge.kind, data⟩ middle.graph =
                  .ok true { pass.graph with
                    edges := pass.graph.edges ++ [⟨source, destination, edge.kind, data⟩] } := by
                rw [show middle.graph = pass.graph from congrArg Frame.graph renamed.frame_eq]
                exact Graph.insertEdge_eq_ok (ready.owns _ _ sourceEq)
                  (ready.owns _ _ destinationEq) free
              apply ensures_onGraph_bind inserted
              apply (ih (ready.add sourceEq destinationEq renamed) (stable _ _ kept) ?_).mono
              · exact fun _ _ done => ⟨done.1.cons sourceEq destinationEq renamed, done.2⟩
              · exact fun _ _ failed => failed
              · intro other member spanned
                apply renames other (others other member)
                rw [Pass.spans, blocks_setGraph, sameBlocks] at spanned
                exact spanned

end Edges

/-! ## Bodies -/

/-- The pass began with the host `base` and has carried over the live blocks of the body and the
edges between them. -/
structure CarriedBody (base : Host) (setting : Setting) (rule : Rule) (log : Bool) (body : Graph)
    (pass : Pass) : Prop where
  named : Named base.scope pass
  setting_eq : pass.setting = setting
  wellFormed : pass.graph.WellFormed
  blocks_oneToOne : pass.blocks.OneToOne
  carried : ∀ i id, body.liveIds[i]? = some id →
    pass.blocks.target? id = some (base.scope.graph.idAt i)
  others : ∀ id, id ∉ body.liveIds → pass.blocks.target? id = none
  labelled : ∀ block ∈ body.liveBlocks, ∃ label, pass.labels.target? block.label = some label
  image : ∀ σ, pass.Agrees σ →
    pass.graph =
    { base.scope.graph.registerAll (rule.blocks σ base.nextLiteral body.liveBlocks).1 with
      edges := base.scope.graph.edges ++ edgeImages σ body } ∧
    pass.host.nextLiteral = (rule.blocks σ base.nextLiteral body.liveBlocks).2 ∧
    pass.sites =
      if log && setting.logging then
        (rule.blocks σ base.nextLiteral body.liveBlocks).1.flatMap fun block =>
          yieldsIn block.id block.instrs
      else []

section Body

variable {base : Host} {setting : Setting} {rule : Rule} {log : Bool} {body : Graph}
  {pass after : Pass}

theorem Carrying.target?_liveIds (carrying : Carrying base setting rule log body.liveBlocks pass)
    {i : Nat} {id : BlockId} (at_i : body.liveIds[i]? = some id) :
    pass.blocks.target? id = some (base.scope.graph.idAt i) := by
  rw [Graph.liveIds, List.getElem?_map, Option.map_eq_some_iff] at at_i
  rcases at_i with ⟨block, blockAt, rfl⟩
  exact carrying.carried i block blockAt

/-- The edges that the pass spans are those between live blocks. -/
theorem Carrying.spans_eq (carrying : Carrying base setting rule log body.liveBlocks pass)
    (edge : Edge) :
    pass.spans edge = decide (edge.source ∈ body.liveIds ∧ edge.destination ∈ body.liveIds) := by
  have known : ∀ id, (pass.blocks.target? id).isSome = decide (id ∈ body.liveIds) := by
    intro id
    by_cases member : id ∈ body.liveIds
    · rcases List.mem_iff_getElem?.mp member with ⟨i, at_i⟩
      rw [carrying.target?_liveIds at_i]
      simp [member]
    · rw [carrying.others id member]
      simp [member]
  rw [Pass.spans, known, known, Bool.decide_and]

/-- No edge of the host joins two blocks that were just made. -/
theorem Carrying.lacks (carrying : Carrying base setting rule log body.liveBlocks pass)
    (wf : base.scope.graph.WellFormed) (edge : Edge) : pass.Lacks edge := by
  intro source destination sourceEq _
  rcases carrying.exists_idAt sourceEq with ⟨i, -, rfl⟩
  apply Bool.eq_false_iff.mpr
  intro held
  rw [Graph.hasLink_iff, (carrying.image _ pass.agrees_substitution).1, Graph.registerAll_edges]
    at held
  rcases List.mem_map.mp held with ⟨old, member, linkEq⟩
  have below := wf.index_lt (wf.linked old member).1
  rw [show old.source = base.scope.graph.idAt i from congrArg Link.source linkEq] at below
  exact Nat.not_lt_of_le (Nat.le_add_right _ i) below

/-- Blocks and edges together are the body. -/
theorem Carrying.wholeBody (carrying : Carrying base setting rule log body.liveBlocks pass)
    (edges : CarriedEdges base.scope body.edges pass after) :
    CarriedBody base setting rule log body after where
  named := edges.named
  setting_eq := edges.setting_eq.trans carrying.setting_eq
  wellFormed := edges.wellFormed
  blocks_oneToOne := by
    rw [edges.blocks_eq]
    exact carrying.blocks_oneToOne
  carried := by
    intro i id at_i
    rw [edges.blocks_eq]
    exact carrying.target?_liveIds at_i
  others := by
    rw [edges.blocks_eq]
    exact carrying.others
  labelled := by
    intro block member
    rcases carrying.labelled block member with ⟨label, known⟩
    exact ⟨label, edges.grows.label _ _ known⟩
  image := by
    intro σ agrees
    rcases edges.image σ agrees with ⟨graphEq, literalEq⟩
    rcases carrying.image σ (edges.grows.agrees agrees) with ⟨blocksEq, nextEq, sitesEq⟩
    refine ⟨?_, literalEq.trans nextEq, edges.sites_eq.trans sitesEq⟩
    have spans : pass.spans = fun edge =>
        decide (edge.source ∈ body.liveIds ∧ edge.destination ∈ body.liveIds) :=
      funext carrying.spans_eq
    rw [graphEq, blocksEq, Graph.registerAll_edges, spans]
    rfl

/-- Carrying the live blocks of a body over, and then its edges, carries the body over, and
keeps what both keep. -/
theorem ensures_carryBody {α : Type} {carry : Block → Step BlockId} {start : Host → Pass}
    {next : List BlockId → Step α} {post : α → Pass → Prop} {fail : Fault → Pass → Prop}
    (inv : Pass → Prop) (starts : Starts start setting) (wf : base.scope.graph.WellFormed)
    (bodyWf : body.WellFormed) (held : inv (start base))
    (stable : ∀ g pass, inv pass → inv (Pass.graphFocus.set g pass))
    (carries : ∀ source ∈ body.liveBlocks, ∀ pass, inv pass → Ready base.scope setting source pass →
      Ensures (carry source) pass (fun target after =>
        CarriedBlock base.scope rule log source pass target after ∧ inv after) fail)
    (renames : ∀ edge ∈ liveEdges body, ∀ pass, inv pass → Named base.scope pass →
      pass.setting = setting → pass.graph.WellFormed →
      Ensures (renameOperand? edge.data) pass (fun data after =>
        Translated base.scope pass.frame (fun σ n => (edge.data.map σ.operand, n)) pass data after ∧
          inv after) fail)
    (rest : ∀ after, CarriedBody base setting rule log body after → inv after →
      Ensures (next ((List.range body.liveBlocks.length).map base.scope.graph.idAt)) after
        post fail) :
    Ensures (do
      let targets ← carryBlocks carry body.liveBlocks
      copyEdges body.edges
      next targets) (start base) post fail := by
  have carrying : Carrying base setting rule log [] (start base) := carrying_start starts wf
  apply (ensures_carryBlocks carries carrying held bodyWf.liveIds_nodup
    (bodyWf.blockLabels_nodup.sublist (List.filter_sublist.map _))).bind
  rintro targets middle ⟨rfl, done, kept⟩
  have ready : ReadyEdges base.scope setting body.edges middle :=
    ⟨done.named, done.setting_eq, done.wellFormed, done.blocks_oneToOne, done.owns,
      bodyWf.links_nodup, fun edge _ => done.lacks wf edge⟩
  apply (ensures_copyEdges ready kept stable ?_).bind
  · rintro _ after ⟨edges, keptLast⟩
    rw [List.length_nil, ← List.range_eq_range']
    exact rest after (done.wholeBody edges) keptLast
  · intro edge member spans
    rw [done.spans_eq] at spans
    exact renames edge (List.mem_filter.mpr ⟨member, spans⟩)

/-- In a pass in which blocks carry over, so does the body. -/
theorem ensures_carryBody_of_carries {α : Type} {carry : Block → Step BlockId} {start : Host → Pass}
    {next : List BlockId → Step α} {post : α → Pass → Prop} {fail : Fault → Pass → Prop}
    (starts : Starts start setting) (carries : Carries base.scope setting carry rule log)
    (wf : base.scope.graph.WellFormed) (bodyWf : body.WellFormed)
    (rest : ∀ after, CarriedBody base setting rule log body after →
      Ensures (next ((List.range body.liveBlocks.length).map base.scope.graph.idAt)) after
        post fail)
    (aborted : ∀ fault after, Aborted setting fault after → fail fault after) :
    Ensures (do
      let targets ← carryBlocks carry body.liveBlocks
      copyEdges body.edges
      next targets) (start base) post fail := by
  apply ensures_carryBody (fun _ => True) starts wf bodyWf trivial (fun _ _ _ => trivial)
  · intro source member pass _ ready
    apply (carries source pass (bodyWf.mem_liveBlocks_iff.mp member).2 ready).mono
    · exact fun _ _ done => ⟨done, trivial⟩
    · exact aborted
  · intro edge _ pass _ named settingEq pwf
    apply ((translates_renameOperand? edge.data).ensures named settingEq pwf).mono
    · exact fun _ _ done => ⟨done, trivial⟩
    · exact aborted
  · exact fun after carried _ => rest after carried

/-- The images of the live blocks carry labels that were free in the host. -/
theorem CarriedBody.free (carried : CarriedBody base setting rule log body pass) {σ : Substitution}
    (agrees : pass.Agrees σ) {image : Block}
    (member : image ∈ (rule.blocks σ base.nextLiteral body.liveBlocks).1) :
    base.scope.graph.binds image.label = false := by
  have listed : image.label ∈ (rule.blocks σ base.nextLiteral body.liveBlocks).1.map (·.label) :=
    List.mem_map_of_mem member
  rw [Rule.map_label_blocks] at listed
  rcases List.mem_map.mp listed with ⟨block, blockMember, labelEq⟩
  rcases carried.labelled block blockMember with ⟨label, known⟩
  rw [← labelEq, agrees.label _ _ known]
  exact (carried.named.label_target _ _ known).2

/-- The images of the live blocks carry different labels. -/
theorem CarriedBody.distinct (carried : CarriedBody base setting rule log body pass)
    (bodyWf : body.WellFormed) {σ : Substitution} (agrees : pass.Agrees σ) :
    ((rule.blocks σ base.nextLiteral body.liveBlocks).1.map (·.label)).Nodup := by
  have labels : (body.liveBlocks.map (·.label)).Nodup :=
    bodyWf.blockLabels_nodup.sublist (List.filter_sublist.map _)
  rw [Rule.map_label_blocks, List.Nodup, List.pairwise_map]
  apply (List.pairwise_map.mp labels).imp_of_mem
  intro block other member otherMember different same
  rcases carried.labelled block member with ⟨label, known⟩
  rcases carried.labelled other otherMember with ⟨otherLabel, otherKnown⟩
  rw [agrees.label _ _ known, agrees.label _ _ otherKnown] at same
  subst same
  exact different (carried.named.labels_oneToOne.source_eq known otherKnown)

/-! ## Looking up blocks -/

/-- The blocks of the host are still there. -/
theorem CarriedBody.owned_of_owned (carried : CarriedBody base setting rule log body pass)
    {id : BlockId} {held : Block} (found : base.scope.graph.owned id = .ok held) :
    pass.graph.owned id = .ok held := by
  rw [(carried.image _ pass.agrees_substitution).1, Graph.owned_withEdges]
  exact Graph.owned_registerAll_of_owned found _

/-- Different live blocks have become different blocks. -/
theorem CarriedBody.block_inj (carried : CarriedBody base setting rule log body pass)
    {σ : Substitution} (agrees : pass.Agrees σ) {id other : BlockId} (live : id ∈ body.liveIds)
    (otherLive : other ∈ body.liveIds) (same : σ.block id = σ.block other) : id = other := by
  rcases List.mem_iff_getElem?.mp live with ⟨i, at_i⟩
  rcases List.mem_iff_getElem?.mp otherLive with ⟨j, at_j⟩
  have known := carried.carried i id at_i
  have otherKnown := carried.carried j other at_j
  rw [agrees.block _ _ known, agrees.block _ _ otherKnown] at same
  rw [← same] at otherKnown
  exact carried.blocks_oneToOne.source_eq known otherKnown

/-- A live block of the body has become the block with its image. -/
theorem CarriedBody.owned_idAt (carried : CarriedBody base setting rule log body pass)
    (wf : base.scope.graph.WellFormed) (bodyWf : body.WellFormed) {σ : Substitution}
    (agrees : pass.Agrees σ) {i : Nat} {image : Block}
    (at_i : (rule.blocks σ base.nextLiteral body.liveBlocks).1[i]? = some image) :
    pass.graph.owned (base.scope.graph.idAt i) =
      .ok { image with id := base.scope.graph.idAt i } := by
  rw [(carried.image σ agrees).1, Graph.owned_withEdges]
  exact wf.owned_registerAll (fun _ member => carried.free agrees member)
    (carried.distinct bodyWf agrees) at_i

theorem CarriedBody.owns_idAt (carried : CarriedBody base setting rule log body pass)
    (wf : base.scope.graph.WellFormed) (bodyWf : body.WellFormed) {i : Nat}
    (below : i < body.liveBlocks.length) : pass.graph.Owns (base.scope.graph.idAt i) := by
  have agrees := pass.agrees_substitution
  obtain ⟨literal, at_i⟩ :
      ∃ literal, (rule.blocks pass.substitution base.nextLiteral body.liveBlocks).1[i]? =
        some (rule.block pass.substitution literal body.liveBlocks[i]).1 :=
    Rule.exists_getElem?_blocks base.nextLiteral (List.getElem?_eq_getElem below)
  exact ⟨_, carried.owned_idAt wf bodyWf agrees at_i⟩

theorem CarriedBody.owns_of_target? (carried : CarriedBody base setting rule log body pass)
    (wf : base.scope.graph.WellFormed) (bodyWf : body.WellFormed) {id target : BlockId}
    (known : pass.blocks.target? id = some target) : pass.graph.Owns target := by
  by_cases member : id ∈ body.liveIds
  · rcases List.mem_iff_getElem?.mp member with ⟨i, at_i⟩
    rcases List.getElem?_eq_some_iff.mp at_i with ⟨below, -⟩
    rw [carried.carried i id at_i] at known
    obtain rfl := Option.some.inj known
    apply carried.owns_idAt wf bodyWf
    rwa [Graph.liveIds, List.length_map] at below
  · rw [carried.others id member] at known
    contradiction

/-- The edges of the host are followed by those of the body. -/
theorem CarriedBody.edges_eq (carried : CarriedBody base setting rule log body pass)
    {σ : Substitution} (agrees : pass.Agrees σ) :
    pass.graph.edges = base.scope.graph.edges ++ edgeImages σ body := by
  rw [(carried.image σ agrees).1]

/-- The image of an edge joins two new blocks. -/
theorem CarriedBody.exists_idAt_of_mem (carried : CarriedBody base setting rule log body pass)
    {σ : Substitution} (agrees : pass.Agrees σ) {edge : Edge} (member : edge ∈ edgeImages σ body) :
    (∃ i, i < body.liveIds.length ∧ edge.source = base.scope.graph.idAt i) ∧
      ∃ j, j < body.liveIds.length ∧ edge.destination = base.scope.graph.idAt j := by
  rcases List.mem_map.mp member with ⟨old, live, rfl⟩
  have ends := (List.mem_filter.mp live).2
  simp only [decide_eq_true_eq] at ends
  have known : ∀ id ∈ body.liveIds,
      ∃ i, i < body.liveIds.length ∧ σ.block id = base.scope.graph.idAt i := by
    intro id liveId
    rcases List.mem_iff_getElem?.mp liveId with ⟨i, at_i⟩
    rcases List.getElem?_eq_some_iff.mp at_i with ⟨here, -⟩
    exact ⟨i, here, agrees.block _ _ (carried.carried i id at_i)⟩
  exact ⟨known _ ends.1, known _ ends.2⟩

/-- An edge joins two blocks of the host or two new ones. -/
theorem CarriedBody.owns_source_iff (carried : CarriedBody base setting rule log body pass)
    (wf : base.scope.graph.WellFormed) {edge : Edge} (member : edge ∈ pass.graph.edges) :
    base.scope.graph.Owns edge.source ↔ base.scope.graph.Owns edge.destination := by
  rw [carried.edges_eq pass.agrees_substitution] at member
  rcases List.mem_append.mp member with old | new
  · have owns := wf.linked edge old
    exact ⟨fun _ => owns.2, fun _ => owns.1⟩
  · obtain ⟨⟨i, -, sourceEq⟩, j, -, destinationEq⟩ :=
      carried.exists_idAt_of_mem pass.agrees_substitution new
    rw [sourceEq, destinationEq]
    exact iff_of_false (wf.not_owns_idAt i) (wf.not_owns_idAt j)

/-- No edge leads yet from a block of the host to a new one, or back. -/
theorem CarriedBody.hasLink_eq_false (carried : CarriedBody base setting rule log body pass)
    (wf : base.scope.graph.WellFormed) {link : Link}
    (apart : ¬ (base.scope.graph.Owns link.source ↔ base.scope.graph.Owns link.destination)) :
    pass.graph.hasLink link = false := by
  apply Bool.eq_false_iff.mpr
  intro known
  rcases List.mem_map.mp (Graph.hasLink_iff.mp known) with ⟨edge, member, rfl⟩
  exact apart (carried.owns_source_iff wf member)

/-! ## The ends of a body -/

/-- A boundary block of the body is found unless it is dead. -/
theorem ensures_carried_bind {α : Type} {id : BlockId} {next : BlockId → Step α}
    {post : α → Pass → Prop} {fail : Fault → Pass → Prop}
    (carriedBody : CarriedBody base setting rule log body pass)
    (found : ∀ i, body.liveIds[i]? = some id →
      Ensures (next (base.scope.graph.idAt i)) pass post fail)
    (dead : id ∉ body.liveIds → fail (.invalidTransform (.deadBoundary id)) pass) :
    Ensures (carried id >>= next) pass post fail := by
  by_cases member : id ∈ body.liveIds
  · rcases List.mem_iff_getElem?.mp member with ⟨i, at_i⟩
    have known := carriedBody.carried i id at_i
    have step : carried id pass = .ok (base.scope.graph.idAt i) pass := by
      simp [carried, known]
    unfold Ensures
    rw [bind_apply, step]
    exact found i at_i
  · have unknown := carriedBody.others id member
    have step : carried id pass = .error (.invalidTransform (.deadBoundary id)) pass := by
      simp [carried, unknown]
    unfold Ensures
    rw [bind_apply, step]
    exact dead member

end Body

end FlowIR.Inlining
