import FlowIR.Inlining.Splice
import FlowIR.Proofs.Graph.Rewire
import FlowIR.Proofs.Scope

/-!
# Opening a host at a site and closing it again

Opening a block at a site leaves the instructions before the site in the block and puts those after
it into a new block, which takes over the edges and the role of exit.  Linking then closes the gap
through the body that was laid in between.  Both are said as one graph each.
-/

namespace FlowIR

/-! ## Cutting -/

/-- Cutting in front of an instruction cuts in front of its first occurrence. -/
theorem cut_of_first {point : Instr} {pre : List Instr} (first : point ∉ pre) (post : List Instr) :
    cut point .opensTail (pre ++ point :: post) = some (pre, point :: post) :=
  cut_eq_halves first post .opensTail

/-- An instruction that occurs can be cut in front of. -/
theorem exists_cut_eq {point : Instr} {instrs : List Instr} (occurs : point ∈ instrs) :
    ∃ pre post, cut point .opensTail instrs = some (pre, point :: post) ∧
      instrs = pre ++ point :: post ∧ point ∉ pre := by
  rcases List.eq_append_cons_of_mem occurs with ⟨pre, post, rfl, first⟩
  exact ⟨pre, post, cut_of_first first post, rfl, first⟩

namespace Graph

variable {g : Graph}

/-! ## Opening -/

/-- The graph in which a block keeps `pre`, and a new block under `label` holds `post` and has taken
over the edges that left the block and its role of exit. -/
def opened (g : Graph) (block : BlockId) (label : Label) (pre post : List Instr) : Graph :=
  { (g.adjust block (·.withInstrs pre)).register
      { id := g.freshId, label := label, instrs := post } with
    edges := g.edges.filter (·.source ≠ block) ++ (g.outgoing block).map (·.leaving g.freshId)
    exit := if g.exit = some block then some g.freshId else g.exit }

/-! ## Closing -/

/-- The graph in which the site's block jumps to the entry of a body and the body's exit jumps to
the continuation, with an edge for each jump. -/
def linked (g : Graph) (site entry exit continuation : BlockId)
    (entryLabel continuationLabel : Label) : Graph :=
  { (g.adjust site (·.append (.jump entryLabel))).adjust exit
      (·.append (.jump continuationLabel)) with
    edges := g.edges ++ [⟨site, entry, .regular, none⟩, ⟨exit, continuation, .regular, none⟩] }

/-! ## Looking up blocks -/

section Lookup

variable (label continuationLabel : Label) (pre post : List Instr)

/-- Only the new block and the block that was opened differ from before. -/
theorem WellFormed.owned_opened (wf : g.WellFormed) {block : BlockId} (owns : g.Owns block)
    (id : BlockId) :
    (g.opened block label pre post).owned id =
      if id = g.freshId then .ok { id := g.freshId, label := label, instrs := post }
      else if id = block then (g.owned id).map (·.withInstrs pre)
      else g.owned id := by
  have shrunkWf : (g.adjust block (·.withInstrs pre)).WellFormed :=
    wf.adjust (fun held _ => keepsName_withInstrs pre held) owns
  rw [← owned_adjust_of_owns owns]
  exact shrunkWf.owned_register _ id

theorem binds_opened (block : BlockId) (other : Label) :
    (g.opened block label pre post).binds other = true ↔ g.binds other = true ∨ label = other :=
  binds_register (g := g.adjust block (·.withInstrs pre)) _ other

/-- Only the two blocks that jump differ from before. -/
theorem owned_linked {site exit : BlockId} (siteOwned : g.Owns site) (exitOwned : g.Owns exit)
    (entry continuation id : BlockId) :
    (g.linked site entry exit continuation label continuationLabel).owned id =
      (g.owned id).map fun held => held.withInstrs (held.instrs ++
        ((if id = site then [.jump label] else []) ++
          if id = exit then [.jump continuationLabel] else [])) := by
  have exitThere : (g.adjust site (·.append (.jump label))).Owns exit :=
    (owns_adjust _ _ _).mpr exitOwned
  have adjusted : (g.linked site entry exit continuation label continuationLabel).owned id =
      ((g.adjust site (·.append (.jump label))).adjust exit
        (·.append (.jump continuationLabel))).owned id := rfl
  rw [adjusted, owned_adjust_of_owns exitThere, owned_adjust_of_owns siteOwned]
  by_cases atSite : id = site
  · by_cases atExit : id = exit
    · simp only [if_pos atSite, if_pos atExit]
      cases g.owned id <;> simp [Except.map, Block.append, Block.withInstrs]
    · simp only [if_pos atSite, if_neg atExit]
      rfl
  · by_cases atExit : id = exit
    · simp only [if_neg atSite, if_pos atExit]
      rfl
    · simp only [if_neg atSite, if_neg atExit, List.append_nil]
      cases g.owned id <;> rfl

end Lookup

end Graph

/-- The host opened at a site, under its next fresh label. -/
def Host.opened (host : Host) (block : BlockId) (pre post : List Instr) : Host :=
  { host with
    scope := { host.scope with
      graph := host.scope.graph.opened block (.numbered host.scope.labelNumber) pre post
      nextLabel := host.scope.labelNumber + 1 } }

namespace Inlining

open FlowIR.Graph

variable {g : Graph}

/-- Opening a block keeps what the edits keep that it consists of. -/
theorem openAt_preserves {inv : Graph → Prop} (lasting : Lasting inv) (block : BlockId)
    (site : Instr) (label : Label) : Preserves inv (openAt block site label) := by
  apply (lasting.split block site label .opensTail).bind
  intro continuation
  apply (lasting.editBlock continuation (keepsName_erase site)).bind
  intro _
  apply (lasting.retarget block continuation).bind
  intro _
  apply Preserves.of_get.bind
  intro after
  dsimp only
  split
  · exact (lasting.setExit continuation).bind fun _ => .of_pure _
  · exact .of_pure _

/-- The role of exit goes from a block that has it to another block of the graph. -/
theorem handOver_eq_ok {block continuation : BlockId} (owns : g.Owns continuation) :
    (do
      if (← get).exit = some block then
        Graph.setExit continuation
      return continuation : Edit BlockId) g =
        .ok continuation
          { g with exit := if g.exit = some block then some continuation else g.exit } := by
  rcases owns with ⟨held, found⟩
  rw [bind_of_ok (get_apply g)]
  by_cases role : g.exit = some block
  · have handed : Graph.setExit continuation g = .ok () { g with exit := some continuation } := by
      rw [setExit_apply, found]
    rw [if_pos role, if_pos role, bind_of_ok handed]
    rfl
  · rw [if_neg role, if_neg role]
    rfl

/-- Opening a block at the first occurrence of a site. -/
theorem openAt_eq_ok (wf : g.WellFormed) {block : BlockId} {held : Block} {site : Instr}
    {label : Label} {pre post : List Instr} (found : g.owned block = .ok held)
    (cutEq : cut site .opensTail held.instrs = some (pre, site :: post))
    (free : g.binds label = false) :
    openAt block site label g = .ok g.freshId (g.opened block label pre post) := by
  have owns : g.Owns block := .of_owned found
  let shrunk : Graph := g.adjust block (·.withInstrs pre)
  have shrunkWf : shrunk.WellFormed := wf.adjust (fun held _ => keepsName_withInstrs pre held) owns
  have halves : held.splitOff site .opensTail = (held.withInstrs pre, some (site :: post)) := by
    simp [Block.splitOff, cutEq]
  have divided : Graph.split block site label .opensTail g =
      .ok g.freshId
        (shrunk.register { id := g.freshId, label := label, instrs := site :: post }) := by
    have sameHead : (g.adjust block fun _ => held.withInstrs pre) = shrunk :=
      wf.adjust_congr found rfl
    rw [wf.split_eq_ok found free, halves, sameHead]
    rfl
  have dropped : editBlock g.freshId (·.erase site)
      (shrunk.register { id := g.freshId, label := label, instrs := site :: post }) =
        .ok () (shrunk.register { id := g.freshId, label := label, instrs := post }) := by
    have erased : (site :: post).erase site = post := List.erase_cons_head site post
    exact shrunkWf.editBlock_register (by simp only [Block.erase, erased]) rfl
  have moved : Graph.retarget block g.freshId
      (shrunk.register { id := g.freshId, label := label, instrs := post }) =
        .ok (g.outgoing block).length
          { shrunk.register { id := g.freshId, label := label, instrs := post } with
            edges := g.edges.filter (·.source ≠ block) ++
              (g.outgoing block).map (·.leaving g.freshId) } := by
    have grownWf :
        (shrunk.register { id := g.freshId, label := label, instrs := post }).WellFormed :=
      shrunkWf.register free
    apply grownWf.retarget_eq_ok
    · exact Owns.register _ ((owns_adjust _ _ _).mpr owns)
    · exact ⟨_, shrunkWf.owned_register_freshId _⟩
    · intro edge member
      exact wf.ne_freshId (wf.linked edge member).1
  unfold openAt
  rw [bind_of_ok divided, bind_of_ok dropped, bind_of_ok moved]
  apply handOver_eq_ok
  exact ⟨_, shrunkWf.owned_register_freshId _⟩

theorem opened_wellFormed (wf : g.WellFormed) {block : BlockId} {held : Block} {site : Instr}
    {label : Label} {pre post : List Instr} (found : g.owned block = .ok held)
    (cutEq : cut site .opensTail held.instrs = some (pre, site :: post))
    (free : g.binds label = false) : (g.opened block label pre post).WellFormed :=
  (openAt_preserves wellFormed_lasting block site label g wf).of_ok
    (openAt_eq_ok wf found cutEq free)

/-- Opening a host succeeds when the block is there and holds the site, and otherwise
leaves the host as it was. -/
theorem ensures_splitAtSite {host : Host} (wf : host.scope.graph.WellFormed) (block : BlockId)
    (site : Instr) :
    Ensures (splitAtSite block site) host
      (fun continuation after => continuation = host.scope.graph.freshId ∧
        ∃ held pre post, host.scope.graph.owned block = .ok held ∧
          cut site .opensTail held.instrs = some (pre, site :: post) ∧
          held.instrs = pre ++ site :: post ∧ site ∉ pre ∧ after = host.opened block pre post)
      (fun fault after => after = host ∧
        (host.scope.graph.owned block = .error fault ∨
          ∃ held, host.scope.graph.owned block = .ok held ∧ site ∉ held.instrs ∧
            fault = .instructionNotFound block)) := by
  unfold splitAtSite
  apply Ensures.get_bind
  cases found : host.scope.graph.owned block with
  | error fault => exact Ensures.throw_bind ⟨rfl, .inl rfl⟩
  | ok held =>
      by_cases occurs : site ∈ held.instrs
      · rcases exists_cut_eq occurs with ⟨pre, post, cutEq, instrsEq, first⟩
        have opening : openAt block site (.numbered host.scope.labelNumber) host.scope.graph =
            .ok host.scope.graph.freshId
              (host.scope.graph.opened block (.numbered host.scope.labelNumber) pre post) :=
          openAt_eq_ok wf found cutEq host.scope.binds_labelNumber
        have edited : editHost (openAt block site (.numbered host.scope.labelNumber))
            { host with scope := { host.scope with nextLabel := host.scope.labelNumber + 1 } } =
              .ok host.scope.graph.freshId (host.opened block pre post) :=
          Focus.run_eq_ok Host.graphFocus opening
        have holds : held.holds site = true := (Block.holds_iff held site).mpr occurs
        apply Ensures.of_ok_bind (ofExcept_ok held host)
        dsimp only
        rw [holds, Scope.freshLabel_eq]
        apply Ensures.set_bind
        unfold Ensures
        rw [edited]
        exact ⟨rfl, held, pre, post, rfl, cutEq, instrsEq, first, rfl⟩
      · have lacks : held.holds site = false :=
          Bool.eq_false_iff.mpr fun holds => occurs ((Block.holds_iff held site).mp holds)
        apply Ensures.of_ok_bind (ofExcept_ok held host)
        dsimp only
        rw [lacks]
        exact Ensures.throw_bind ⟨rfl, .inr ⟨held, rfl, occurs, rfl⟩⟩

/-! ## Linking -/

/-- Linking keeps what the edits keep that it consists of. -/
theorem link_preserves {inv : Graph → Prop} (lasting : Lasting inv)
    (site entry exit continuation : BlockId) :
    Preserves inv (link site entry exit continuation) := by
  apply (require_preserves entry).bind
  intro entryBlock
  apply (lasting.editBlock site (keepsName_append _)).bind
  intro _
  apply (lasting.insertEdge _).bind
  intro _
  apply (require_preserves continuation).bind
  intro continuationBlock
  apply (lasting.editBlock exit (keepsName_append _)).bind
  intro _
  exact (lasting.insertEdge _).bind fun _ => .of_pure _

/-- An instruction added to one block leaves the label of every block alone. -/
theorem exists_owned_append {id : BlockId} {held : Block} (found : g.owned id = .ok held)
    (other : BlockId) (instr : Instr) :
    ∃ after, (g.adjust other (·.append instr)).owned id = .ok after ∧ after.label = held.label := by
  rw [owned_adjust, found]
  split
  · exact ⟨held.append instr, rfl, rfl⟩
  · exact ⟨held, rfl, rfl⟩

/-- Linking adds both jumps and both edges when the edges are not there yet. -/
theorem link_eq_ok {site entry exit continuation : BlockId} {entryBlock continuationBlock : Block}
    (siteOwned : g.Owns site) (entryFound : g.owned entry = .ok entryBlock)
    (exitOwned : g.Owns exit) (continuationFound : g.owned continuation = .ok continuationBlock)
    (enters : g.hasLink ⟨site, entry, .regular⟩ = false)
    (leaves : g.hasLink ⟨exit, continuation, .regular⟩ = false) (apart : site ≠ exit) :
    link site entry exit continuation g =
      .ok () (g.linked site entry exit continuation entryBlock.label continuationBlock.label) := by
  let jumping : Graph := g.adjust site (·.append (.jump entryBlock.label))
  let entered : Graph := { jumping with edges := g.edges ++ [⟨site, entry, .regular, none⟩] }
  let returning : Graph := entered.adjust exit (·.append (.jump continuationBlock.label))
  rcases siteOwned with ⟨siteBlock, siteFound⟩
  rcases exitOwned with ⟨exitBlock, exitFound⟩
  have required : Graph.require entry g = .ok entryBlock g := by
    rw [require_apply, entryFound]
  have jumped : Graph.editBlock site (·.append (.jump entryBlock.label)) g = .ok () jumping := by
    rw [editBlock_apply, siteFound]
  have entering : Graph.insertEdge ⟨site, entry, .regular, none⟩ jumping = .ok true entered := by
    apply insertEdge_eq_ok
    · exact (owns_adjust _ _ _).mpr (.of_owned siteFound)
    · exact (owns_adjust _ _ _).mpr (.of_owned entryFound)
    · exact enters
  obtain ⟨there, thereFound, thereLabel⟩ :=
    exists_owned_append continuationFound site (.jump entryBlock.label)
  have continued : Graph.require continuation entered = .ok there entered := by
    rw [require_apply, show entered.owned continuation = .ok there from thereFound]
  obtain ⟨exitThere, exitThereFound, -⟩ :=
    exists_owned_append exitFound site (.jump entryBlock.label)
  have returned : Graph.editBlock exit (·.append (.jump there.label)) entered =
      .ok () returning := by
    rw [editBlock_apply, show entered.owned exit = .ok exitThere from exitThereFound, thereLabel]
  have leaving : Graph.insertEdge ⟨exit, continuation, .regular, none⟩ returning = .ok true
      { returning with edges := entered.edges ++ [⟨exit, continuation, .regular, none⟩] } := by
    apply insertEdge_eq_ok
    · exact (owns_adjust _ _ _).mpr (.of_owned (g := entered) exitThereFound)
    · exact (owns_adjust _ _ _).mpr (.of_owned (g := entered) thereFound)
    · apply Bool.eq_false_iff.mpr
      intro known
      rw [hasLink_iff, show returning.edges = g.edges ++ [⟨site, entry, .regular, none⟩] from rfl,
        List.map_append, List.mem_append] at known
      rcases known with old | new
      · exact Bool.eq_false_iff.mp leaves (hasLink_iff.mpr old)
      · exact apart (congrArg Link.source (List.mem_singleton.mp new)).symm
  unfold link
  rw [bind_of_ok required, bind_of_ok jumped, bind_of_ok entering, bind_of_ok continued,
    bind_of_ok returned, bind_of_ok leaving]
  simp [linked, returning, entered, jumping, adjust]

end Inlining

end FlowIR
