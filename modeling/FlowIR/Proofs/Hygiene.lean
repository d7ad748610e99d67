import FlowIR.Proofs.Inlining.Hygiene
import FlowIR.Proofs.Session

/-!
# Hygiene over runs

A caller is careful with a scope if all temporaries in what it puts into the scope's graph have been
handed out by the scope.  After every careful run the scope is hygienic, whichever actions failed,
so that what the next pass introduces is new to it.  Yesterday's inlined body is part of today's
host: the temporaries of one pass lie below the counter from which the next pass takes its own.
-/

namespace FlowIR

/-! ## What edits bring along -/

/-- All that an edit of a block brings into the block. -/
def BlockEdit.mentions : BlockEdit → List Operand
  | append instr => instr.mentions
  | insertFirst instr => instr.mentions
  | erase _ => []
  | mark _ => []
  | splitOff _ _ => []
  | swallow food => food.mentions

/-- All that an edit of a graph brings into the graph. -/
def GraphEdit.mentions : GraphEdit → List Operand
  | adoptBlock block => block.mentions
  | insertEdge edge => edge.data.toList
  | editBlock _ edit => edit.mentions
  | _ => []

section Edits

open FlowIR.Graph

variable {ok : Operand → Prop}

theorem BlockEdit.within {edit : BlockEdit} (allowed : ∀ operand ∈ edit.mentions, ok operand)
    {block : Block} (within : block.Within ok) : (edit.run block).Within ok := by
  cases edit with
  | append instr => exact within.append allowed
  | insertFirst instr => exact within.insertFirst allowed
  | erase instr => exact within.erase instr
  | mark live => exact within
  | splitOff point placement => exact (within.splitOff point placement).1
  | swallow food => exact within.swallow (Block.within_iff.mpr allowed)

/-- An edit adds nothing to what a graph refers to but what it brings along. -/
theorem GraphEdit.within {edit : GraphEdit} (allowed : ∀ operand ∈ edit.mentions, ok operand) :
    Preserves (Graph.Within ok) edit.run := by
  cases edit with
  | createBlock label =>
      exact (createBlock_each (fun _ => Block.within_of_empty) label).bind fun _ => .of_pure _
  | adoptBlock block =>
      exact (adoptBlock_each fun _ => Block.within_iff.mpr allowed).bind fun _ => .of_pure _
  | removeBlock id =>
      have removes : Preserves (Graph.Within ok) (Graph.removeBlock id) := fun g within =>
        (removeBlock_each id g within).mono (fun _ _ done => done.2) (fun _ _ failed => failed)
      exact removes.bind fun _ => .of_pure _
  | setEntry id => exact setEntry_each id
  | setExit id => exact setExit_each id
  | insertEdge edge =>
      have attached : ∀ operand, edge.data = some operand → ok operand :=
        fun operand here => allowed operand (Option.mem_toList.mpr here)
      exact (insertEdge_each attached).bind fun _ => .of_pure _
  | removeEdge link => exact (removeEdge_each link).bind fun _ => .of_pure _
  | removeEdgesBetween source destination =>
      exact (removeEdgesBetween_each source destination).bind fun _ => .of_pure _
  | retarget source target => exact (retarget_each source target).bind fun _ => .of_pure _
  | split id point label placement =>
      exact (split_within id point label placement).bind fun _ => .of_pure _
  | merge into donor => exact merge_within into donor
  | editBlock id edit => exact editBlock_each id fun _ within => edit.within allowed within
  | prune => exact (pruned_each fun _ within => within).bind fun _ => .of_pure _

end Edits

/-- Handing out keeps a scope hygienic. -/
theorem Scope.Hygienic.allocate {scope : Scope} (hygienic : scope.Hygienic)
    (allocation : Allocation) :
    (allocation.run scope).Hygienic := by
  intro n mentioned
  rw [allocation.run_graph] at mentioned
  have below : n < scope.nextTemp := hygienic n mentioned
  cases allocation with
  | addressLocal name depth =>
      have sameTemp : ((Allocation.addressLocal name depth).run scope).nextTemp = scope.nextTemp :=
        scope.addressLocal_nextTemp name depth
      rw [sameTemp]
      exact below
  | freshTemp => exact Nat.lt_succ_of_lt below
  | freshLabel => exact below

namespace Session

/-! ## Careful runs -/

/-- The scope that is held under a name. -/
def scope? (session : Session) (name : Nat) : Option Scope :=
  match session.held name with
  | some (.scope scope) => some scope
  | _ => none

theorem scope?_eq_some_iff {session : Session} {name : Nat} {scope : Scope} :
    session.scope? name = some scope ↔ session.held name = some (.scope scope) := by
  unfold scope?
  split <;> simp_all

/-- All temporaries that the action puts into the graph of the scope under the name have been
handed out by that scope. -/
def Careful (name : Nat) (session : Session) : Action → Prop
  | .edit other edit => other = name →
      ∀ scope ∈ session.scope? name, ∀ operand ∈ edit.mentions, scope.HandedOut operand
  | _ => True

instance (name : Nat) (session : Session) : DecidablePred (Careful name session)
  | .edit other edit => inferInstanceAs (Decidable (other = name →
      ∀ scope ∈ session.scope? name, ∀ operand ∈ edit.mentions, scope.HandedOut operand))
  | .newGraph _ | .newScope .. | .intoGraph _ | .drop _ | .allocate .. | .newLiteral _
  | .inlineMethod .. | .cloneClosure .. | .inlineClosure .. => isTrue trivial

/-- Every action of a run is careful where it is taken. -/
def CarefulRun (name : Nat) : Session → List Action → Prop
  | _, [] => True
  | session, action :: rest =>
      Careful name session action ∧ CarefulRun name (session.step action) rest

instance decidableCarefulRun (name : Nat) :
    (session : Session) → (actions : List Action) → Decidable (CarefulRun name session actions)
  | _, [] => isTrue trivial
  | session, action :: rest =>
      have := decidableCarefulRun name (session.step action) rest
      inferInstanceAs (Decidable (Careful name session action ∧ CarefulRun name _ rest))

/-- The scope under the name, if there is one, is hygienic. -/
def HygienicAt (name : Nat) (session : Session) : Prop :=
  ∀ scope, session.scope? name = some scope → scope.Hygienic

variable {session : Session} {name : Nat}

theorem HygienicAt.put (hygienic : session.HygienicAt name) (other : Nat) {holding : Option Holding}
    (new : other = name → ∀ scope, holding = some (.scope scope) → scope.Hygienic) :
    (session.put other holding).HygienicAt name := by
  intro scope held
  rw [scope?_eq_some_iff] at held
  simp only [Session.put] at held
  split at held
  next same => exact new same.symm scope held
  next => exact hygienic scope (scope?_eq_some_iff.mpr held)

theorem HygienicAt.letGo (hygienic : session.HygienicAt name) (used : Option Nat) :
    (session.letGo used).HygienicAt name := by
  cases used with
  | none => exact hygienic
  | some other => exact hygienic.put other fun _ _ => nofun

/-- A careful action keeps the scope hygienic, also when it fails. -/
theorem HygienicAt.of_effect (hygienic : session.HygienicAt name) (wf : session.WellFormed)
    {action : Action} {after : Session} (effect : session.Effect action after)
    (careful : Careful name session action) : after.HygienicAt name := by
  cases effect with
  | idle => exact hygienic
  | begun begins =>
      apply hygienic.put
      rintro - _ ⟨⟩ n mentioned
      cases begins
      contradiction
  | released held => exact hygienic.put _ fun _ _ => nofun
  | dropped other => exact hygienic.put other fun _ _ => nofun
  | @edited other holding edit held =>
      apply hygienic.put other
      rintro rfl scope same
      cases holding with
      | graph g => exact nomatch Option.some.inj same
      | scope before =>
          have known : session.scope? other = some before := scope?_eq_some_iff.mpr held
          obtain rfl := Holding.scope.inj (Option.some.inj same)
          have within := Scope.hygienic_iff.mp (hygienic before known)
          have edited := (edit.within (careful rfl before known) before.graph within).left
          exact Scope.hygienic_iff.mpr edited
  | @allocated other scope allocation held =>
      apply hygienic.put other
      rintro rfl _ ⟨⟩
      exact (hygienic scope (scope?_eq_some_iff.mpr held)).allocate allocation
  | built => exact hygienic
  | @transformed _ host _ policy t scope body _ hostHeld bodyHeld bodyEq =>
      apply HygienicAt.letGo
      apply hygienic.put host
      rintro rfl _ ⟨⟩
      have hostWf : scope.graph.WellFormed := wf host (.scope scope) hostHeld
      have bodyWf : t.body.WellFormed := bodyEq ▸ wf _ body bodyHeld
      exact t.hygienic_leaves hostWf bodyWf (hygienic scope (scope?_eq_some_iff.mpr hostHeld))

theorem HygienicAt.step (hygienic : session.HygienicAt name) (wf : session.WellFormed)
    {action : Action} (careful : Careful name session action) :
    (session.step action).HygienicAt name :=
  hygienic.of_effect wf (session.effect_step action) careful

/-- A careful run from a well-formed session keeps the scope hygienic and all graphs well formed. -/
theorem HygienicAt.run (hygienic : session.HygienicAt name) (wf : session.WellFormed)
    {actions : List Action} (careful : CarefulRun name session actions) :
    (actions.foldl Session.step session).HygienicAt name ∧
      (actions.foldl Session.step session).WellFormed := by
  induction actions generalizing session with
  | nil => exact ⟨hygienic, wf⟩
  | cons action rest ih => exact ih (hygienic.step wf careful.1) (wf.step action) careful.2

/-- The scope under a name is hygienic after every run that is careful with it, whichever actions
have failed.  Whatever transformation comes next, the names that its pass introduces are new to the
scope, all that it adds is made of these names and of what is passed at the site, and the scope is
left hygienic, whether the pass ends or fails. -/
theorem hygiene_of_carefulRun {name : Nat} {actions : List Action}
    (careful : CarefulRun name {} actions) {scope : Scope}
    (held : (run actions).scope? name = some scope) :
    scope.Hygienic ∧
      ∀ (policy : Policy) (nextLiteral : Nat) (t : Inlining.Transformation), t.body.WellFormed →
        (∀ pass, t.Enters policy ⟨scope, nextLiteral⟩ pass → t.Fresh ⟨scope, nextLiteral⟩ pass) ∧
        t.Settles policy ⟨scope, nextLiteral⟩ (t.leaves policy ⟨scope, nextLiteral⟩) ∧
        (t.leaves policy ⟨scope, nextLiteral⟩).scope.Hygienic := by
  have start : HygienicAt name {} := nofun
  rcases start.run nofun careful with ⟨hygienic, wf⟩
  have scopeHygienic : scope.Hygienic := hygienic scope held
  have scopeWf : scope.graph.WellFormed := wf name (.scope scope) (scope?_eq_some_iff.mp held)
  refine ⟨scopeHygienic, fun policy nextLiteral t bodyWf => ⟨?_, ?_, ?_⟩⟩
  · exact fun pass enters => enters.fresh scopeWf bodyWf scopeHygienic
  · exact t.settles scopeWf bodyWf
  · exact t.hygienic_leaves scopeWf bodyWf scopeHygienic

/-- A scope asks for a temporary, calls a method on it twice, and has the first call inlined. -/
def sampleActions : List Action :=
  [.newScope 0 "caller" .method, .allocate 0 .freshTemp, .edit 0 (.createBlock ⟨"start"⟩),
   .edit 0 (.editBlock ⟨1, 0⟩ (.append Inlining.sampleCall)),
   .edit 0 (.editBlock ⟨1, 0⟩ (.append Inlining.sampleCall)),
   .newGraph 1,
   .edit 1 (.adoptBlock
     { id := ⟨2, 0⟩, label := ⟨"start"⟩
       instrs := [.receiveSelf (.temporary 0), .methodReturn (.var (.temporary 0))] }),
   .edit 1 (.setEntry ⟨2, 0⟩), .edit 1 (.setExit ⟨2, 0⟩),
   .inlineMethod Inlining.samplePolicy 0 1 ⟨1, 0⟩ Inlining.sampleCall]

/-- The method of the second call is not the one that the first call was replaced by. -/
def sampleTransformation : Inlining.Transformation :=
  .inlineMethod Inlining.sampleMethod ⟨1, 1⟩ Inlining.sampleCall

theorem hygiene_of_carefulRun_sample :
    CarefulRun 0 {} sampleActions ∧ ∃ scope, (run sampleActions).scope? 0 = some scope ∧
      scope.Hygienic ∧ sampleTransformation.body.WellFormed ∧
      ∃ pass, sampleTransformation.Enters Inlining.samplePolicy ⟨scope, 0⟩ pass ∧
        sampleTransformation.Fresh ⟨scope, 0⟩ pass := by
  have careful : CarefulRun 0 {} sampleActions := by decide +kernel
  have bodyWf : sampleTransformation.body.WellFormed := by decide +kernel
  obtain ⟨scope, held⟩ := Option.isSome_iff_exists.mp
    (by decide +kernel : ((run sampleActions).scope? 0).isSome = true)
  have changed : ((run sampleActions).scope? 0).all (fun scope =>
      sampleTransformation.leaves Inlining.samplePolicy ⟨scope, 0⟩ ≠ ⟨scope, 0⟩) = true := by
    decide +kernel
  rw [held] at changed
  rcases hygiene_of_carefulRun careful held with ⟨hygienic, next⟩
  rcases next Inlining.samplePolicy 0 sampleTransformation bodyWf with ⟨fresh, settles, -⟩
  rcases settles with alone | ⟨pass, enters, -⟩
  · exact absurd alone (of_decide_eq_true changed)
  · exact ⟨careful, scope, held, hygienic, bodyWf, pass, enters, fresh pass enters⟩

end Session

end FlowIR
