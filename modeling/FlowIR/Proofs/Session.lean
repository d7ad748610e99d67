import FlowIR.Proofs.Inlining.Transformations
import FlowIR.Proofs.Inlining.Lasting

/-!
# Sessions

A session holds any number of graphs and scopes under names.  Its actions are everything that
changes a graph: the edits of a graph, the edits of a block that a graph hands out, what a scope
hands out, and the three transformations, which work on two holdings at once.  An action that fails
keeps what it had done before it failed.

Every action keeps all graphs well formed, so all graphs are well formed after every run.
-/

namespace FlowIR

/-! ## Edits by name -/

/-- What may be done to a block that a graph hands out. -/
inductive BlockEdit where
  | append (instr : Instr)
  | insertFirst (instr : Instr)
  | erase (instr : Instr)
  | mark (live : Bool)
  | splitOff (point : Instr) (placement : Placement)
  | swallow (food : Block)

/-- The block after the edit. -/
def BlockEdit.run : BlockEdit → Block → Block
  | append instr, block => block.append instr
  | insertFirst instr, block => block.insertFirst instr
  | erase instr, block => block.erase instr
  | mark live, block => block.mark live
  | splitOff point placement, block => (block.splitOff point placement).1
  | swallow food, block => block.swallow food

/-- What may be done to a graph. -/
inductive GraphEdit where
  | createBlock (label : Label)
  | adoptBlock (block : Block)
  | removeBlock (id : BlockId)
  | setEntry (id : BlockId)
  | setExit (id : BlockId)
  | insertEdge (edge : Edge)
  | removeEdge (link : Link)
  | removeEdgesBetween (source destination : BlockId)
  | retarget (source target : BlockId)
  | split (id : BlockId) (point : Instr) (label : Label) (placement : Placement)
  | merge (into donor : BlockId)
  | editBlock (id : BlockId) (edit : BlockEdit)
  | prune

/-- The edit, without its result. -/
def GraphEdit.run : GraphEdit → Graph.Edit Unit
  | createBlock label => do let _ ← Graph.createBlock label
  | adoptBlock block => do let _ ← Graph.adoptBlock block
  | removeBlock id => do let _ ← Graph.removeBlock id
  | setEntry id => Graph.setEntry id
  | setExit id => Graph.setExit id
  | insertEdge edge => do let _ ← Graph.insertEdge edge
  | removeEdge link => do let _ ← Graph.removeEdge link
  | removeEdgesBetween source destination => do
      let _ ← Graph.removeEdgesBetween source destination
  | retarget source target => do let _ ← Graph.retarget source target
  | split id point label placement => do let _ ← Graph.split id point label placement
  | merge into donor => Graph.merge into donor
  | editBlock id edit => Graph.editBlock id edit.run
  | prune => do let _ ← Graph.pruned

/-- What may be asked of a scope. -/
inductive Allocation where
  | addressLocal (name : String) (depth : Nat)
  | freshTemp
  | freshLabel

/-- The scope after handing it out. -/
def Allocation.run : Allocation → Scope → Scope
  | addressLocal name depth, scope => (scope.addressLocal name depth).2
  | freshTemp, scope => scope.freshTemp.2
  | freshLabel, scope => scope.freshLabel.2

/-- Handing out leaves the graph alone. -/
theorem Allocation.run_graph (allocation : Allocation) (scope : Scope) :
    (allocation.run scope).graph = scope.graph := by
  cases allocation with
  | addressLocal name depth => exact scope.addressLocal_graph name depth
  | _ => rfl

/-! ## Sessions -/

/-- A graph of its own, or a scope with its graph. -/
inductive Holding where
  | graph (g : Graph)
  | scope (s : Scope)

/-- The graph that is held. -/
def Holding.contents : Holding → Graph
  | graph g => g
  | scope s => s.graph

/-- The holding with another graph in it. -/
def Holding.withContents (g : Graph) : Holding → Holding
  | graph _ => .graph g
  | scope s => .scope { s with graph := g }

/-- What is held under each name, and the counters that all holdings share. -/
structure Session where
  held : Nat → Option Holding := fun _ => none
  nextGraph : GraphId := 1
  nextLiteral : Nat := 1

/-- A step of a session. -/
inductive Action where
  | newGraph (name : Nat)
  | newScope (name : Nat) (title : String) (kind : ScopeKind)
  /-- A scope is given up for its graph. -/
  | intoGraph (name : Nat)
  | drop (name : Nat)
  | edit (name : Nat) (edit : GraphEdit)
  | allocate (name : Nat) (allocation : Allocation)
  | newLiteral (constant : Constant)
  | inlineMethod (policy : Policy) (host callee : Nat) (block : BlockId) (call : Instr)
  | cloneClosure (policy : Policy) (source target : Nat)
  /-- The closure's graph is used up, whatever the outcome. -/
  | inlineClosure (policy : Policy) (host closure : Nat) (block : BlockId) (yielding : Instr)

namespace Session

/-- Hold something else, or nothing, under a name. -/
def put (session : Session) (name : Nat) (holding : Option Holding) : Session :=
  { session with held := fun other => if other = name then holding else session.held other }

/-- Take a host back under a name, with the shared counter of literals. -/
def receive (session : Session) (name : Nat) (host : Host) : Session :=
  { session.put name (some (.scope host.scope)) with nextLiteral := host.nextLiteral }

/-- Run a step on the host that a scope makes together with the shared counter of literals. -/
def onHost {α : Type} (session : Session) (name : Nat) (scope : Scope)
    (step : Inlining.HostStep α) : Session :=
  session.receive name (left step ⟨scope, session.nextLiteral⟩)

/-- The session after an action.  An action on a name that holds nothing fitting does nothing, and
neither does a transformation of a graph into itself. -/
def step (session : Session) : Action → Session
  | .newGraph name =>
      { session.put name (some (.graph { id := session.nextGraph })) with
        nextGraph := session.nextGraph + 1 }
  | .newScope name title kind =>
      { session.put name (some (.scope (.empty title kind session.nextGraph))) with
        nextGraph := session.nextGraph + 1 }
  | .intoGraph name =>
      match session.held name with
      | some (.scope scope) => session.put name (some (.graph scope.graph))
      | _ => session
  | .drop name => session.put name none
  | .edit name edit =>
      match session.held name with
      | some holding =>
          session.put name (some (holding.withContents (left edit.run holding.contents)))
      | none => session
  | .allocate name allocation =>
      match session.held name with
      | some (.scope scope) => session.put name (some (.scope (allocation.run scope)))
      | _ => session
  | .newLiteral constant =>
      { session with nextLiteral := (Literal.fresh constant session.nextLiteral).2 }
  | .inlineMethod policy host callee block call =>
      match session.held host, session.held callee with
      | some (.scope scope), some body =>
          if host = callee then session
          else session.onHost host scope (Inlining.inlineMethod policy body.contents block call)
      | _, _ => session
  | .cloneClosure policy source target =>
      match session.held source, session.held target with
      | some body, some (.scope scope) =>
          if source = target then session
          else session.onHost target scope (Inlining.cloneClosure policy body.contents)
      | _, _ => session
  | .inlineClosure policy host closure block yielding =>
      match session.held host, session.held closure with
      | some (.scope scope), some (.graph body) =>
          (session.onHost host scope (Inlining.inlineClosure policy body block yielding)).put
            closure none
      | _, _ => session

/-- The session after actions in sequence. -/
def run (actions : List Action) : Session :=
  actions.foldl step {}

/-- What holds of a session and survives every action holds after actions in sequence. -/
theorem foldl_induction {inv : Session → Prop}
    (kept : ∀ session, inv session → ∀ action, inv (session.step action)) {session : Session}
    (start : inv session) (actions : List Action) : inv (actions.foldl step session) :=
  List.foldlRecOn actions step start fun session holds action _ => kept session holds action

/-- What holds at first and survives every action holds after every run. -/
theorem run_induction {inv : Session → Prop} (start : inv {})
    (kept : ∀ session, inv session → ∀ action, inv (session.step action)) (actions : List Action) :
    inv (run actions) :=
  foldl_induction kept start actions

end Session

section Edits

open FlowIR.Graph

theorem BlockEdit.keepsName (edit : BlockEdit) : KeepsName edit.run := by
  intro block
  cases edit with
  | splitOff point placement => exact keepsName_splitOff point placement block
  | _ => exact ⟨rfl, rfl⟩

/-- Every edit of a graph keeps what the basic edits keep. -/
theorem GraphEdit.preserves {inv : Graph → Prop} (lasting : Lasting inv) (edit : GraphEdit) :
    Preserves inv edit.run := by
  cases edit with
  | createBlock label => exact (lasting.createBlock label).bind fun _ => .of_pure _
  | adoptBlock block => exact (lasting.adoptBlock block).bind fun _ => .of_pure _
  | removeBlock id => exact (lasting.removeBlock id).bind fun _ => .of_pure _
  | setEntry id => exact lasting.setEntry id
  | setExit id => exact lasting.setExit id
  | insertEdge edge => exact (lasting.insertEdge edge).bind fun _ => .of_pure _
  | removeEdge link => exact (lasting.removeEdge link).bind fun _ => .of_pure _
  | removeEdgesBetween source destination =>
      exact (lasting.removeEdgesBetween source destination).bind fun _ => .of_pure _
  | retarget source target => exact (lasting.retarget source target).bind fun _ => .of_pure _
  | split id point label placement =>
      exact (lasting.split id point label placement).bind fun _ => .of_pure _
  | merge into donor => exact lasting.merge into donor
  | editBlock id edit => exact lasting.editBlock id edit.keepsName
  | prune => exact lasting.pruned.bind fun _ => .of_pure _

end Edits

/-! ## What an action does -/

namespace Action

/-- The name under which an action begins an empty graph. -/
def opens : Action → Option Nat
  | newGraph name => some name
  | newScope name _ _ => some name
  | _ => none

/-- The name of the holding that an action uses up. -/
def usesUp : Action → Option Nat
  | inlineClosure _ _ closure _ _ => some closure
  | _ => none

end Action

/-- An action begins a graph under a name, as a graph of its own or as the graph of a new scope. -/
inductive Action.Begins (id : GraphId) : Action → Nat → Holding → Prop where
  | graph (name : Nat) : Begins id (.newGraph name) name (.graph { id := id })
  | scope (name : Nat) (title : String) (kind : ScopeKind) :
      Begins id (.newScope name title kind) name (.scope (.empty title kind id))

namespace Action.Begins

variable {id : GraphId} {action : Action} {name : Nat} {holding : Holding}

theorem opens_eq (begins : action.Begins id name holding) : action.opens = some name := by
  cases begins <;> rfl

theorem contents_eq (begins : action.Begins id name holding) : holding.contents = { id := id } := by
  cases begins <;> rfl

end Action.Begins

namespace Session

variable {session after : Session} {action : Action}

/-- The transformation that an action carries out, with the name of its host and its policy. -/
def transformation? (session : Session) :
    Action → Option (Nat × Policy × Inlining.Transformation)
  | .inlineMethod policy host callee block call =>
      match session.held host, session.held callee with
      | some (.scope _), some body =>
          if host = callee then none
          else some (host, policy, .inlineMethod body.contents block call)
      | _, _ => none
  | .cloneClosure policy source target =>
      match session.held source, session.held target with
      | some body, some (.scope _) =>
          if source = target then none else some (target, policy, .cloneClosure body.contents)
      | _, _ => none
  | .inlineClosure policy host closure block yielding =>
      match session.held host, session.held closure with
      | some (.scope _), some (.graph body) =>
          some (host, policy, .inlineClosure body block yielding)
      | _, _ => none
  | _ => none

/-- Let go of what is held under a name, if a name is given. -/
def letGo (session : Session) : Option Nat → Session
  | some name => session.put name none
  | none => session

/-- Nothing that fits the action is held under its names. -/
def Unfit (session : Session) : Action → Prop
  | .intoGraph name => ∀ scope, session.held name ≠ some (.scope scope)
  | .edit name _ => session.held name = none
  | .allocate name _ => ∀ scope, session.held name ≠ some (.scope scope)
  | .inlineMethod policy host callee block call =>
      session.transformation? (.inlineMethod policy host callee block call) = none
  | .cloneClosure policy source target =>
      session.transformation? (.cloneClosure policy source target) = none
  | .inlineClosure policy host closure block yielding =>
      session.transformation? (.inlineClosure policy host closure block yielding) = none
  | .newGraph _ | .newScope .. | .drop _ | .newLiteral _ => False

theorem Unfit.opens_eq (unfit : session.Unfit action) : action.opens = none := by
  cases action with
  | newGraph name => exact unfit.elim
  | newScope name title kind => exact unfit.elim
  | _ => rfl

theorem Unfit.transformation?_eq (unfit : session.Unfit action) :
    session.transformation? action = none := by
  cases action with
  | inlineMethod policy host callee block call => exact unfit
  | cloneClosure policy source target => exact unfit
  | inlineClosure policy host closure block yielding => exact unfit
  | _ => rfl

/-- What an action does to a session. -/
inductive Effect (session : Session) : Action → Session → Prop where
  | idle {action : Action} (unfit : session.Unfit action) : Effect session action session
  | begun {action : Action} {name : Nat} {holding : Holding}
      (begins : action.Begins session.nextGraph name holding) :
      Effect session action
        { session.put name (some holding) with nextGraph := session.nextGraph + 1 }
  | released {name : Nat} {scope : Scope} (held : session.held name = some (.scope scope)) :
      Effect session (.intoGraph name) (session.put name (some (.graph scope.graph)))
  | dropped (name : Nat) : Effect session (.drop name) (session.put name none)
  | edited {name : Nat} {holding : Holding} (edit : GraphEdit)
      (held : session.held name = some holding) :
      Effect session (.edit name edit)
        (session.put name (some (holding.withContents (left edit.run holding.contents))))
  | allocated {name : Nat} {scope : Scope} (allocation : Allocation)
      (held : session.held name = some (.scope scope)) :
      Effect session (.allocate name allocation)
        (session.put name (some (.scope (allocation.run scope))))
  | built (constant : Constant) :
      Effect session (.newLiteral constant)
        { session with nextLiteral := (Literal.fresh constant session.nextLiteral).2 }
  /-- The host is taken back as the transformation leaves it, whether it ends or fails. -/
  | transformed {action : Action} {host source : Nat} {policy : Policy}
      {t : Inlining.Transformation} {scope : Scope} {body : Holding}
      (transforms : session.transformation? action = some (host, policy, t))
      (hostHeld : session.held host = some (.scope scope))
      (bodyHeld : session.held source = some body) (bodyEq : body.contents = t.body) :
      Effect session action
        ((session.receive host (t.leaves policy ⟨scope, session.nextLiteral⟩)).letGo
          action.usesUp)

theorem effect_inlineMethod (policy : Policy) (host callee : Nat) (block : BlockId)
    (call : Instr) :
    session.Effect (.inlineMethod policy host callee block call)
      (session.step (.inlineMethod policy host callee block call)) := by
  unfold step
  dsimp only
  split
  next scope body hostHeld calleeHeld =>
    split
    next same =>
      exact .idle (by simp only [Unfit, transformation?, hostHeld, calleeHeld, if_pos same])
    next different =>
      have transforms : session.transformation? (.inlineMethod policy host callee block call) =
          some (host, policy, .inlineMethod body.contents block call) := by
        simp only [transformation?, hostHeld, calleeHeld, if_neg different]
      exact .transformed transforms hostHeld calleeHeld rfl
  next unfit =>
    apply Effect.idle
    unfold Unfit transformation?
    dsimp only
    split
    next hostHeld calleeHeld => exact (unfit _ _ hostHeld calleeHeld).elim
    next => rfl

theorem effect_cloneClosure (policy : Policy) (source target : Nat) :
    session.Effect (.cloneClosure policy source target)
      (session.step (.cloneClosure policy source target)) := by
  unfold step
  dsimp only
  split
  next body scope sourceHeld targetHeld =>
    split
    next same =>
      exact .idle (by simp only [Unfit, transformation?, sourceHeld, targetHeld, if_pos same])
    next different =>
      have transforms : session.transformation? (.cloneClosure policy source target) =
          some (target, policy, .cloneClosure body.contents) := by
        simp only [transformation?, sourceHeld, targetHeld, if_neg different]
      exact .transformed transforms targetHeld sourceHeld rfl
  next unfit =>
    apply Effect.idle
    unfold Unfit transformation?
    dsimp only
    split
    next sourceHeld targetHeld => exact (unfit _ _ sourceHeld targetHeld).elim
    next => rfl

theorem effect_inlineClosure (policy : Policy) (host closure : Nat) (block : BlockId)
    (yielding : Instr) :
    session.Effect (.inlineClosure policy host closure block yielding)
      (session.step (.inlineClosure policy host closure block yielding)) := by
  unfold step
  dsimp only
  split
  next scope body hostHeld closureHeld =>
    have transforms :
        session.transformation? (.inlineClosure policy host closure block yielding) =
          some (host, policy, .inlineClosure body block yielding) := by
      simp only [transformation?, hostHeld, closureHeld]
    exact .transformed transforms hostHeld closureHeld rfl
  next unfit =>
    apply Effect.idle
    unfold Unfit transformation?
    dsimp only
    split
    next hostHeld closureHeld => exact (unfit _ _ hostHeld closureHeld).elim
    next => rfl

/-- An action has one of these effects.  What holds of every action is read off them. -/
theorem effect_step (session : Session) (action : Action) :
    session.Effect action (session.step action) := by
  cases action with
  | newGraph name => exact .begun (.graph name)
  | newScope name title kind => exact .begun (.scope name title kind)
  | intoGraph name =>
      unfold step
      dsimp only
      split
      next held => exact .released held
      next unheld => exact .idle unheld
  | drop name => exact .dropped name
  | edit name edit =>
      unfold step
      dsimp only
      split
      next held => exact .edited edit held
      next unheld => exact .idle unheld
  | allocate name allocation =>
      unfold step
      dsimp only
      split
      next held => exact .allocated allocation held
      next unheld => exact .idle unheld
  | newLiteral constant => exact .built constant
  | inlineMethod policy host callee block call =>
      exact effect_inlineMethod policy host callee block call
  | cloneClosure policy source target => exact effect_cloneClosure policy source target
  | inlineClosure policy host closure block yielding =>
      exact effect_inlineClosure policy host closure block yielding

/-- An action that transforms a host begins no graph. -/
theorem opens_of_transforms {carried : Nat × Policy × Inlining.Transformation}
    (transforms : session.transformation? action = some carried) : action.opens = none := by
  cases action with
  | newGraph name => cases transforms
  | newScope name title kind => cases transforms
  | _ => rfl

/-! ## What is held after an action -/

/-- Under a name is held what was put there last. -/
theorem held_put {name other : Nat} {holding : Option Holding} {held : Holding}
    (holds : (session.put name holding).held other = some held) :
    other = name ∧ holding = some held ∨ other ≠ name ∧ session.held other = some held := by
  simp only [put] at holds
  split at holds
  next same => exact .inl ⟨same, holds⟩
  next different => exact .inr ⟨different, holds⟩

/-- Under the name of a host is held the scope that was taken back. -/
theorem held_receive {name other : Nat} {host : Host} {held : Holding}
    (holds : (session.receive name host).held other = some held) :
    other = name ∧ held = .scope host.scope ∨ other ≠ name ∧ session.held other = some held := by
  rcases held_put (show (session.put name _).held other = _ from holds) with ⟨rfl, same⟩ | old
  · exact .inl ⟨rfl, (Option.some.inj same).symm⟩
  · exact .inr old

/-- What is held after letting go was held before. -/
theorem held_letGo {used : Option Nat} {name : Nat} {holding : Holding}
    (held : (session.letGo used).held name = some holding) : session.held name = some holding := by
  cases used with
  | none => exact held
  | some other =>
      rcases held_put held with ⟨-, gone⟩ | ⟨-, old⟩
      · contradiction
      · exact old

theorem nextGraph_letGo (used : Option Nat) :
    (session.letGo used).nextGraph = session.nextGraph := by
  cases used <;> rfl

theorem nextLiteral_letGo (used : Option Nat) :
    (session.letGo used).nextLiteral = session.nextLiteral := by
  cases used <;> rfl

/-- The holding has come of what is held under the name. -/
def DevelopsAt (session : Session) (name : Nat) (holding : Holding) : Prop :=
  ∃ before, session.held name = some before ∧ before.contents.Develops holding.contents

/-- What is held has come of itself. -/
theorem developsAt_of_held {name : Nat} {holding : Holding}
    (held : session.held name = some holding) : session.DevelopsAt name holding :=
  ⟨holding, held, .refl _⟩

/-- After something that has come of a holding is put in its place, all that is held has come of
what was held. -/
theorem developsAt_put {name other : Nat} {before after holding : Holding}
    (otherHeld : session.held other = some before)
    (held : (session.put other (some after)).held name = some holding)
    (develops : before.contents.Develops after.contents) : session.DevelopsAt name holding := by
  rcases held_put held with ⟨rfl, same⟩ | ⟨-, old⟩
  · obtain rfl := Option.some.inj same
    exact ⟨before, otherHeld, develops⟩
  · exact developsAt_of_held old

/-- A graph that is held after an action is new and empty, or it has come of the graph that was held
under the same name. -/
theorem Effect.held_cases (effect : session.Effect action after) {name : Nat} {holding : Holding}
    (held : after.held name = some holding) :
    action.opens = some name ∧ holding.contents = { id := session.nextGraph } ∨
      session.DevelopsAt name holding := by
  cases effect with
  | idle => exact .inr (developsAt_of_held held)
  | begun begins =>
      rcases held_put held with ⟨rfl, same⟩ | ⟨-, old⟩
      · obtain rfl := Option.some.inj same
        exact .inl ⟨begins.opens_eq, begins.contents_eq⟩
      · exact .inr (developsAt_of_held old)
  | released otherHeld => exact .inr (developsAt_put otherHeld held (.refl _))
  | dropped other =>
      rcases held_put held with ⟨-, gone⟩ | ⟨-, old⟩
      · contradiction
      · exact .inr (developsAt_of_held old)
  | @edited other before edit otherHeld =>
      have develops : before.contents.Develops
          (before.withContents (left edit.run before.contents)).contents := by
        intro inv lasting holds
        have kept := (edit.preserves lasting).left holds
        cases before <;> exact kept
      exact .inr (developsAt_put otherHeld held develops)
  | @allocated other scope allocation otherHeld =>
      have develops : scope.graph.Develops (allocation.run scope).graph := by
        rw [allocation.run_graph]
        exact .refl _
      exact .inr (developsAt_put otherHeld held develops)
  | built => exact .inr (developsAt_of_held held)
  | @transformed _ _ _ policy t scope _ _ hostHeld =>
      rcases held_receive (held_letGo held) with ⟨rfl, rfl⟩ | ⟨-, old⟩
      · refine .inr ⟨.scope scope, hostHeld, ?_⟩
        intro inv lasting holds
        have start : inv (Host.scope ⟨scope, session.nextLiteral⟩).graph := holds
        exact Inlining.keeps_leaves lasting t policy start
      · exact .inr (developsAt_of_held old)

theorem held_step {name : Nat} {holding : Holding}
    (held : (session.step action).held name = some holding) :
    action.opens = some name ∧ holding.contents = { id := session.nextGraph } ∨
      session.DevelopsAt name holding :=
  (session.effect_step action).held_cases held

/-! ## All graphs are well formed -/

/-- Every graph that is held is well formed. -/
def WellFormed (session : Session) : Prop :=
  ∀ name holding, session.held name = some holding → holding.contents.WellFormed

/-- Every action keeps all graphs well formed, also when it fails. -/
theorem WellFormed.step (wf : session.WellFormed) (action : Action) :
    (session.step action).WellFormed := by
  intro name holding held
  rcases held_step held with ⟨-, new⟩ | ⟨before, beforeHeld, develops⟩
  · rw [new]
    exact Graph.WellFormed.empty _
  · exact develops.wellFormed (wf name before beforeHeld)

/-- All graphs are well formed after every run of a session, whichever of its actions failed. -/
theorem wellFormed_run (actions : List Action) : (run actions).WellFormed := by
  have fromHere : ∀ session : Session, session.WellFormed →
      (actions.foldl Session.step session).WellFormed := by
    induction actions with
    | nil => exact fun _ wf => wf
    | cons action rest ih => exact fun session wf => ih _ (wf.step action)
  exact fromHere {} nofun

end Session

end FlowIR
