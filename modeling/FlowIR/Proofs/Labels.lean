import FlowIR.Proofs.Hygiene
import FlowIR.Proofs.Inlining.LabelLog

/-!
# Labels over runs

A scope hands out labels when it is asked for one and when code is carried into it.  In between its
graph may be edited in any way: blocks are made by hand under labels of the same form, they are
removed, and they come and go with passes.  Whatever is done, the search for the next label ends,
and the label is neither bound in the graph nor one that the scope has handed out before, whether or
not any block still carries it.

An action is a history of the scope that it works on.  Joined together, these are one history of
every scope that is held, from the empty scope as which it began.
-/

namespace FlowIR.Session

/-- The labels that the scope under a name hands out in an action, in order. -/
def labelsAt (session : Session) (action : Action) (name : Nat) : List Label :=
  match session.scope? name, action with
  | some scope, .allocate other .freshLabel => if other = name then [scope.freshLabel.1] else []
  | some scope, _ =>
      match session.transformation? action with
      | some (host, policy, t) =>
          if host = name then t.labels policy ⟨scope, session.nextLiteral⟩ else []
      | none => []
  | none, _ => []

/-- The labels that the scope under a name has handed out since it was put there, when the labels of
the log were handed out before the actions. -/
def labelsFrom (name : Nat) : Session → List Label → List Action → List Label
  | _, log, [] => log
  | session, log, action :: rest =>
      labelsFrom name (session.step action)
        (if action.opens = some name then [] else log ++ session.labelsAt action name) rest

section Step

variable {session : Session} {action : Action} {name : Nat} {scope after : Scope}

/-- An action that neither asks the scope for a label nor transforms anything
has it hand out nothing. -/
theorem labelsAt_eq_nil (asks : action ≠ .allocate name .freshLabel)
    (transforms : session.transformation? action = none) : session.labelsAt action name = [] := by
  unfold labelsAt
  split
  next other _ =>
    apply if_neg
    rintro rfl
    exact asks rfl
  next => rw [transforms]
  next => rfl

/-- A transformation has its host hand out the labels of its pass. -/
theorem labelsAt_transformation (held : session.held name = some (.scope scope)) {host : Nat}
    {policy : Policy} {t : Inlining.Transformation}
    (transforms : session.transformation? action = some (host, policy, t)) :
    session.labelsAt action name =
      if host = name then t.labels policy ⟨scope, session.nextLiteral⟩ else [] := by
  have here : session.scope? name = some scope := scope?_eq_some_iff.mpr held
  unfold labelsAt
  split
  next => cases transforms
  next found _ =>
    obtain rfl := Option.some.inj (here.symm.trans found)
    rw [transforms]
  next absent =>
    rw [here] at absent
    contradiction

/-- A scope that is held after an action was held before it and has handed out the
labels of the action. -/
def IssuesAt (session : Session) (action : Action) (name : Nat) (after : Scope) : Prop :=
  ∃ before, session.held name = some (.scope before) ∧
    before.Issues (session.labelsAt action name) after

/-- A scope that an action leaves alone has handed out nothing. -/
theorem issuesAt_of_same (held : session.held name = some (.scope after))
    (none : session.labelsAt action name = []) : session.IssuesAt action name after :=
  ⟨after, held, none ▸ .start⟩

/-- A scope that is asked for a label hands it out; other names leave its counter alone. -/
theorem issues_allocation {before : Scope} (held : session.held name = some (.scope before))
    (allocation : Allocation) :
    before.Issues (session.labelsAt (.allocate name allocation) name) (allocation.run before) := by
  cases allocation with
  | addressLocal place depth =>
      have nothing : session.labelsAt (.allocate name (.addressLocal place depth)) name = [] :=
        labelsAt_eq_nil (by simp) rfl
      exact nothing ▸ .change .start (before.addressLocal_nextLabel place depth)
  | freshTemp =>
      have nothing : session.labelsAt (.allocate name .freshTemp) name = [] :=
        labelsAt_eq_nil (by simp) rfl
      exact nothing ▸ .change .start rfl
  | freshLabel =>
      have asked : session.labelsAt (.allocate name .freshLabel) name = [before.freshLabel.1] := by
        simp [labelsAt, scope?_eq_some_iff.mpr held]
      rw [asked]
      exact Scope.Issues.start.label

/-- A transformation is a history of its host. -/
theorem issues_transformation {policy : Policy} {t : Inlining.Transformation}
    (transforms : session.transformation? action = some (name, policy, t))
    (held : session.held name = some (.scope scope)) :
    scope.Issues (session.labelsAt action name)
      (t.leaves policy ⟨scope, session.nextLiteral⟩).scope := by
  rw [labelsAt_transformation held transforms, if_pos rfl]
  exact t.issues policy ⟨scope, session.nextLiteral⟩

/-- An action puts an empty scope under a name, or it is a history of the
scope that is held there. -/
theorem Effect.issues {later : Session} (effect : session.Effect action later)
    (held : later.held name = some (.scope after)) :
    action.opens = some name ∧ (∃ title kind, after = .empty title kind session.nextGraph) ∨
      action.opens ≠ some name ∧ session.IssuesAt action name after := by
  have closed : (none : Option Nat) ≠ some name := (Option.some_ne_none name).symm
  cases effect with
  | idle unfit =>
      refine .inr ⟨unfit.opens_eq ▸ closed, issuesAt_of_same held ?_⟩
      apply labelsAt_eq_nil _ unfit.transformation?_eq
      rintro rfl
      exact unfit after held
  | begun begins =>
      rcases held_put held with ⟨rfl, same⟩ | ⟨different, old⟩
      · cases begins with
        | graph => cases Option.some.inj same
        | scope _ title kind =>
            obtain rfl := Holding.scope.inj (Option.some.inj same)
            exact .inl ⟨rfl, title, kind, rfl⟩
      · have apart : action.opens ≠ some name :=
          fun here => different (Option.some.inj (begins.opens_eq.symm.trans here)).symm
        have nothing : session.labelsAt action name = [] := by
          cases begins <;> exact labelsAt_eq_nil (by simp) rfl
        exact .inr ⟨apart, issuesAt_of_same old nothing⟩
  | released =>
      rcases held_put held with ⟨-, same⟩ | ⟨-, old⟩
      · cases Option.some.inj same
      · exact .inr ⟨closed, issuesAt_of_same old (labelsAt_eq_nil (by simp) rfl)⟩
  | dropped =>
      rcases held_put held with ⟨-, gone⟩ | ⟨-, old⟩
      · contradiction
      · exact .inr ⟨closed, issuesAt_of_same old (labelsAt_eq_nil (by simp) rfl)⟩
  | @edited other holding edit otherHeld =>
      have nothing : session.labelsAt (.edit other edit) name = [] := labelsAt_eq_nil (by simp) rfl
      rcases held_put held with ⟨rfl, same⟩ | ⟨-, old⟩
      · cases holding with
        | graph g => cases Option.some.inj same
        | scope before =>
            obtain rfl := Holding.scope.inj (Option.some.inj same)
            exact .inr ⟨closed, before, otherHeld, nothing ▸ .change .start rfl⟩
      · exact .inr ⟨closed, issuesAt_of_same old nothing⟩
  | @allocated other before allocation otherHeld =>
      rcases held_put held with ⟨rfl, same⟩ | ⟨different, old⟩
      · obtain rfl := Holding.scope.inj (Option.some.inj same)
        exact .inr ⟨closed, before, otherHeld, issues_allocation otherHeld allocation⟩
      · refine .inr ⟨closed, issuesAt_of_same old (labelsAt_eq_nil ?_ rfl)⟩
        exact fun same => different (Action.allocate.inj same).1.symm
  | built => exact .inr ⟨closed, issuesAt_of_same held (labelsAt_eq_nil (by simp) rfl)⟩
  | @transformed _ host _ policy t scope _ transforms hostHeld =>
      refine .inr ⟨opens_of_transforms transforms ▸ closed, ?_⟩
      rcases held_receive (held_letGo held) with ⟨rfl, same⟩ | ⟨different, old⟩
      · obtain rfl := Holding.scope.inj same
        exact ⟨scope, hostHeld, issues_transformation transforms hostHeld⟩
      · apply issuesAt_of_same old
        rw [labelsAt_transformation old transforms, if_neg different.symm]

theorem issues_step (held : (session.step action).held name = some (.scope after)) :
    action.opens = some name ∧ (∃ title kind, after = .empty title kind session.nextGraph) ∨
      action.opens ≠ some name ∧ session.IssuesAt action name after :=
  (session.effect_step action).issues held

end Step

/-! ## Every run -/

/-- Every scope that is held under the name began empty and has handed out the labels of the log. -/
def Recorded (name : Nat) (session : Session) (log : List Label) : Prop :=
  ∀ scope, session.held name = some (.scope scope) →
    ∃ title kind graph, (Scope.empty title kind graph).Issues log scope

/-- Actions in sequence hand out the labels of their log. -/
theorem Recorded.foldl {name : Nat} {session : Session} {log : List Label}
    (recorded : Recorded name session log) (actions : List Action) :
    Recorded name (actions.foldl step session) (labelsFrom name session log actions) := by
  induction actions generalizing session log with
  | nil => exact recorded
  | cons action rest ih =>
      apply ih
      intro scope held
      rcases issues_step held with ⟨opens, title, kind, rfl⟩ | ⟨stays, before, beforeHeld, issues⟩
      · rw [if_pos opens]
        exact ⟨title, kind, session.nextGraph, .start⟩
      · rw [if_neg stays]
        rcases recorded before beforeHeld with ⟨title, kind, graph, history⟩
        exact ⟨title, kind, graph, history.trans issues⟩

/-- How labels fare in a run. -/
structure LabelsFresh (actions : List Action) : Prop where
  /-- A scope that is held hands out next what it has not handed out in the run. -/
  held : ∀ name scope, (run actions).held name = some (.scope scope) →
    scope.NextIsFresh (labelsFrom name {} [] actions)
  /-- So it is in the midst of an action, and whatever else is done to the scope's graph. -/
  amid : ∀ start log scope, Scope.Issues start log scope → scope.NextIsFresh log

/-- In every run, whichever of its actions failed, the search for a label ends after at
most one turn more than there are bound labels, and finds one that is not bound and has not
been handed out before. -/
theorem labelsFresh_run (actions : List Action) : LabelsFresh actions where
  held := by
    intro name scope held
    have recorded : Recorded name {} [] :=
      fun _ absent => absurd absent (Option.some_ne_none _).symm
    rcases recorded.foldl actions scope held with ⟨title, kind, graph, history⟩
    exact history.nextIsFresh
  amid := fun _ _ _ history => history.nextIsFresh

/-- A label stays spent when its block is gone, and one that a block was given
by hand is passed over. -/
example : labelsFrom 0 {} []
    [.newScope 0 "body" .method, .allocate 0 .freshLabel, .edit 0 (.createBlock (.numbered 0)),
      .edit 0 (.createBlock (.numbered 1)), .edit 0 (.removeBlock ⟨1, 0⟩),
      .allocate 0 .freshLabel] =
    [.numbered 0, .numbered 2] := by
  decide +kernel

end FlowIR.Session
