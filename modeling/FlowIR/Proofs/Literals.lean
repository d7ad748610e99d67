import FlowIR.Proofs.Hygiene
import FlowIR.Proofs.Inlining.FreshNames
import FlowIR.Proofs.LiteralCache

/-!
# Literals and the values made for them

A cache keeps values by the identity of a literal.  A literal has its identity from when it was
built, and keeps it in all code that it is carried into, so the value that was made for a literal
is found for each of its copies.  No two literals that a session builds have one identity, be it
the session itself that builds them or a transformation that supplies a `nil`, so look-alikes
have values of their own.

A caller that puts only such `nil` literals into a graph as have been built finds that all graphs
mention no others, after every run.
-/

namespace FlowIR

namespace Session

/-! ## Literals that a session builds -/

/-- The literals that an action builds, in order. -/
def built (session : Session) : Action → List Literal
  | .newLiteral constant => [(Literal.fresh constant session.nextLiteral).1]
  | action =>
      match session.transformation? action with
      | some (name, policy, t) =>
          match session.scope? name with
          | some scope =>
              Host.nilsUpTo ⟨scope, session.nextLiteral⟩
                (t.leaves policy ⟨scope, session.nextLiteral⟩)
          | none => []
      | none => []

/-- The literals that actions in sequence build, in order. -/
def builtFrom : Session → List Action → List Literal
  | _, [] => []
  | session, action :: rest => session.built action ++ builtFrom (session.step action) rest

section Step

variable {session after : Session} {action : Action}

/-- No action turns back the counter of literals. -/
theorem Effect.nextLiteral_le (effect : session.Effect action after) :
    session.nextLiteral ≤ after.nextLiteral := by
  cases effect with
  | built constant => exact Nat.le_succ _
  | @transformed _ _ _ policy t scope =>
      rw [nextLiteral_letGo]
      exact (t.builds policy ⟨scope, session.nextLiteral⟩).nextLiteral_le
  | _ => exact Nat.le_refl _

theorem nextLiteral_le_step (session : Session) (action : Action) :
    session.nextLiteral ≤ (session.step action).nextLiteral :=
  (session.effect_step action).nextLiteral_le

/-- An action that neither builds a literal itself nor transforms anything builds none. -/
theorem built_eq_nil (builds : ∀ constant, action ≠ .newLiteral constant)
    (transforms : session.transformation? action = none) : session.built action = [] := by
  unfold built
  split
  next constant => exact absurd rfl (builds constant)
  next => rw [transforms]

/-- A transformation builds what its host builds. -/
theorem built_of_transforms {name : Nat} {policy : Policy} {t : Inlining.Transformation}
    {scope : Scope} (transforms : session.transformation? action = some (name, policy, t))
    (held : session.held name = some (.scope scope)) :
    session.built action = Host.nilsUpTo ⟨scope, session.nextLiteral⟩
      (t.leaves policy ⟨scope, session.nextLiteral⟩) := by
  unfold built
  split
  next => cases transforms
  next =>
      rw [transforms]
      dsimp only
      rw [scope?_eq_some_iff.mpr held]

/-- The literals of an action take the identities between the counters, in order. -/
theorem Effect.map_id_built (effect : session.Effect action after) :
    (session.built action).map (·.id) = .Ico session.nextLiteral after.nextLiteral := by
  have none : session.built action = [] → (session.built action).map (·.id) =
      .Ico session.nextLiteral session.nextLiteral := by
    intro nothing
    rw [nothing, List.Ico.self_empty]
    rfl
  cases effect with
  | idle unfit =>
      apply none (built_eq_nil _ unfit.transformation?_eq)
      rintro constant rfl
      exact unfit
  | begun begins => cases begins <;> exact none rfl
  | built constant => exact List.Ico.succ_singleton.symm
  | @transformed _ _ _ policy t scope _ transforms hostHeld =>
      rw [built_of_transforms transforms hostHeld, Host.map_id_nilsUpTo, nextLiteral_letGo]
      rfl
  | _ => exact none rfl

/-- Identities are given one after the other. -/
theorem map_id_builtFrom (session : Session) (actions : List Action) :
    (builtFrom session actions).map (·.id) =
      .Ico session.nextLiteral (actions.foldl step session).nextLiteral := by
  induction actions generalizing session with
  | nil => exact List.Ico.self_empty.symm
  | cons action rest ih =>
      have later : (session.step action).nextLiteral ≤
          (rest.foldl step (session.step action)).nextLiteral :=
        foldl_induction
          (fun middle below action => Nat.le_trans below (middle.nextLiteral_le_step action))
          (Nat.le_refl _) rest
      rw [builtFrom, List.map_append, ih, (session.effect_step action).map_id_built,
        List.foldl_cons, List.Ico.append_consecutive (session.nextLiteral_le_step action) later]

/-- No identity is given twice. -/
theorem nodup_builtFrom (session : Session) (actions : List Action) :
    ((builtFrom session actions).map (·.id)).Nodup := by
  rw [map_id_builtFrom]
  exact List.Ico.nodup _ _

end Step

/-! ## Literals that have been built -/

/-- All `nil` literals that the action puts into a graph have been built. -/
def BringsBuilt (session : Session) : Action → Prop
  | .edit _ edit => ∀ operand ∈ edit.mentions, operand.NilBelow session.nextLiteral
  | _ => True

instance (session : Session) : DecidablePred session.BringsBuilt
  | .edit _ edit =>
      inferInstanceAs (Decidable (∀ operand ∈ edit.mentions, operand.NilBelow session.nextLiteral))
  | .newGraph _ | .newScope .. | .intoGraph _ | .drop _ | .allocate .. | .newLiteral _
  | .inlineMethod .. | .cloneClosure .. | .inlineClosure .. => isTrue trivial

/-- All `nil` literals that a run puts into graphs have been built by then. -/
def BuiltRun : Session → List Action → Prop
  | _, [] => True
  | session, action :: rest => session.BringsBuilt action ∧ BuiltRun (session.step action) rest

instance decidableBuiltRun :
    (session : Session) → (actions : List Action) → Decidable (BuiltRun session actions)
  | _, [] => isTrue trivial
  | session, action :: rest =>
      have := decidableBuiltRun (session.step action) rest
      inferInstanceAs (Decidable (session.BringsBuilt action ∧ BuiltRun _ rest))

/-- The `nil` literals in all graphs that are held have identities below the bound. -/
def NilsBelow (bound : Nat) (session : Session) : Prop :=
  ∀ name holding, session.held name = some holding → holding.contents.NilsBelow bound

/-- All `nil` literals in the graphs that are held have been built. -/
def NilsBuilt (session : Session) : Prop :=
  session.NilsBelow session.nextLiteral

section Step

variable {session after : Session} {action : Action} {bound : Nat}

theorem NilsBelow.mono (below : session.NilsBelow bound) {later : Nat} (le : bound ≤ later) :
    session.NilsBelow later :=
  fun name holding held => (below name holding held).mono le

theorem NilsBelow.put (below : session.NilsBelow bound) (name : Nat) {holding : Option Holding}
    (new : ∀ held, holding = some held → held.contents.NilsBelow bound) :
    (session.put name holding).NilsBelow bound := by
  intro other held holds
  rcases held_put holds with ⟨-, same⟩ | ⟨-, old⟩
  · exact new held same
  · exact below other held old

theorem NilsBelow.letGo (below : session.NilsBelow bound) (used : Option Nat) :
    (session.letGo used).NilsBelow bound :=
  fun name holding held => below name holding (held_letGo held)

/-- An action that puts only literals that have been built into a graph leaves no others anywhere,
also when it fails. -/
theorem NilsBuilt.of_effect (nils : session.NilsBuilt) (wf : session.WellFormed)
    (effect : session.Effect action after) (brings : session.BringsBuilt action) :
    after.NilsBuilt := by
  cases effect with
  | idle => exact nils
  | begun begins =>
      apply NilsBelow.put nils
      rintro _ ⟨⟩
      rw [begins.contents_eq]
      exact nofun
  | @released name scope held =>
      apply NilsBelow.put nils
      rintro _ ⟨⟩
      exact nils name (.scope scope) held
  | dropped name => exact NilsBelow.put nils name nofun
  | @edited name holding edit held =>
      apply NilsBelow.put nils
      rintro _ ⟨⟩
      have within := Graph.within_iff.mpr (nils name holding held)
      have edited := Graph.within_iff.mp ((edit.within brings _ within).left)
      cases holding <;> exact edited
  | @allocated name scope allocation held =>
      apply NilsBelow.put nils
      rintro _ ⟨⟩
      show (allocation.run scope).graph.NilsBelow session.nextLiteral
      rw [allocation.run_graph]
      exact nils name (.scope scope) held
  | built constant => exact nils.mono (Nat.le_succ _)
  | @transformed _ host source policy t scope body _ hostHeld bodyHeld bodyEq =>
      -- The counter has moved for the other graphs too, whose literals are all old.
      have later := (t.builds policy ⟨scope, session.nextLiteral⟩).nextLiteral_le
      unfold NilsBuilt
      rw [nextLiteral_letGo]
      apply NilsBelow.letGo
      apply (nils.mono later).put
      rintro _ ⟨⟩
      have bodyWf : t.body.WellFormed := bodyEq ▸ wf source body bodyHeld
      have bodyNils : t.body.NilsBelow session.nextLiteral := bodyEq ▸ nils source body bodyHeld
      exact t.nilsBelow_leaves (wf host (.scope scope) hostHeld) bodyWf
        (nils host (.scope scope) hostHeld) bodyNils

theorem NilsBuilt.step (nils : session.NilsBuilt) (wf : session.WellFormed)
    (brings : session.BringsBuilt action) : (session.step action).NilsBuilt :=
  nils.of_effect wf (session.effect_step action) brings

/-- So does a run. -/
theorem NilsBuilt.run (nils : session.NilsBuilt) (wf : session.WellFormed) {actions : List Action}
    (brings : BuiltRun session actions) : (actions.foldl Session.step session).NilsBuilt := by
  induction actions generalizing session with
  | nil => exact nils
  | cons action rest ih => exact ih (nils.step wf brings.1) (wf.step action) brings.2

end Step

/-- A run that puts only literals that have been built into graphs leaves no others, whichever
of its actions failed. -/
theorem nilsBuilt_run {actions : List Action} (brings : BuiltRun {} actions) :
    (run actions).NilsBuilt := by
  have start : NilsBuilt {} := nofun
  exact start.run nofun brings

/-- Where a run brings along only what its scope has handed out and what has been built, the scope
is accounted for in the end if it knows the labels that it mentions. -/
theorem accounted_run {name : Nat} {actions : List Action} (careful : CarefulRun name {} actions)
    (brings : BuiltRun {} actions) {scope : Scope} (held : (run actions).scope? name = some scope)
    (labels : ∀ operand ∈ scope.graph.mentions, scope.KnowsLabel operand) :
    Host.Accounted ⟨scope, (run actions).nextLiteral⟩ := by
  have start : HygienicAt name {} := nofun
  rcases start.run nofun careful with ⟨hygienic, wf⟩
  have scopeHeld : (run actions).held name = some (.scope scope) := scope?_eq_some_iff.mp held
  exact {
    wellFormed := wf name (.scope scope) scopeHeld
    temps := Graph.within_iff.mp (Scope.hygienic_iff.mp (hygienic scope held))
    labels := labels
    nils := nilsBuilt_run brings name (.scope scope) scopeHeld }

example : ∃ scope, (run sampleActions).scope? 0 = some scope ∧
    Host.Accounted ⟨scope, (run sampleActions).nextLiteral⟩ := by
  obtain ⟨scope, held⟩ := Option.isSome_iff_exists.mp
    (by decide +kernel : ((run sampleActions).scope? 0).isSome = true)
  have labels : ((run sampleActions).scope? 0).all (fun scope =>
      scope.graph.mentions.all fun operand => scope.KnowsLabel operand) = true := by
    decide +kernel
  rw [held] at labels
  refine ⟨scope, held, accounted_run (by decide +kernel) (by decide +kernel) held ?_⟩
  simpa using labels

end Session

/-! ## Values by identity -/

open Inlining LiteralCache

/-- Literals that are carried over have the values of the originals, and literals that were built
have values of their own. -/
structure ValuesByIdentity (α : Type) : Prop where
  /-- Between two clears, a cache makes one value for each identity. -/
  madeOnce : ∀ calls : List (Call α), MadeOnce calls
  /-- A request for a literal has no part in what is kept for another one,
  however alike the two are. -/
  apart : ∀ (calls : List (Call α)) literal make other, other.id ≠ literal.id →
    (after (calls ++ [.getOrCreate literal make])).find? other = (after calls).find? other
  /-- Whatever a pass clones, and in whichever way, the literals of the clone can be traced. -/
  clone : ∀ (pass : Pass), pass.Arises → ∀ (way : Way) (instr : Instr) value later,
    way.clone instr pass = .ok value later →
      TracedLiterals (pass.passed way) (pass.loses way) [instr] value.toList pass.host.nextLiteral
        later.host.nextLiteral
  /-- So can those of a whole body that takes the place of a call or of a yield, or is copied. -/
  inlineMethod : ∀ (host : Host) (callee : Graph), host.scope.graph.WellFormed → callee.WellFormed →
    ∀ policy block site report later,
      inlineMethod policy callee block site host = .ok (.inlined report) later →
        ∃ call, CallBinding.of? site = some call ∧
          CarriesLiterals call.mentions call.loses callee report.blocks host later
  inlineClosure : ∀ (host : Host) (closure : Graph), host.scope.graph.WellFormed →
    closure.WellFormed →
    ∀ policy block site report later,
      inlineClosure policy closure block site host = .ok (.inlined report) later →
        ∃ yielded, YieldBinding.of? site = some yielded ∧
          CarriesLiterals yielded.mentions yielded.loses closure report.blocks host later
  cloneClosure : ∀ (host : Host) (source : Graph), host.scope.graph.WellFormed → source.WellFormed →
    ∀ policy report later, cloneClosure policy source host = .ok report later →
      CarriesLiterals [] copyLoses source report.blocks host later
  /-- A literal that can be traced to the source is the same literal, and finds the value that was
  made for it as long as none is dropped. -/
  hits : ∀ passed lost source images next last, TracedLiterals passed lost source images next last →
    ∀ literal ∈ literalsOf (source.filter (!lost ·)), literal ∈ literalsOf images ∧
      ∀ (calls later : List (Call α)) make, (∀ call ∈ later, call.clears = false) → ∀ again,
        ((after (calls ++ .getOrCreate literal make :: later)).getOrCreate literal again).1 =
          (((after calls).getOrCreate literal make).1.1, false)
  /-- A literal that is built takes the next identity, and a transformation builds its literals one
  by one, whatever its outcome. -/
  newLiteral : ∀ (session : Session) constant,
    session.built (.newLiteral constant) = [⟨session.nextLiteral, constant⟩]
  builds : ∀ (host : Host) (policy : Policy) (t : Transformation),
    host.Builds (host.nilsUpTo (t.leaves policy host)) (t.leaves policy host)
  /-- The literals that are built in a run have different identities, whatever builds them, and a
  request for one has no part in what is kept for another. -/
  built : ∀ actions, ((Session.builtFrom {} actions).map (·.id)).Nodup
  separate : ∀ actions, (Session.builtFrom {} actions).Pairwise fun literal other =>
    ∀ (calls : List (Call α)) make,
      (after (calls ++ [.getOrCreate literal make])).find? other = (after calls).find? other

/-- Values are found and made by the identity of literals alone. -/
theorem valuesByIdentity (α : Type) : ValuesByIdentity α where
  madeOnce := LiteralCache.madeOnce
  apart := by
    intro calls literal make other different
    rw [after_concat]
    exact find?_getOrCreate_of_ne (after calls) make different
  clone := fun _ arises _ _ _ _ cloned => traced_clone arises cloned
  inlineMethod := fun _ _ wf bodyWf _ _ _ _ _ inlined =>
    inlineMethod_carriesLiterals wf bodyWf inlined
  inlineClosure := fun _ _ wf bodyWf _ _ _ _ _ inlined =>
    inlineClosure_carriesLiterals wf bodyWf inlined
  cloneClosure := fun _ _ wf bodyWf _ _ _ cloned => cloneClosure_carriesLiterals wf bodyWf cloned
  hits := by
    intro passed lost source images next last traced literal member
    refine ⟨traced.mem_images member, fun calls later make uncleared again => ?_⟩
    have known := LiteralCache.madeOnce (calls ++ .getOrCreate literal make :: later)
    exact known.found calls literal make later rfl uncleared literal again rfl
  newLiteral := fun _ _ => rfl
  builds := fun host policy t => t.builds policy host
  built := Session.nodup_builtFrom {}
  separate := by
    intro actions
    apply (List.pairwise_map.mp (Session.nodup_builtFrom {} actions)).imp
    intro literal other different calls make
    rw [after_concat]
    exact find?_getOrCreate_of_ne (after calls) make different.symm

end FlowIR
