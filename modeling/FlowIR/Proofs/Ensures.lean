import FlowIR.Focus

/-!
# What a step ensures

A step that may fail is described by two postconditions, one for the value and state it ends with
and one for the fault and state it fails with.  The rules below follow the basic steps, so that a
longer step is described through the descriptions of its parts.

A step preserves an invariant when the invariant survives it either way.  Steps of this library
keep what they did before a failure, so both outcomes matter.
-/

namespace FlowIR

variable {ε σ τ α β : Type}

/-- The state that a step leaves, whether it ends or fails. -/
def left {ε σ α : Type} (step : EStateM ε σ α) (start : σ) : σ :=
  match step start with
  | .ok _ after => after
  | .error _ after => after

/-- Begun in `start`, the step ends as `post` says or fails as `fail` says. -/
def Ensures (step : EStateM ε σ α) (start : σ) (post : α → σ → Prop) (fail : ε → σ → Prop) :
    Prop :=
  match step start with
  | .ok value after => post value after
  | .error fault after => fail fault after

namespace Ensures

variable {step : EStateM ε σ α} {next : α → EStateM ε σ β} {start after : σ}
  {post mid : α → σ → Prop} {last : β → σ → Prop} {fail : ε → σ → Prop}

/-- A step that succeeded ends as its postcondition says. -/
theorem of_ok {value : α} (ensured : Ensures step start post fail)
    (done : step start = .ok value after) : post value after := by
  simpa only [Ensures, done] using ensured

/-- A step that failed ends as its postcondition for faults says. -/
theorem of_error {fault : ε} (ensured : Ensures step start post fail)
    (failed : step start = .error fault after) : fail fault after := by
  simpa only [Ensures, failed] using ensured

/-- A step that is known to end ends as known. -/
theorem of_eq_ok {value : α} (done : step start = .ok value after) (holds : post value after) :
    Ensures step start post fail := by
  simpa only [Ensures, done] using holds

/-- What a step ensures of its final state whatever the outcome holds of what it leaves. -/
theorem left {inv : σ → Prop} (ensured : Ensures step start (fun _ => inv) (fun _ => inv)) :
    inv (left step start) := by
  unfold Ensures at ensured
  unfold FlowIR.left
  cases outcome : step start with
  | ok value after =>
      rw [outcome] at ensured
      exact ensured
  | error fault after =>
      rw [outcome] at ensured
      exact ensured

/-- What a step does is what it does. -/
theorem outcome (step : EStateM ε σ α) (start : σ) :
    Ensures step start (fun value after => step start = .ok value after)
      (fun fault after => step start = .error fault after) := by
  unfold Ensures
  cases step start <;> rfl

/-- Both postconditions may be weakened. -/
theorem mono {post' : α → σ → Prop} {fail' : ε → σ → Prop} (ensured : Ensures step start post fail)
    (weaker : ∀ value after, post value after → post' value after)
    (weakerFail : ∀ fault after, fail fault after → fail' fault after) :
    Ensures step start post' fail' := by
  unfold Ensures at ensured ⊢
  cases outcome : step start with
  | ok value after =>
      rw [outcome] at ensured
      exact weaker value after ensured
  | error fault after =>
      rw [outcome] at ensured
      exact weakerFail fault after ensured

/-- Two descriptions of one step hold together. -/
theorem and {post' : α → σ → Prop} {fail' : ε → σ → Prop} (first : Ensures step start post fail)
    (second : Ensures step start post' fail') :
    Ensures step start (fun value after => post value after ∧ post' value after)
      (fun fault after => fail fault after ∧ fail' fault after) := by
  unfold Ensures at first second ⊢
  cases outcome : step start with
  | ok value after =>
      rw [outcome] at first second
      exact ⟨first, second⟩
  | error fault after =>
      rw [outcome] at first second
      exact ⟨first, second⟩

theorem of_pure {value : α} (holds : post value start) :
    Ensures (pure value : EStateM ε σ α) start post fail :=
  holds

theorem of_throw {fault : ε} (holds : fail fault start) :
    Ensures (throw fault : EStateM ε σ α) start post fail :=
  holds

theorem of_modify {change : σ → σ} {done : PUnit → σ → Prop} (holds : done ⟨⟩ (change start)) :
    Ensures (modify change : EStateM ε σ PUnit) start done fail :=
  holds

/-- A first step that is known to end hands its value and state to what follows. -/
theorem of_ok_bind {value : α} (done : step start = .ok value after)
    (rest : Ensures (next value) after last fail) : Ensures (step >>= next) start last fail := by
  unfold Ensures
  rw [bind_of_ok done]
  exact rest

/-- A first step that is known to fail lets nothing follow. -/
theorem of_error_bind {fault : ε} (failed : step start = .error fault after)
    (holds : fail fault after) :
    Ensures (step >>= next) start last fail := by
  unfold Ensures
  rw [bind_apply, failed]
  exact holds

/-- Nothing follows a fault. -/
theorem throw_bind {fault : ε} (holds : fail fault start) :
    Ensures (throw fault >>= next) start last fail :=
  holds

/-- Reading the state hands it to what follows. -/
theorem get_bind {next : σ → EStateM ε σ β} (rest : Ensures (next start) start last fail) :
    Ensures (get >>= next) start last fail :=
  rest

/-- Replacing the state hands the new one to what follows. -/
theorem set_bind {state : σ} {next : PUnit → EStateM ε σ β}
    (rest : Ensures (next ⟨⟩) state last fail) : Ensures (set state >>= next) start last fail :=
  rest

/-- Changing the state hands the new one to what follows. -/
theorem modify_bind {change : σ → σ} {next : PUnit → EStateM ε σ β}
    (rest : Ensures (next ⟨⟩) (change start) last fail) :
    Ensures (modify change >>= next) start last fail :=
  rest

/-- One step after the other: what follows is described from wherever the first may end. -/
theorem bind (first : Ensures step start mid fail)
    (rest : ∀ value after, mid value after → Ensures (next value) after last fail) :
    Ensures (step >>= next) start last fail := by
  unfold Ensures at first ⊢
  rw [bind_apply]
  cases outcome : step start with
  | ok value after =>
      rw [outcome] at first
      exact rest value after first
  | error fault after =>
      rw [outcome] at first
      exact first

/-- A step run on a part of the state is described by what it does to the part. -/
theorem focus {focus : Focus σ τ} {step : EStateM ε τ α}
    (inner : Ensures step (focus.get start) (fun value part => post value (focus.set part start))
      (fun fault part => fail fault (focus.set part start))) :
    Ensures (focus.run step) start post fail := by
  unfold Ensures Focus.run at *
  cases outcome : step (focus.get start) with
  | ok value part =>
      rw [outcome] at inner
      exact inner
  | error fault part =>
      rw [outcome] at inner
      exact inner

end Ensures

/-! ## Invariants -/

/-- The invariant survives the step, whether it ends or fails. -/
def Preserves (inv : σ → Prop) (step : EStateM ε σ α) : Prop :=
  ∀ start, inv start → Ensures step start (fun _ => inv) (fun _ => inv)

namespace Preserves

variable {inv : σ → Prop} {step : EStateM ε σ α} {next : α → EStateM ε σ β}

theorem of_pure (value : α) : Preserves inv (pure value : EStateM ε σ α) :=
  fun _ holds => Ensures.of_pure holds

theorem of_throw (fault : ε) : Preserves inv (throw fault : EStateM ε σ α) :=
  fun _ holds => Ensures.of_throw holds

theorem of_get : Preserves inv (get : EStateM ε σ σ) :=
  fun _ holds => holds

theorem of_modify {change : σ → σ} (kept : ∀ state, inv state → inv (change state)) :
    Preserves inv (modify change : EStateM ε σ PUnit) :=
  fun state holds => Ensures.of_modify (kept state holds)

/-- Nothing follows a fault. -/
theorem throw_bind (fault : ε) : Preserves inv (throw fault >>= next) :=
  fun _ holds => Ensures.throw_bind holds

theorem bind (first : Preserves inv step) (rest : ∀ value, Preserves inv (next value)) :
    Preserves inv (step >>= next) :=
  fun state holds => (first state holds).bind fun value after kept => rest value after kept

/-- A step run on a part of the state keeps what it keeps of the part. -/
theorem focus {focus : Focus τ σ} {whole : τ → Prop} (kept : Preserves inv step)
    (read : ∀ state, whole state → inv (focus.get state))
    (written : ∀ state part, whole state → inv part → whole (focus.set part state)) :
    Preserves whole (focus.run step) := by
  intro state holds
  apply Ensures.focus
  apply (kept (focus.get state) (read state holds)).mono
  · exact fun _ part => written state part holds
  · exact fun _ part => written state part holds

/-- Whatever a step does to a part of the state, it keeps what holds with any part. -/
theorem focus_of_forall {focus : Focus τ σ} {whole : τ → Prop}
    (written : ∀ state part, whole state → whole (focus.set part state)) :
    Preserves whole (focus.run step) := by
  intro state holds
  unfold Ensures Focus.run
  cases step (focus.get state) <;> exact written state _ holds

/-- What a step keeps holds of what it leaves. -/
theorem left (kept : Preserves inv step) {start : σ} (holds : inv start) : inv (left step start) :=
  (kept start holds).left

/-- What holds of all that a step leaves is kept by the step. -/
theorem of_left (kept : ∀ start, inv start → inv (FlowIR.left step start)) :
    Preserves inv step := by
  intro start holds
  have after := kept start holds
  unfold FlowIR.left at after
  unfold Ensures
  cases outcome : step start with
  | ok value _ =>
      rw [outcome] at after
      exact after
  | error fault _ =>
      rw [outcome] at after
      exact after

end Preserves

end FlowIR
