/-!
# Working on a part of the state

A step that may fail, and that keeps what it did before it failed, is an `EStateM` computation.  A
focus lets such a step for a part of a state run on the whole: the part is taken out, the step is
run, and whatever it leaves is put back, also when it fails.

The first section says what the basic steps do to a state, so that a longer step can be followed
from state to state.
-/

namespace FlowIR

/-! ## What the basic steps do -/

section BasicSteps

variable {ε σ α β : Type}

@[simp] theorem pure_apply (value : α) (state : σ) :
    (pure value : EStateM ε σ α) state = .ok value state :=
  rfl

@[simp] theorem bind_apply (step : EStateM ε σ α) (next : α → EStateM ε σ β) (state : σ) :
    (step >>= next) state =
      match step state with
      | .ok value after => next value after
      | .error error after => .error error after :=
  rfl

/-- What follows a step that ends starts from where it ends. -/
theorem bind_of_ok {step : EStateM ε σ α} {next : α → EStateM ε σ β} {state after : σ} {value : α}
    (done : step state = .ok value after) : (step >>= next) state = next value after := by
  rw [bind_apply, done]

@[simp] theorem map_apply (change : α → β) (step : EStateM ε σ α) (state : σ) :
    (change <$> step) state =
      match step state with
      | .ok value after => .ok (change value) after
      | .error error after => .error error after :=
  rfl

@[simp] theorem get_apply (state : σ) : (get : EStateM ε σ σ) state = .ok state state :=
  rfl

@[simp] theorem set_apply (after state : σ) :
    (set after : EStateM ε σ PUnit) state = .ok ⟨⟩ after :=
  rfl

@[simp] theorem modify_apply (change : σ → σ) (state : σ) :
    (modify change : EStateM ε σ PUnit) state = .ok ⟨⟩ (change state) :=
  rfl

@[simp] theorem throw_apply (error : ε) (state : σ) :
    (throw error : EStateM ε σ α) state = .error error state :=
  rfl

@[simp] theorem ofExcept_ok (value : α) (state : σ) :
    (MonadExcept.ofExcept (.ok value : Except ε α) : EStateM ε σ α) state = .ok value state :=
  rfl

@[simp] theorem ofExcept_error (error : ε) (state : σ) :
    (MonadExcept.ofExcept (.error error : Except ε α) : EStateM ε σ α) state = .error error state :=
  rfl

end BasicSteps

/-! ## Focusing -/

/-- How to read and replace a part of a state. -/
structure Focus (σ τ : Type) where
  get : σ → τ
  set : τ → σ → σ

/-- Run a step for the part on the whole state. -/
def Focus.run {ε σ τ α : Type} (focus : Focus σ τ) (step : EStateM ε τ α) : EStateM ε σ α :=
  fun state =>
    match step (focus.get state) with
    | .ok value part => .ok value (focus.set part state)
    | .error error part => .error error (focus.set part state)

/-- One focus inside another. -/
def Focus.comp {ρ σ τ : Type} (outer : Focus ρ σ) (inner : Focus σ τ) : Focus ρ τ where
  get state := inner.get (outer.get state)
  set part state := outer.set (inner.set part (outer.get state)) state

theorem Focus.run_eq_ok {ε σ τ α : Type} (focus : Focus σ τ) {step : EStateM ε τ α} {state : σ}
    {value : α} {part : τ} (stepEq : step (focus.get state) = .ok value part) :
    focus.run step state = .ok value (focus.set part state) := by
  simp [Focus.run, stepEq]

end FlowIR
