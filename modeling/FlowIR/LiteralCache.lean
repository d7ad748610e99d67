import FlowIR.Literal

/-!
# Values made once per literal

A cache keeps the value that was made for a literal under the literal's identity, so copies of a
literal share it and look-alikes do not.  It counts how often a value was found and how often it
had to be made; clearing drops the values and keeps the counts.
-/

namespace FlowIR

/-- Values by the identity of a literal. -/
structure LiteralCache (α : Type) where
  entries : List (Nat × α) := []
  hits : Nat := 0
  misses : Nat := 0

namespace LiteralCache

variable {α : Type}

/-- The value kept for a literal. -/
def find? (cache : LiteralCache α) (literal : Literal) : Option α :=
  (cache.entries.find? (·.1 = literal.id)).map (·.2)

/-- The value kept for a literal, or the one that `make` makes, which is then kept.  The flag tells
whether `make` was used. -/
def getOrCreate (cache : LiteralCache α) (literal : Literal) (make : Literal → α) :
    (α × Bool) × LiteralCache α :=
  match cache.find? literal with
  | some value => ((value, false), { cache with hits := cache.hits + 1 })
  | none =>
      let value := make literal
      ((value, true),
        { cache with entries := (literal.id, value) :: cache.entries, misses := cache.misses + 1 })

/-- The number of values kept. -/
def size (cache : LiteralCache α) : Nat :=
  cache.entries.length

/-- Drop all values. -/
def clear (cache : LiteralCache α) : LiteralCache α :=
  { cache with entries := [] }

/-- Afterwards the value handed out is kept for the literal, and nothing else has changed. -/
theorem find?_getOrCreate (cache : LiteralCache α) (literal other : Literal) (make : Literal → α) :
    (cache.getOrCreate literal make).2.find? other =
      if other.id = literal.id then some (cache.getOrCreate literal make).1.1
      else cache.find? other := by
  cases found : cache.find? literal with
  | some value =>
      simp only [getOrCreate, found]
      split
      next same => rw [← found]; simp [find?, same]
      next other => rfl
  | none =>
      simp only [getOrCreate, found]
      split
      next same => simp [find?, same]
      next other => simp [find?, Ne.symm other]

@[simp] theorem find?_clear (cache : LiteralCache α) (literal : Literal) :
    cache.clear.find? literal = none :=
  rfl

end LiteralCache

end FlowIR
