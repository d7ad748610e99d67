import FlowIR.Fault

/-!
# A filtered view of edges

A cursor walks a list of edges and shows the destination of each edge whose kind is the wanted one
or, negated, is any other.  It looks ahead by at most one matching edge, so asking whether another
element follows consumes nothing.  `remaining` lists what the cursor still has to show.
-/

namespace FlowIR.Edge

/-- A position in a filtered list of edges. -/
structure Cursor where
  /-- The wanted kind. -/
  kind : EdgeKind
  /-- Whether the edges of every other kind are wanted instead. -/
  negate : Bool
  /-- A matching edge that was found but not yet shown. -/
  pending : Option Edge := none
  /-- The edges not yet looked at. -/
  rest : List Edge

namespace Cursor

/-- The edge is one that the view shows. -/
def wants (kind : EdgeKind) (negate : Bool) (edge : Edge) : Bool :=
  (edge.kind = kind) != negate

/-- Look ahead for the next matching edge, unless one is pending. -/
def settle (cursor : Cursor) : Cursor :=
  match cursor.pending with
  | some _ => cursor
  | none =>
      match cursor.rest.dropWhile (! wants cursor.kind cursor.negate ·) with
      | [] => { cursor with rest := [] }
      | edge :: rest => { cursor with pending := some edge, rest := rest }

/-- Whether another matching edge follows. -/
def hasNext (cursor : Cursor) : Bool × Cursor :=
  let settled := cursor.settle
  (settled.pending.isSome, settled)

/-- The destination of the next matching edge. -/
def next (cursor : Cursor) : Except Fault BlockId × Cursor :=
  let settled := cursor.settle
  match settled.pending with
  | some edge => (.ok edge.destination, { settled with pending := none })
  | none => (.error .exhausted, settled)

/-- The destination of the next matching edge, if there is one. -/
def next? (cursor : Cursor) : Option BlockId × Cursor :=
  match cursor.next with
  | (.ok id, after) => (some id, after)
  | (.error _, after) => (none, after)

/-- Elements cannot be removed through the view. -/
def remove (cursor : Cursor) : Except Fault Unit × Cursor :=
  (.error .readOnlyView, cursor)

/-- The destinations that the cursor still has to show, in order. -/
def remaining (cursor : Cursor) : List BlockId :=
  (cursor.pending.toList ++ cursor.rest.filter (wants cursor.kind cursor.negate)).map
    (·.destination)

/-! ## What is left to show -/

/-- Looking ahead changes nothing that is still to be shown. -/
@[simp] theorem remaining_settle (cursor : Cursor) :
    cursor.settle.remaining = cursor.remaining := by
  obtain ⟨kind, negate, pending, rest⟩ := cursor
  cases pending with
  | some edge => rfl
  | none =>
      induction rest with
      | nil => rfl
      | cons edge rest ih =>
          by_cases wanted : wants kind negate edge
          · simp [settle, remaining, wanted]
          · simpa [settle, remaining, wanted] using ih

/-- After looking ahead, an edge is pending exactly when something is left to show. -/
theorem remaining_eq (cursor : Cursor) :
    cursor.remaining =
      match cursor.settle.pending with
      | some edge => edge.destination :: { cursor.settle with pending := none }.remaining
      | none => [] := by
  obtain ⟨kind, negate, pending, rest⟩ := cursor
  cases pending with
  | some edge => rfl
  | none =>
      induction rest with
      | nil => rfl
      | cons edge rest ih =>
          by_cases wanted : wants kind negate edge
          · simp [settle, remaining, wanted]
          · simpa [settle, remaining, wanted] using ih

theorem hasNext_fst (cursor : Cursor) :
    cursor.hasNext.1 = !cursor.remaining.isEmpty := by
  rw [remaining_eq]
  cases found : cursor.settle.pending <;> simp [hasNext, found]

theorem remaining_hasNext (cursor : Cursor) :
    cursor.hasNext.2.remaining = cursor.remaining := by
  simp [hasNext]

theorem next_fst (cursor : Cursor) :
    cursor.next.1 =
      match cursor.remaining with
      | id :: _ => .ok id
      | [] => .error .exhausted := by
  rw [remaining_eq]
  cases found : cursor.settle.pending <;> simp [next, found]

theorem remaining_next (cursor : Cursor) : cursor.next.2.remaining = cursor.remaining.tail := by
  have left := remaining_eq cursor
  cases found : cursor.settle.pending with
  | some edge => simp [left, next, found]
  | none =>
      rw [found] at left
      simp [left, next, found, remaining_settle]

end Cursor

end FlowIR.Edge
