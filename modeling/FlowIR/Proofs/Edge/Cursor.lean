import FlowIR.Edge.Cursor
import FlowIR.Graph.Basic

/-!
# Views refine lists

A cursor looks ahead, so its state has two parts, and each of its operations may move edges from one
part to the other.  Seen from outside it is a list of which the front is taken: whatever calls are
made in whatever order, each answers as it would on the list of the destinations that are wanted.

What carries the proof is `remaining`: one call takes its front or leaves it
alone, and answers from it.
-/

namespace FlowIR

/-- The list is a merge of two others, each in its order. -/
inductive Interleaves {α : Type} : List α → List α → List α → Prop where
  | nil : Interleaves [] [] []
  | left {first second merged : List α} (x : α) (rest : Interleaves first second merged) :
      Interleaves (x :: first) second (x :: merged)
  | right {first second merged : List α} (x : α) (rest : Interleaves first second merged) :
      Interleaves first (x :: second) (x :: merged)

/-- What passes a test and what fails it interleave to the whole. -/
theorem interleaves_filter {α : Type} (test : α → Bool) (xs : List α) :
    Interleaves (xs.filter test) (xs.filter (! test ·)) xs := by
  induction xs with
  | nil => exact .nil
  | cons x rest ih =>
      cases passes : test x with
      | true =>
          rw [List.filter_cons_of_pos passes, List.filter_cons_of_neg (by simp [passes])]
          exact .left x ih
      | false =>
          rw [List.filter_cons_of_neg (by simp [passes]),
            List.filter_cons_of_pos (by simp [passes])]
          exact .right x ih

theorem Interleaves.map {α β : Type} (f : α → β) {first second merged : List α}
    (interleaves : Interleaves first second merged) :
    Interleaves (first.map f) (second.map f) (merged.map f) := by
  induction interleaves with
  | nil => exact .nil
  | left x _ ih => exact .left (f x) ih
  | right x _ ih => exact .right (f x) ih

namespace Edge.Cursor

/-! ## Calls -/

/-- What may be asked of a view. -/
inductive Call where
  | hasNext
  | next
  | next?
  | remove
deriving DecidableEq

/-- What is answered. -/
inductive Answer where
  | follows (more : Bool)
  | shown (outcome : Except Fault BlockId)
  | item (id : Option BlockId)
  | removed (outcome : Except Fault Unit)

/-- The destination that an answer hands out. -/
def Answer.id? : Answer → Option BlockId
  | shown (.ok id) => some id
  | item id => id
  | _ => none

namespace Call

/-- The call takes an element, if there is one left. -/
def takes : Call → Bool
  | next => true
  | next? => true
  | hasNext => false
  | remove => false

/-- The call made of a cursor. -/
def run : Call → Cursor → Answer × Cursor
  | hasNext, cursor => (.follows cursor.hasNext.1, cursor.hasNext.2)
  | next, cursor => (.shown cursor.next.1, cursor.next.2)
  | next?, cursor => (.item cursor.next?.1, cursor.next?.2)
  | remove, cursor => (.removed cursor.remove.1, cursor.remove.2)

/-- The answer to the call where `left` is the list of what is left. -/
def answer (left : List BlockId) : Call → Answer
  | hasNext => .follows !left.isEmpty
  | next => .shown (left.head?.elim (.error .exhausted) .ok)
  | next? => .item left.head?
  | remove => .removed (.error .readOnlyView)

/-- What is left after the call where `left` is the list of what is left. -/
def rest (call : Call) (left : List BlockId) : List BlockId :=
  if call.takes then left.tail else left

end Call

/-- The answers to calls made of a cursor one after the other. -/
def answers : Cursor → List Call → List Answer
  | _, [] => []
  | cursor, call :: calls => (call.run cursor).1 :: (call.run cursor).2.answers calls

/-- The answers to calls made of a plain list of what is left. -/
def listAnswers : List BlockId → List Call → List Answer
  | _, [] => []
  | left, call :: calls => call.answer left :: listAnswers (call.rest left) calls

/-! ## One call -/

theorem next?_fst (cursor : Cursor) : cursor.next?.1 = cursor.remaining.head? := by
  have shown := cursor.next_fst
  unfold next?
  cases taken : cursor.next with
  | mk outcome after =>
      rw [taken] at shown
      cases left : cursor.remaining with
      | nil =>
          rw [left] at shown
          obtain rfl : outcome = .error .exhausted := shown
          rfl
      | cons id rest =>
          rw [left] at shown
          obtain rfl : outcome = .ok id := shown
          rfl

theorem next?_snd (cursor : Cursor) : cursor.next?.2 = cursor.next.2 := by
  unfold next?
  rcases cursor.next with ⟨_ | _, after⟩ <;> rfl

/-- A call answers from the list of what remains. -/
theorem run_fst (call : Call) (cursor : Cursor) :
    (call.run cursor).1 = call.answer cursor.remaining := by
  cases call with
  | hasNext => exact congrArg Answer.follows cursor.hasNext_fst
  | next =>
      apply congrArg Answer.shown
      rw [next_fst]
      cases cursor.remaining <;> rfl
  | next? => exact congrArg Answer.item cursor.next?_fst
  | remove => rfl

/-- A call takes the first of what remains or leaves all of it. -/
theorem remaining_run (call : Call) (cursor : Cursor) :
    (call.run cursor).2.remaining = call.rest cursor.remaining := by
  cases call with
  | hasNext => exact cursor.remaining_hasNext
  | next => exact cursor.remaining_next
  | next? => exact (congrArg remaining cursor.next?_snd).trans cursor.remaining_next
  | remove => rfl

/-! ## Calls one after the other -/

/-- A cursor answers like the list of what remains. -/
theorem answers_eq_listAnswers (cursor : Cursor) (calls : List Call) :
    cursor.answers calls = listAnswers cursor.remaining calls := by
  induction calls generalizing cursor with
  | nil => rfl
  | cons call calls ih => rw [answers, listAnswers, run_fst, ih, remaining_run]

/-- Calls take as many elements as there are calls among them that take one. -/
theorem foldl_rest (calls : List Call) (left : List BlockId) :
    calls.foldl (fun left call => call.rest left) left = left.drop (calls.countP (·.takes)) := by
  induction calls generalizing left with
  | nil => rfl
  | cons call calls ih =>
      rw [List.foldl_cons, ih, List.countP_cons, Call.rest]
      split
      next => rw [← List.drop_one, List.drop_drop, Nat.add_comm]
      next => rfl

theorem listAnswers_append (first second : List Call) (left : List BlockId) :
    listAnswers left (first ++ second) =
      listAnswers left first ++ listAnswers (left.drop (first.countP (·.takes))) second := by
  rw [← foldl_rest]
  induction first generalizing left with
  | nil => rfl
  | cons call calls ih => rw [List.cons_append, listAnswers, ih]; rfl

@[simp] theorem length_listAnswers (calls : List Call) (left : List BlockId) :
    (listAnswers left calls).length = calls.length := by
  induction calls generalizing left with
  | nil => rfl
  | cons call calls ih => simp [listAnswers, ih]

/-- Each call is answered from what the calls before it have left. -/
theorem getElem?_listAnswers (calls : List Call) (left : List BlockId) (i : Nat) :
    (listAnswers left calls)[i]? =
      calls[i]?.map (·.answer (left.drop ((calls.take i).countP (·.takes)))) := by
  by_cases within : i < calls.length
  · have parts : calls = calls.take i ++ calls[i] :: calls.drop (i + 1) := by
      rw [List.getElem_cons_drop, List.take_append_drop]
    have here : (listAnswers left (calls.take i)).length = i := by
      rw [length_listAnswers, List.length_take, Nat.min_eq_left (Nat.le_of_lt within)]
    have found : (listAnswers left (calls.take i ++ calls[i] :: calls.drop (i + 1)))[i]? =
        some (calls[i].answer (left.drop ((calls.take i).countP (·.takes)))) := by
      rw [listAnswers_append, List.getElem?_append_right (Nat.le_of_eq here), here, Nat.sub_self]
      rfl
    rw [← parts] at found
    rw [found, List.getElem?_eq_getElem within, Option.map_some]
  · have beyond := Nat.le_of_not_lt within
    rw [List.getElem?_eq_none (by rw [length_listAnswers]; exact beyond),
      List.getElem?_eq_none beyond, Option.map_none]

/-- What is handed out is the front of what was left, in order. -/
theorem filterMap_listAnswers (calls : List Call) (left : List BlockId) :
    (listAnswers left calls).filterMap Answer.id? = left.take (calls.countP (·.takes)) := by
  induction calls generalizing left with
  | nil => rfl
  | cons call calls ih =>
      rw [listAnswers, List.filterMap_cons, ih, List.countP_cons]
      cases call with
      | hasNext => rfl
      | remove => rfl
      | next => cases left <;> simp [Call.answer, Call.rest, Call.takes, Answer.id?]
      | next? => cases left <;> simp [Call.answer, Call.rest, Call.takes, Answer.id?]

/-- Calls that take nothing change no later answer. -/
theorem drop_answers_of_idle (cursor : Cursor) (before idle after : List Call)
    (nothing : ∀ call ∈ idle, call.takes = false) :
    (cursor.answers (before ++ idle ++ after)).drop (before ++ idle).length =
      (cursor.answers (before ++ after)).drop before.length := by
  have idleCount : idle.countP (·.takes) = 0 := by
    rw [List.countP_eq_zero]
    intro call member
    rw [nothing call member]
    exact Bool.false_ne_true
  rw [answers_eq_listAnswers, answers_eq_listAnswers, listAnswers_append (before ++ idle),
    listAnswers_append before after, List.drop_left' (length_listAnswers _ _),
    List.drop_left' (length_listAnswers _ _), List.countP_append, idleCount, Nat.add_zero]

/-! ## Until nothing is left -/

/-- Asked for items until there is none, the cursor shows these. -/
def Yields (cursor : Cursor) (ids : List BlockId) : Prop :=
  cursor.answers (List.replicate (ids.length + 1) .next?) =
    ids.map (fun id => .item (some id)) ++ [.item none]

theorem listAnswers_replicate_iff (left ids : List BlockId) :
    listAnswers left (List.replicate (ids.length + 1) .next?) =
      ids.map (fun id => .item (some id)) ++ [.item none] ↔ ids = left := by
  induction ids generalizing left with
  | nil => cases left <;> simp [listAnswers, Call.answer]
  | cons id ids ih =>
      cases left with
      | nil => simp [listAnswers, List.replicate_succ, Call.answer]
      | cons first left =>
          have later : listAnswers (Call.next?.rest (first :: left))
              (List.replicate (ids.length + 1) .next?) =
                ids.map (fun id => .item (some id)) ++ [.item none] ↔ ids = left := ih left
          rw [List.length_cons, List.replicate_succ, listAnswers, List.map_cons, List.cons_append,
            List.cons.injEq, later, List.cons.injEq]
          simp [Call.answer, eq_comm]

/-- A cursor yields what remains and nothing else. -/
theorem yields_iff (cursor : Cursor) (ids : List BlockId) :
    cursor.Yields ids ↔ ids = cursor.remaining := by
  rw [Yields, answers_eq_listAnswers]
  exact listAnswers_replicate_iff cursor.remaining ids

/-! ## Views -/

/-- The destinations of the edges of the wanted kind or, negated, of those of every other kind. -/
def matching (kind : EdgeKind) (negate : Bool) (edges : List Edge) : List BlockId :=
  (edges.filter fun edge => if negate then edge.kind ≠ kind else edge.kind = kind).map
    (·.destination)

theorem remaining_eq_matching (kind : EdgeKind) (negate : Bool) (edges : List Edge) :
    ({ kind := kind, negate := negate, rest := edges } : Cursor).remaining =
      matching kind negate edges := by
  have sameEdges : edges.filter (wants kind negate) =
      edges.filter fun edge => if negate then edge.kind ≠ kind else edge.kind = kind := by
    apply List.filter_congr
    intro edge _
    cases negate <;> simp [wants]
  exact congrArg (List.map fun edge : Edge => edge.destination) sameEdges

/-- A cursor answers all calls like the list of the destinations that are wanted. -/
structure Refines (cursor : Cursor) (ids : List BlockId) : Prop where
  /-- Taking an element and asking for it are done on the list. -/
  answers_eq : ∀ calls, cursor.answers calls = listAnswers ids calls
  /-- Each call is answered from what is left of the list when as many have been taken as there are
  taking calls before it. -/
  answer_eq : ∀ (calls : List Call) (i : Nat), (cursor.answers calls)[i]? =
    calls[i]?.map fun call => call.answer (ids.drop ((calls.take i).countP (·.takes)))
  /-- What is handed out is the front of the list, in order. -/
  handed_eq : ∀ calls, (cursor.answers calls).filterMap Answer.id? =
    ids.take (calls.countP (·.takes))
  /-- Calls that take nothing change no later answer. -/
  idle : ∀ before idle after, (∀ call ∈ idle, call.takes = false) →
    (cursor.answers (before ++ idle ++ after)).drop (before ++ idle).length =
      (cursor.answers (before ++ after)).drop before.length

theorem refines_remaining (cursor : Cursor) : cursor.Refines cursor.remaining where
  answers_eq := cursor.answers_eq_listAnswers
  answer_eq := by
    intro calls i
    rw [answers_eq_listAnswers, getElem?_listAnswers]
  handed_eq := by
    intro calls
    rw [answers_eq_listAnswers, filterMap_listAnswers]
  idle := cursor.drop_answers_of_idle

/-- Every view of edges refines the list of the destinations that are wanted, whatever is asked of
it in whatever order.  Of a block's successors, the views of one kind and of the other kinds yield a
part each, in order, and together all of them. -/
theorem views_refine_lists :
    (∀ kind negate edges,
      ({ kind := kind, negate := negate, rest := edges } : Cursor).Refines
        (matching kind negate edges)) ∧
    ∀ (g : Graph) (id : BlockId) (kind : EdgeKind), ∃ same other,
      (∀ ids, (g.outgoingView id kind false).Yields ids ↔ ids = same) ∧
      (∀ ids, (g.outgoingView id kind true).Yields ids ↔ ids = other) ∧
      Interleaves same other (g.successors id) := by
  constructor
  · intro kind negate edges
    rw [← remaining_eq_matching]
    exact refines_remaining _
  · intro g id kind
    refine ⟨_, _, yields_iff _, yields_iff _, ?_⟩
    have halves := (interleaves_filter (·.kind = kind) (g.outgoing id)).map (·.destination)
    rw [Graph.outgoingView, Graph.outgoingView, remaining_eq_matching, remaining_eq_matching]
    simpa [matching, Graph.successors] using halves

end Edge.Cursor

end FlowIR
