import FlowIR.LiteralCache
import Mathlib.Data.Finset.Card
import Mathlib.Data.List.DropRight

/-!
# What a cache of literals has made

Between two clears, a cache makes one value for each identity that it is asked for.  Which value
that is, and whether a request finds it or makes it, is read off the calls so far: all depends on
the requests since the last clear, and of those with one identity only the first counts.  The
counters tell of all calls, clears or not.

The induction is on the calls with the last one taken off, since a clear hides what came before it.
-/

namespace FlowIR.LiteralCache

variable {α : Type}

/-! ## Calls -/

/-- What may be asked of a cache. -/
inductive Call (α : Type) where
  | getOrCreate (literal : Literal) (make : Literal → α)
  | get (literal : Literal)
  | clear

namespace Call

/-- The cache after a call. -/
def run : Call α → LiteralCache α → LiteralCache α
  | getOrCreate literal make, cache => (cache.getOrCreate literal make).2
  | get _, cache => cache
  | clear, cache => cache.clear

/-- The value that a request gets, and whether it was made for it. -/
def answer? : Call α → LiteralCache α → Option (α × Bool)
  | getOrCreate literal make, cache => some (cache.getOrCreate literal make).1
  | get _, _ => none
  | clear, _ => none

/-- The literal of a request and what would make its value. -/
def request? : Call α → Option (Literal × (Literal → α))
  | getOrCreate literal make => some (literal, make)
  | get _ => none
  | clear => none

/-- A call that drops all values. -/
def clears : Call α → Bool
  | clear => true
  | _ => false

end Call

/-- The cache after calls in sequence. -/
def after (calls : List (Call α)) : LiteralCache α :=
  calls.foldl (fun cache call => call.run cache) {}

/-- The answers to the requests among the calls, in order. -/
def answers : LiteralCache α → List (Call α) → List (α × Bool)
  | _, [] => []
  | cache, call :: rest => (call.answer? cache).toList ++ answers (call.run cache) rest

/-- The requests since the last clear. -/
def requests (calls : List (Call α)) : List (Literal × (Literal → α)) :=
  (calls.rtakeWhile (!·.clears)).filterMap Call.request?

/-- The first request for an identity since the last clear. -/
def firstRequest? (calls : List (Call α)) (id : Nat) : Option (Literal × (Literal → α)) :=
  (requests calls).find? (·.1.id = id)

theorem after_concat (calls : List (Call α)) (call : Call α) :
    after (calls ++ [call]) = call.run (after calls) := by
  simp [after]

theorem requests_concat (calls : List (Call α)) (call : Call α) :
    requests (calls ++ [call]) =
      if call.clears then [] else requests calls ++ call.request?.toList := by
  unfold requests
  rw [List.rtakeWhile_concat]
  cases call <;> simp [Call.clears, Call.request?]

theorem firstRequest?_concat_getOrCreate (calls : List (Call α)) (literal : Literal)
    (make : Literal → α) (id : Nat) :
    firstRequest? (calls ++ [.getOrCreate literal make]) id =
      (firstRequest? calls id).or (if literal.id = id then some (literal, make) else none) := by
  simp [firstRequest?, requests_concat, Call.clears, Call.request?, List.find?_append,
    List.find?_singleton]

/-! ## Which values are kept -/

/-- A request finds the value that is kept, or has one made. -/
theorem answer_getOrCreate (cache : LiteralCache α) (literal : Literal) (make : Literal → α) :
    (cache.getOrCreate literal make).1 =
      ((cache.find? literal).getD (make literal), (cache.find? literal).isNone) := by
  cases found : cache.find? literal <;> simp [getOrCreate, found]

/-- What is kept for a literal is what its first request since the last clear made. -/
theorem find?_after (calls : List (Call α)) (literal : Literal) :
    (after calls).find? literal =
      (firstRequest? calls literal.id).map fun request => request.2 request.1 := by
  induction calls using List.reverseRecOn generalizing literal with
  | nil => rfl
  | append_singleton calls call ih =>
      rw [after_concat]
      cases call with
      | clear => rw [firstRequest?, requests_concat]; rfl
      | get other =>
          simpa [Call.run, firstRequest?, requests_concat, Call.clears,
            Call.request?] using ih literal
      | getOrCreate other make =>
          rw [Call.run, find?_getOrCreate, firstRequest?_concat_getOrCreate, answer_getOrCreate, ih,
            ih]
          by_cases same : literal.id = other.id
          · cases first : firstRequest? calls other.id <;> simp [same, first]
          · simp [same, Ne.symm same]

/-- A request is answered with what the first request for the identity made, or has a value
made if it is the first. -/
theorem answer_after (calls : List (Call α)) (literal : Literal) (make : Literal → α) :
    ((after calls).getOrCreate literal make).1 =
      match firstRequest? calls literal.id with
      | some (first, makeFirst) => (makeFirst first, false)
      | none => (make literal, true) := by
  rw [answer_getOrCreate, find?_after]
  cases firstRequest? calls literal.id <;> rfl

/-- Nothing was requested first for an identity just where nothing was requested for it at all. -/
theorem firstRequest?_eq_none_iff {calls : List (Call α)} {id : Nat} :
    firstRequest? calls id = none ↔ ∀ request ∈ requests calls, request.1.id ≠ id := by
  simp [firstRequest?]

/-- Calls that do not clear leave the first request for an identity as it is. -/
theorem firstRequest?_append {calls later : List (Call α)} {id : Nat}
    {request : Literal × (Literal → α)} (first : firstRequest? calls id = some request)
    (uncleared : ∀ call ∈ later, call.clears = false) :
    firstRequest? (calls ++ later) id = some request := by
  induction later using List.reverseRecOn with
  | nil => simpa using first
  | append_singleton later call ih =>
      have before := ih fun other member => uncleared other (List.mem_append_left _ member)
      have keeps := uncleared call (List.mem_append_right _ List.mem_cons_self)
      rw [← List.append_assoc, firstRequest?, requests_concat, keeps]
      rw [firstRequest?] at before
      simp [List.find?_append, before]

/-! ## How many values are kept -/

/-- A value is kept for a literal if its identity stands in an entry. -/
theorem isSome_find?_iff (cache : LiteralCache α) (literal : Literal) :
    (cache.find? literal).isSome ↔ literal.id ∈ cache.entries.map (·.1) := by
  simp [find?]

/-- At most one value is kept for each identity. -/
theorem nodup_entries (calls : List (Call α)) : ((after calls).entries.map (·.1)).Nodup := by
  induction calls using List.reverseRecOn with
  | nil => exact List.nodup_nil
  | append_singleton calls call ih =>
      rw [after_concat]
      cases call with
      | clear => exact List.nodup_nil
      | get literal => exact ih
      | getOrCreate literal make =>
          cases found : (after calls).find? literal with
          | some value => simpa only [Call.run, getOrCreate, found] using ih
          | none =>
              simp only [Call.run, getOrCreate, found, List.map_cons]
              apply List.nodup_cons.mpr
              refine ⟨fun kept => ?_, ih⟩
              have known := (isSome_find?_iff (after calls) literal).mpr kept
              rw [found] at known
              contradiction

/-- Values are kept for the identities that were asked for since the last clear. -/
theorem mem_entries_iff (calls : List (Call α)) (id : Nat) :
    id ∈ (after calls).entries.map (·.1) ↔ id ∈ (requests calls).map (·.1.id) := by
  rw [← isSome_find?_iff (after calls) ⟨id, .nil⟩, find?_after, Option.isSome_map,
    ← not_iff_not, Option.not_isSome_iff_eq_none, firstRequest?_eq_none_iff]
  simp

/-- As many values are kept as different identities were asked for since the last clear. -/
theorem size_after (calls : List (Call α)) :
    (after calls).size = ((requests calls).map (·.1.id)).toFinset.card := by
  have same : ((after calls).entries.map (·.1)).toFinset =
      ((requests calls).map (·.1.id)).toFinset := by
    ext id
    rw [List.mem_toFinset, List.mem_toFinset, mem_entries_iff]
  rw [← same, List.toFinset_card_of_nodup (nodup_entries calls), List.length_map]
  rfl

/-! ## Counters -/

/-- Found values are counted as hits and made ones as misses, whatever the cache was before. -/
theorem counters_foldl (calls : List (Call α)) (cache : LiteralCache α) :
    (calls.foldl (fun cache call => call.run cache) cache).hits =
        cache.hits + (answers cache calls).countP (!·.2) ∧
      (calls.foldl (fun cache call => call.run cache) cache).misses =
        cache.misses + (answers cache calls).countP (·.2) := by
  induction calls generalizing cache with
  | nil => exact ⟨rfl, rfl⟩
  | cons call rest ih =>
      rw [List.foldl_cons, (ih _).1, (ih _).2, answers]
      cases call with
      | clear => exact ⟨rfl, rfl⟩
      | get literal => exact ⟨rfl, rfl⟩
      | getOrCreate literal make =>
          simp only [Call.run, Call.answer?, Option.toList_some, List.singleton_append,
            List.countP_cons]
          cases found : cache.find? literal <;> simp [getOrCreate, found] <;> omega

/-- Every request is answered. -/
theorem length_answers (calls : List (Call α)) (cache : LiteralCache α) :
    (answers cache calls).length = calls.countP (·.request?.isSome) := by
  induction calls generalizing cache with
  | nil => rfl
  | cons call rest ih =>
      rw [answers, List.length_append, ih, List.countP_cons]
      cases call <;> simp [Call.answer?, Call.request?, Nat.add_comm]

/-- A value is found or made for each request. -/
theorem hits_add_misses_after (calls : List (Call α)) :
    (after calls).hits + (after calls).misses = calls.countP (·.request?.isSome) := by
  have found := counters_foldl calls {}
  rw [after, found.1, found.2, ← length_answers calls {}, List.length_eq_countP_add_countP (·.2)]
  simp [Nat.add_comm]

/-! ## One value for each identity between clears -/

/-- What is known of a cache from the calls that it has been through. -/
structure MadeOnce (calls : List (Call α)) : Prop where
  /-- A value is made for the first request for an identity since the last clear,
  and for no other one. -/
  made_iff : ∀ literal make, ((after calls).getOrCreate literal make).1.2 = true ↔
    ∀ request ∈ requests calls, request.1.id ≠ literal.id
  /-- What is made is what the request asks for. -/
  made : ∀ literal make, ((after calls).getOrCreate literal make).1.2 = true →
    ((after calls).getOrCreate literal make).1.1 = make literal
  /-- Any request for the identity since the last clear was answered with the same value. -/
  found : ∀ earlier first makeFirst later,
    calls = earlier ++ .getOrCreate first makeFirst :: later →
    (∀ call ∈ later, call.clears = false) →
      ∀ literal make, literal.id = first.id →
        ((after calls).getOrCreate literal make).1 =
          (((after earlier).getOrCreate first makeFirst).1.1, false)
  /-- Asking for what is kept gets the value that a request would find, or nothing where it would be
  made, and changes nothing. -/
  get : ∀ literal,
    (∀ make, (after calls).find? literal =
      if ((after calls).getOrCreate literal make).1.2 then none
      else some ((after calls).getOrCreate literal make).1.1) ∧
    after (calls ++ [.get literal]) = after calls
  size_eq : (after calls).size = ((requests calls).map (·.1.id)).toFinset.card
  /-- The counters add up over all calls, and count each value that was made. -/
  hits_add_misses : (after calls).hits + (after calls).misses = calls.countP (·.request?.isSome)
  misses_eq : (after calls).misses = (answers {} calls).countP (·.2)

/-- A cache makes one value for each identity between clears, whatever the literals hold and
whatever would make their values. -/
theorem madeOnce (calls : List (Call α)) : MadeOnce calls where
  made_iff := by
    intro literal make
    rw [answer_getOrCreate, find?_after, Option.isNone_map, Option.isNone_iff_eq_none,
      firstRequest?_eq_none_iff]
  made := by
    intro literal make isMade
    rw [answer_getOrCreate] at isMade ⊢
    rw [Option.isNone_iff_eq_none.mp isMade]
    rfl
  found := by
    rintro earlier first makeFirst later rfl uncleared literal make same
    have kept : ∃ request,
        firstRequest? (earlier ++ [.getOrCreate first makeFirst]) first.id = some request ∧
          request.2 request.1 = ((after earlier).getOrCreate first makeFirst).1.1 := by
      have here := find?_after (earlier ++ [.getOrCreate first makeFirst]) first
      rw [after_concat, Call.run, find?_getOrCreate, if_pos rfl] at here
      exact Option.map_eq_some_iff.mp here.symm
    rcases kept with ⟨request, isFirst, valueEq⟩
    rw [List.append_cons, answer_after, same, firstRequest?_append isFirst uncleared, ← valueEq]
  get := by
    intro literal
    refine ⟨fun make => ?_, after_concat calls (.get literal)⟩
    rw [answer_getOrCreate]
    cases (after calls).find? literal <;> rfl
  size_eq := size_after calls
  hits_add_misses := hits_add_misses_after calls
  misses_eq := by
    rw [after, (counters_foldl calls {}).2]
    exact Nat.zero_add _

/-- Two look-alikes have values of their own, and one that has the identity of the first gets its
value, until all values are dropped. -/
example :
    answers (α := Nat) {}
        [.getOrCreate ⟨1, .nil⟩ fun _ => 10, .getOrCreate ⟨2, .nil⟩ fun _ => 20,
          .getOrCreate ⟨1, .boolean true⟩ fun _ => 30, .clear, .getOrCreate ⟨1, .nil⟩ fun _ => 40] =
      [(10, true), (20, true), (10, false), (40, true)] := by
  decide

/-- A request for one identity has no part in what is kept for another one, however
alike the literals are. -/
theorem find?_getOrCreate_of_ne (cache : LiteralCache α) {literal other : Literal}
    (make : Literal → α) (apart : other.id ≠ literal.id) :
    (cache.getOrCreate literal make).2.find? other = cache.find? other := by
  rw [find?_getOrCreate, if_neg apart]

end FlowIR.LiteralCache
