import FlowIR.Json.Codec
import FlowIR.Proofs.Json.Reading

/-!
# Lawful codecs

Numbers are exchanged with a fixed number of bits, so not every value of a type can be: the values
that can are in range.  A codec is lawful when what it writes is read back as the value for the
values in range and refused for the others.  Then the text of a value determines it.
-/

namespace FlowIR

/-- Types some of whose values are too large to be exchanged. -/
class Ranged (α : Type) where
  InRange : α → Prop

open Json
open Ranged (InRange)

/-- A codec that reads back what it writes of the values in range, and nothing of the others. -/
class LawfulCodec (α : Type) [JsonCodec α] [Ranged α] : Prop where
  integral_encode (value : α) : (JsonCodec.encode value).Integral
  /-- A value can be told from the absence of one. -/
  encode_ne_null (value : α) : JsonCodec.encode value ≠ null
  decode_encode_iff {value other : α} :
    JsonCodec.decode (JsonCodec.encode value) = some other ↔ InRange value ∧ value = other

open LawfulCodec (integral_encode encode_ne_null decode_encode_iff)

/-! ## Texts -/

namespace JsonCodec

variable {α : Type} [JsonCodec α] [Ranged α] [LawfulCodec α]

theorem readText_writeText (value : α) : readText α (writeText value) = decode (encode value) := by
  rw [readText, writeText, (integral_encode value).parse_compact]
  rfl

/-- The text of a value is read as the value exactly when it is in range. -/
theorem readText_writeText_iff (value : α) :
    readText α (writeText value) = some value ↔ InRange value := by
  rw [readText_writeText, decode_encode_iff]
  simp

/-- A value is read back from its text exactly when it is in range, and values in range that have
the same text are the same. -/
structure Faithful (α : Type) [JsonCodec α] [Ranged α] : Prop where
  readText_iff (value : α) : readText α (writeText value) = some value ↔ InRange value
  writeText_inj {value other : α} (inRange : InRange value) (otherInRange : InRange other)
    (same : writeText value = writeText other) : value = other

theorem faithful (α : Type) [JsonCodec α] [Ranged α] [LawfulCodec α] : Faithful α where
  readText_iff value := readText_writeText_iff value
  writeText_inj {value other} inRange otherInRange same := by
    have first := (readText_writeText_iff value).mpr inRange
    have second := (readText_writeText_iff other).mpr otherInRange
    rw [same, second] at first
    exact (Option.some.inj first).symm

end JsonCodec

/-! ## Numbers -/

namespace Json

@[simp] theorem natUpTo?_nat_eq_some_iff {greatest n m : Nat} :
    natUpTo? greatest (nat n) = some m ↔ n ≤ greatest ∧ n = m := by
  show (if n ≤ greatest then some n else none) = some m ↔ _
  simp

@[simp] theorem signed64?_integer_eq_some_iff {n m : Int} :
    signed64? (integer n) = some m ↔
      (-9223372036854775808 ≤ n ∧ n < 9223372036854775808) ∧ n = m := by
  simp [signed64?]

/-! ## Values without other numbers than integers -/

theorem integral_record {members : List (String × Json)}
    (each : members.Forall fun member => member.2.Integral) : (record members).Integral := by
  refine .object _ fun member listed => ?_
  rcases List.mem_map.mp listed with ⟨named, there, rfl⟩
  exact List.forall_iff_forall_mem.mp each named there

theorem integral_tagged (name : String) {content : Json} (integral : content.Integral) :
    (tagged name content).Integral :=
  integral_record integral

end Json

/-! ## Optional values and lists -/

section

variable {α : Type} [Ranged α]

instance : Ranged (Option α) where
  InRange value := ∀ held ∈ value, InRange held

instance : Ranged (List α) where
  InRange values := ∀ value ∈ values, InRange value

@[simp] theorem inRange_none : InRange (none : Option α) := by
  intro held found
  cases found

@[simp] theorem inRange_some (value : α) : InRange (some value) ↔ InRange value := by
  simp [InRange]

@[simp] theorem inRange_nil : InRange ([] : List α) := by
  intro value listed
  cases listed

@[simp] theorem inRange_cons (value : α) (values : List α) :
    InRange (value :: values) ↔ InRange value ∧ InRange values := by
  simp [InRange]

@[simp] theorem inRange_append (values others : List α) :
    InRange (values ++ others) ↔ InRange values ∧ InRange others := by
  simp [InRange, or_imp, forall_and]

@[simp] theorem inRange_toList (value : Option α) : InRange value.toList ↔ InRange value := by
  simp [InRange]

variable [JsonCodec α] [LawfulCodec α]

theorem integral_orNull (value : Option α) : (orNull (value.map JsonCodec.encode)).Integral := by
  cases value with
  | none => exact .null
  | some value => exact integral_encode value

theorem integral_array (values : List α) : (array (values.map JsonCodec.encode)).Integral := by
  refine .array _ fun item listed => ?_
  rcases List.mem_map.mp listed with ⟨value, -, rfl⟩
  exact integral_encode value

@[simp] theorem optional?_orNull_eq_some_iff {value other : Option α} :
    optional? JsonCodec.decode (orNull (value.map JsonCodec.encode)) = some other ↔
      InRange value ∧ value = other := by
  cases value with
  | none => simp [orNull, optional?]
  | some value =>
      have present : optional? (α := α) JsonCodec.decode (JsonCodec.encode value) =
          (JsonCodec.decode (JsonCodec.encode value)).map some := by
        unfold optional?
        split
        · next absent => exact absurd absent (encode_ne_null value)
        · rfl
      simp [orNull, present, Option.map_eq_some_iff, decode_encode_iff, and_assoc]

@[simp] theorem list?_array_eq_some_iff {values others : List α} :
    list? JsonCodec.decode (array (values.map JsonCodec.encode)) = some others ↔
      InRange values ∧ values = others := by
  rw [list?, List.mapM_map]
  induction values generalizing others with
  | nil => simp [eq_comm]
  | cons value values ih => simp [Option.bind_eq_some_iff, decode_encode_iff, ih, and_assoc]

end

end FlowIR
