import FlowIR.Proofs.Json.Reading
import FlowIR.Proofs.Yaml.Layout
import FlowIR.Yaml.CoreScalar
import Mathlib.Data.List.Nodup

/-!
# Values of plain words

Numbers in decimal digits and truth values are plain words that stand for what was written, and a
mapping that has every field once gives the fields back.
-/

namespace FlowIR.Yaml

/-! ## Numbers -/

theorem isDigit_iff {c : Char} : c.isDigit = true ↔ '0' ≤ c ∧ c ≤ '9' := by
  rw [Char.isDigit, Bool.and_eq_true, decide_eq_true_eq, decide_eq_true_eq]
  rfl

/-- The digits of a number are a plain word. -/
theorem plainWord_toDigits (n : Nat) : PlainWord (Nat.toDigits 10 n) where
  ne_nil := Nat.toDigits_ne_nil
  plain c listed := by
    have digit : c.isDigit := Json.isDigit_of_mem_toDigits listed
    have sign : c ≠ '-' := Json.ne_of_isDigit digit rfl
    simp [isPlain, isWord, isDigit_iff.mp digit, sign]

theorem digitIn?_of_isDigit {c : Char} (digit : c.isDigit = true) :
    digitIn? 10 c = some (c.toNat - '0'.toNat) := by
  have bounds := isDigit_iff.mp digit
  have small : c.toNat - 48 < 10 := by
    have top : c.toNat ≤ 57 := bounds.2
    omega
  simp [digitIn?, hexValue?, bounds, small]

/-- Decimal digits are read as the number they spell. -/
theorem numberIn?_ten {digits : List Char} (nonempty : digits ≠ [])
    (decimal : ∀ c ∈ digits, c.isDigit = true) (greatest : Nat) :
    numberIn? 10 greatest digits =
      if Nat.ofDigitChars 10 digits 0 ≤ greatest then some (Nat.ofDigitChars 10 digits 0)
      else none := by
  have values : digits.mapM (digitIn? 10) = some (digits.map fun c => c.toNat - '0'.toNat) := by
    clear nonempty
    induction digits with
    | nil => rfl
    | cons c digits ih =>
        rw [List.mapM_cons, digitIn?_of_isDigit (decimal c List.mem_cons_self),
          ih fun d member => decimal d (List.mem_cons_of_mem _ member)]
        rfl
  have spelt : (digits.map fun c => c.toNat - '0'.toNat).foldl (fun n value => n * 10 + value) 0 =
      Nat.ofDigitChars 10 digits 0 := by
    rw [List.foldl_map, Nat.ofDigitChars]
    simp only [Nat.mul_comm]
  rw [numberIn?, if_neg nonempty, values]
  simp only [bind, Option.bind_some, spelt]

/-- A number is read back from its digits, up to the greatest that is read. -/
theorem natural?_toDigits (greatest n : Nat) :
    natural? greatest (Nat.toDigits 10 n) = if n ≤ greatest then some n else none := by
  have digits : ∀ c ∈ Nat.toDigits 10 n, c.isDigit = true := fun c => Json.isDigit_of_mem_toDigits
  have decimal : numberIn? 10 greatest (Nat.toDigits 10 n) =
      if n ≤ greatest then some n else none := by
    rw [numberIn?_ten Nat.toDigits_ne_nil digits, Nat.ofDigitChars_ten_toDigits]
  have unsigned : (Nat.toDigits 10 n).head? ≠ some '+' := by
    intro sign
    exact absurd (digits '+' (List.mem_of_head? sign)) (by decide)
  have leading : (Nat.toDigits 10 n).head? = some '0' → Nat.toDigits 10 n = ['0'] := by
    intro zero
    rw [Json.eq_zero_of_head?_toDigits zero]
    rfl
  rw [natural?, if_neg unsigned]
  split
  case h_5 => exact decimal
  all_goals
    next same => exact absurd (leading (by rw [same]; rfl)) (by simp [same])

theorem isNull_toDigits (n : Nat) : isNull (Nat.toDigits 10 n) = false := by
  have lettered : ∀ word ∈ ["null", "Null", "NULL", "~"], word.toList.all Char.isDigit = false := by
    decide
  rw [isNull, List.contains_eq_mem, decide_eq_false_iff_not]
  intro member
  have other := lettered _ member
  rw [String.toList_ofList, List.all_eq_true.mpr fun c => Json.isDigit_of_mem_toDigits] at other
  contradiction

namespace Document

/-- A number is read where it may be left out. -/
theorem optional?_toDigits (document : Document) (greatest n : Nat) :
    document.optional? (natUpTo? greatest) (.scalar none .plain (Nat.toDigits 10 n)) =
      if n ≤ greatest then some (some n) else none := by
  have there : ¬ (Nat.toDigits 10 n = [] ∨ isNull (Nat.toDigits 10 n) = true) := by
    simp [Nat.toDigits_ne_nil, isNull_toDigits]
  have read : natUpTo? greatest document (.scalar none .plain (Nat.toDigits 10 n)) =
      natural? greatest (Nat.toDigits 10 n) := rfl
  simp only [optional?, resolve, if_neg there, read, natural?_toDigits]
  split <;> rfl

/-! ## Truth values -/

/-- A truth value is read where it may be left out. -/
theorem optional?_toString (document : Document) (value : Bool) :
    document.optional? boolean? (.scalar none .plain (toString value).toList) =
      some (some value) := by
  cases value <;> rfl

/-! ## Fields -/

section Fields

variable {entries : List (String × Node)}

/-- The keys of a mapping as they were written. -/
theorem mapM_text? (document : Document) (entries : List (String × Node)) :
    (entries.map fun entry => (Node.scalar none .plain entry.1.toList, entry.2)).mapM
      (fun pair => (document.text? pair.1).map fun key => (key, pair.2)) = some entries := by
  induction entries with
  | nil => rfl
  | cons entry entries ih =>
      have key : document.text? (.scalar none .plain entry.1.toList) = some entry.1 := by
        simp [text?, resolve]
      rw [List.map_cons, List.mapM_cons, ih, key]
      rfl

theorem countP_name_le_one (nodup : (entries.map (·.1)).Nodup) (name : String) :
    entries.countP (·.1 = name) ≤ 1 := by
  have count : entries.countP (·.1 = name) = (entries.map (·.1)).count name := by
    rw [List.count, List.countP_map]
    rfl
  rw [count]
  exact List.nodup_iff_count_le_one.mp nodup name

theorem find?_name (nodup : (entries.map (·.1)).Nodup) {entry : String × Node}
    (member : entry ∈ entries) :
    entries.find? (·.1 = entry.1) = some entry := by
  cases find : entries.find? (·.1 = entry.1) with
  | none => simpa using List.find?_eq_none.mp find entry member
  | some other =>
      have same : other.1 = entry.1 := by simpa using List.find?_some find
      rw [List.inj_on_of_nodup_map nodup (List.mem_of_find?_eq_some find) member same]

/-- A mapping that has exactly the given fields, each once, gives their contents. -/
theorem fields?_all (document : Document) (entries : List (String × Node))
    (nodup : (entries.map (·.1)).Nodup) :
    document.fields? (entries.map (·.1))
        (.mapping (entries.map fun entry => (.scalar none .plain entry.1.toList, entry.2))) =
      some (entries.map fun entry => some entry.2) := by
  have known : entries.all ((entries.map (·.1)).contains ·.1) = true := by
    simp only [List.all_eq_true, List.contains_eq_mem, decide_eq_true_eq]
    exact fun entry member => List.mem_map_of_mem member
  have once : (entries.map (·.1)).any (fun name => decide (1 < entries.countP (·.1 = name))) =
      false :=
    List.any_eq_false.mpr fun name _ => by simpa using countP_name_le_one nodup name
  have contents : (entries.map (·.1)).map (fun name => (entries.find? (·.1 = name)).map (·.2)) =
      entries.map fun entry => some entry.2 := by
    rw [List.map_map]
    refine List.map_congr_left fun entry member => ?_
    rw [Function.comp_apply, find?_name nodup member]
    rfl
  have pairs : document.pairs? (.mapping (entries.map fun entry =>
      (.scalar none .plain entry.1.toList, entry.2))) = some _ := rfl
  rw [fields?, pairs]
  simp only [bind, Option.bind_some, mapM_text?, known, once, contents]
  rfl

end Fields

end Document

end FlowIR.Yaml
