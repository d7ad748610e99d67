import FlowIR.Json.Printer
import FlowIR.Json.Reader
import Mathlib.Data.List.Basic
import Mathlib.Tactic.SplitIfs

/-!
# Reading what was written

A JSON text that was written without blanks is read back as the value it was written for.  Every
part of the reader is shown to take off exactly what the matching part of the writer has put in
front, whatever follows: a string ends at its quote, an array and an object at their brackets, and a
number where something follows that cannot belong to it.

Numbers that are kept as they are spelt are left out, since a spelling need not be one of a number.
-/

namespace FlowIR.Json

/-! ## Strings -/

/-- A piece in front of what is read after it. -/
def Piece.onto (piece : Piece) (read : List Piece × List Char) : List Piece × List Char :=
  (piece :: read.1, read.2)

theorem hexValue?_hexDigit {n : Nat} (small : n < 16) : hexValue? (hexDigit n) = some n :=
  (by decide : ∀ n < 16, hexValue? (hexDigit n) = some n) n small

/-- The four digits with which a control character is escaped. -/
theorem hexValue4?_control {n : Nat} (control : n < 0x20) :
    hexValue4? '0' '0' (hexDigit (n / 16)) (hexDigit (n % 16)) = some n := by
  rw [hexValue4?, hexValue?_hexDigit (by omega : n / 16 < 16),
    hexValue?_hexDigit (by omega : n % 16 < 16)]
  exact congrArg some (by omega : ((0 * 16 + 0) * 16 + n / 16) * 16 + n % 16 = n)

theorem readPieces_plain {c : Char} (quote : c ≠ '"') (backslash : c ≠ '\\')
    (control : ¬ c.toNat < 0x20) (cs : List Char) :
    readPieces (c :: cs) = (readPieces cs).map (Piece.plain c).onto := by
  rw [readPieces, if_neg (by simp [backslash, control])]
  · cases readPieces cs <;> rfl
  · exact fun same => absurd same quote
  · exact fun _ _ _ _ _ same => absurd same backslash
  · exact fun _ _ same => absurd same backslash

theorem readPieces_short (e : Char) {c : Char} (known : shortEscape? e = some c) (cs : List Char) :
    readPieces ('\\' :: e :: cs) = (readPieces cs).map (Piece.plain c).onto := by
  have letter : e ≠ 'u' := by
    rintro rfl
    cases known
  rw [readPieces, known]
  · cases readPieces cs <;> rfl
  · exact fun _ _ _ _ _ same => absurd same letter

theorem readPieces_unit {a b c d : Char} {unit : Nat} (known : hexValue4? a b c d = some unit)
    (cs : List Char) :
    readPieces ('\\' :: 'u' :: a :: b :: c :: d :: cs) =
      (readPieces cs).map (pieceOf unit).onto := by
  rw [readPieces, known]
  cases readPieces cs <;> rfl

/-- An escaped character is read as the character. -/
theorem readPieces_escape (c : Char) (cs : List Char) :
    readPieces (escape c ++ cs) = (readPieces cs).map (Piece.plain c).onto := by
  unfold escape
  split_ifs with quote backslash back tab feed form carriage control
  · exact readPieces_short '"' (congrArg some quote.symm) cs
  · exact readPieces_short '\\' (congrArg some backslash.symm) cs
  · exact readPieces_short 'b' (congrArg some back.symm) cs
  · exact readPieces_short 't' (congrArg some tab.symm) cs
  · exact readPieces_short 'n' (congrArg some feed.symm) cs
  · exact readPieces_short 'f' (congrArg some form.symm) cs
  · exact readPieces_short 'r' (congrArg some carriage.symm) cs
  · have piece : pieceOf c.toNat = .plain c := by
      rw [pieceOf, if_neg (by omega), Char.ofNat_toNat]
    rw [← piece]
    exact readPieces_unit (hexValue4?_control control) cs
  · exact readPieces_plain quote backslash control cs

/-- Escaped characters up to the closing quote are read as the characters. -/
theorem readPieces_escaped (s rest : List Char) :
    readPieces (s.flatMap escape ++ '"' :: rest) = some (s.map .plain, rest) := by
  induction s with
  | nil => simp [readPieces]
  | cons c s ih =>
      rw [List.flatMap_cons, List.append_assoc, readPieces_escape, ih]
      rfl

theorem joinPieces_plain (s : List Char) : joinPieces (s.map .plain) = some s := by
  induction s with
  | nil => rfl
  | cons c s ih => simp [joinPieces, ih]

theorem exists_writeString_eq_cons (s : Option String) : ∃ tail, writeString s = '"' :: tail := by
  cases s <;> exact ⟨_, rfl⟩

/-- A written string is read back once its opening quote has been taken off. -/
theorem readString_written (s : Option String) {tail : List Char}
    (written : writeString s = '"' :: tail) (rest : List Char) :
    readString (tail ++ rest) = some (s, rest) := by
  cases s with
  | none =>
      obtain rfl := (List.cons.inj written).2
      rfl
  | some s =>
      obtain rfl := (List.cons.inj written).2
      simp [readString, readPieces_escaped, joinPieces_plain]

/-! ## Numbers -/

/-- What may follow a number without being taken for a part of it. -/
def EndsNumber (rest : List Char) : Prop :=
  ∀ c ∈ rest.head?, c.isDigit = false ∧ c ≠ '.' ∧ c ≠ 'e' ∧ c ≠ 'E'

theorem isDigit_of_mem_toDigits {n : Nat} {c : Char} (listed : c ∈ Nat.toDigits 10 n) : c.isDigit :=
  Nat.isDigit_of_mem_toDigits (by decide) (by decide) listed

theorem ne_of_isDigit {c d : Char} (digit : c.isDigit) (other : d.isDigit = false) : c ≠ d := by
  rintro rfl
  exact absurd digit (by simp [other])

theorem readDigits_toDigits (n : Nat) {rest : List Char} (ends : EndsNumber rest) :
    readDigits (Nat.toDigits 10 n ++ rest) = some (Nat.toDigits 10 n, rest) := by
  have digits : ∀ c ∈ Nat.toDigits 10 n, c.isDigit := fun c => isDigit_of_mem_toDigits
  have stop : rest.takeWhile Char.isDigit = [] ∧ rest.dropWhile Char.isDigit = rest := by
    cases rest with
    | nil => exact ⟨rfl, rfl⟩
    | cons c rest => simp [(ends c rfl).1]
  have taken : (Nat.toDigits 10 n ++ rest).takeWhile Char.isDigit = Nat.toDigits 10 n := by
    rw [List.takeWhile_append_of_pos digits, stop.1, List.append_nil]
  have dropped : (Nat.toDigits 10 n ++ rest).dropWhile Char.isDigit = rest := by
    rw [List.dropWhile_append_of_pos digits, stop.2]
  rw [readDigits, taken, dropped]
  split
  · next empty => exact absurd empty Nat.toDigits_ne_nil
  · rfl

/-- Only zero starts with the digit zero. -/
theorem eq_zero_of_head?_toDigits {n : Nat}
    (zero : (Nat.toDigits 10 n).head? = some '0') : n = 0 := by
  induction n using Nat.strongRecOn with
  | ind n ih =>
    rw [Nat.toDigits_eq_if (by decide)] at zero
    split at zero
    · next small =>
        exact (by decide : ∀ n < 10, [n.digitChar].head? = some '0' → n = 0) n small zero
    · next large =>
        rw [List.head?_append_of_ne_nil _ Nat.toDigits_ne_nil] at zero
        have := ih (n / 10) (by omega) zero
        omega

theorem readFraction_of_endsNumber {rest : List Char} (ends : EndsNumber rest) :
    readFraction rest = some ([], rest) := by
  unfold readFraction
  split
  · exact absurd rfl (ends '.' rfl).2.1
  · rfl

theorem readExponent_of_endsNumber {rest : List Char} (ends : EndsNumber rest) :
    readExponent rest = some ([], rest) := by
  cases rest with
  | nil => rfl
  | cons c rest =>
      rcases ends c rfl with ⟨-, -, small, large⟩
      simp [readExponent, small, large]

theorem readUnsigned_toDigits (negative : Bool) {n : Nat} (sound : negative → n ≠ 0)
    {rest : List Char} (ends : EndsNumber rest) :
    readUnsigned negative (Nat.toDigits 10 n ++ rest) =
      some (.integer (if negative then - (n : Int) else n), rest) := by
  have leading : ¬ ((Nat.toDigits 10 n).head? = some '0' ∧ 1 < (Nat.toDigits 10 n).length) := by
    rintro ⟨zero, long⟩
    rw [eq_zero_of_head?_toDigits zero] at long
    exact absurd long (by decide)
  have plain : ¬ (negative ∧ n = 0) := fun zero => sound zero.1 zero.2
  rw [readUnsigned, readDigits_toDigits n ends]
  simp [leading, readFraction_of_endsNumber ends, readExponent_of_endsNumber ends,
    Nat.ofDigitChars_ten_toDigits, plain]

/-- An integer is written with a sign or a digit first. -/
theorem exists_writeInteger_eq_cons (n : Int) :
    ∃ c tail, writeInteger n = c :: tail ∧ (c = '-' ∨ c.isDigit) := by
  cases n with
  | ofNat n =>
      rcases List.exists_cons_of_ne_nil (Nat.toDigits_ne_nil (n := n) (b := 10)) with
        ⟨c, tail, digits⟩
      exact ⟨c, tail, digits, .inr (isDigit_of_mem_toDigits (digits ▸ List.mem_cons_self))⟩
  | negSucc n => exact ⟨'-', _, rfl, .inl rfl⟩

theorem readNumber_writeInteger (n : Int) {rest : List Char} (ends : EndsNumber rest) :
    readNumber (writeInteger n ++ rest) = some (.integer n, rest) := by
  cases n with
  | ofNat n =>
      show readNumber (Nat.toDigits 10 n ++ rest) = _
      unfold readNumber
      split
      · next tail signed =>
          have sign : '-' ∈ Nat.toDigits 10 n := by
            rcases List.append_eq_cons_iff.mp signed with ⟨empty, -⟩ | ⟨_, digits, -⟩
            · exact absurd empty Nat.toDigits_ne_nil
            · exact digits ▸ List.mem_cons_self
          exact absurd (isDigit_of_mem_toDigits sign) (by decide)
      · exact readUnsigned_toDigits false (by simp) ends
  | negSucc n =>
      show readUnsigned true (Nat.toDigits 10 (n + 1) ++ rest) = _
      rw [readUnsigned_toDigits true (by simp) ends]
      rfl

/-! ## Values -/

/-- A value all of whose numbers are integers. -/
inductive Integral : Json → Prop
  | null : Integral .null
  | boolean (value : Bool) : Integral (.boolean value)
  | integer (value : Int) : Integral (.integer value)
  | string (text : Option String) : Integral (.string text)
  | array (items : List Json) (each : ∀ item ∈ items, Integral item) : Integral (.array items)
  | object (members : List (Option String × Json)) (each : ∀ member ∈ members, Integral member.2) :
      Integral (.object members)

/-- The text of a value is read back as that value when there is depth enough for its length. -/
def Reads (value : Json) : Prop :=
  ∀ (depth : Nat) (rest : List Char), 2 * (write value).length ≤ depth → EndsNumber rest →
    readValue depth (write value ++ rest) = some (value, rest)

/-- What a value starts with: no blank, and no bracket that ends an array. -/
theorem Integral.exists_write_eq_cons {value : Json} (integral : Integral value) :
    ∃ c tail, write value = c :: tail ∧ isBlank c = false ∧ c ≠ ']' := by
  cases integral with
  | null => exact ⟨_, _, rfl, rfl, by decide⟩
  | boolean value => cases value <;> exact ⟨_, _, rfl, rfl, by decide⟩
  | integer n =>
      rcases exists_writeInteger_eq_cons n with ⟨c, tail, digits, rfl | digit⟩
      · exact ⟨'-', tail, digits, rfl, by decide⟩
      · have blank : isBlank c = false := by
          simp [isBlank, ne_of_isDigit digit]
        exact ⟨c, tail, digits, blank, ne_of_isDigit digit rfl⟩
  | string s => cases s <;> exact ⟨_, _, rfl, rfl, by decide⟩
  | array items => exact ⟨_, _, rfl, rfl, by decide⟩
  | object members => exact ⟨_, _, rfl, rfl, by decide⟩

theorem skipBlanks_cons {c : Char} (blank : isBlank c = false) (cs : List Char) :
    skipBlanks (c :: cs) = c :: cs := by
  simp [skipBlanks, blank]

theorem Integral.skipBlanks_write {value : Json} (integral : Integral value) (rest : List Char) :
    skipBlanks (write value ++ rest) = write value ++ rest := by
  rcases integral.exists_write_eq_cons with ⟨c, tail, written, blank, -⟩
  rw [written, List.cons_append, skipBlanks_cons blank]

/-- Once the first item is read, what follows it decides. -/
theorem readItems_step {item : Json} (reads : Reads item) {depth : Nat}
    (deep : 2 * (write item).length ≤ depth) {after : List Char} (ends : EndsNumber after) :
    readItems (depth + 1) (write item ++ after) =
      match skipBlanks after with
      | ']' :: left => some ([item], left)
      | ',' :: rest => do
          let (items, left) ← readItems depth (skipBlanks rest)
          return (item :: items, left)
      | _ => none := by
  rw [readItems, reads depth after deep ends]
  rfl

/-- Once the first member is read, what follows it decides. -/
theorem readMembers_step (key : Option String) {value : Json} (integral : Integral value)
    (reads : Reads value) {depth : Nat} (deep : 2 * (write value).length ≤ depth)
    {after : List Char} (ends : EndsNumber after) :
    readMembers (depth + 1) (writeString key ++ ':' :: (write value ++ after)) =
      match skipBlanks after with
      | '\x7d' :: left => some ([(key, value)], left)
      | ',' :: rest => do
          let (members, left) ← readMembers depth (skipBlanks rest)
          return ((key, value) :: members, left)
      | _ => none := by
  rcases exists_writeString_eq_cons key with ⟨tail, quoted⟩
  rw [quoted, List.cons_append, readMembers, readString_written key quoted]
  simp only [Option.bind_eq_bind, Option.bind_some, skipBlanks_cons (c := ':') rfl,
    integral.skipBlanks_write, reads depth after deep ends]
  rfl

/-- The items of an array are read back up to the closing bracket. -/
theorem readItems_written {item : Json} {items : List Json}
    (reads : ∀ value ∈ item :: items, Integral value ∧ Reads value) (depth : Nat)
    (deep : 2 * (write item ++ writeMoreItems items).length ≤ depth) (rest : List Char) :
    readItems depth (write item ++ (writeMoreItems items ++ rest)) =
      some (item :: items, rest) := by
  rcases reads item List.mem_cons_self with ⟨-, first⟩
  induction items generalizing item depth with
  | nil =>
      simp only [List.length_append, writeMoreItems, List.length_singleton] at deep
      obtain ⟨depth, rfl⟩ := Nat.exists_eq_add_of_le' (by omega : 1 ≤ depth)
      rw [readItems_step first (by omega) (by simp [EndsNumber, writeMoreItems])]
      simp [writeMoreItems, skipBlanks_cons (c := ']') rfl]
  | cons next items ih =>
      simp only [List.length_append, writeMoreItems, List.length_cons] at deep
      obtain ⟨depth, rfl⟩ := Nat.exists_eq_add_of_le' (by omega : 1 ≤ depth)
      rcases reads next (by simp) with ⟨integral, second⟩
      have others := ih (fun value listed => reads value (List.mem_cons_of_mem _ listed)) depth
        (by rw [List.length_append]; omega) second
      rw [readItems_step first (by omega) (by simp [EndsNumber, writeMoreItems])]
      simp [writeMoreItems, skipBlanks_cons (c := ',') rfl, integral.skipBlanks_write, others]

/-- The members of an object are read back up to the closing brace. -/
theorem readMembers_written {key : Option String} {value : Json}
    {members : List (Option String × Json)}
    (reads : ∀ member ∈ (key, value) :: members, Integral member.2 ∧ Reads member.2) (depth : Nat)
    (deep : 2 * (writeMembers ((key, value) :: members)).length ≤ depth) (rest : List Char) :
    readMembers depth (writeString key ++
      ':' :: (write value ++ (writeMoreMembers members ++ rest))) =
      some ((key, value) :: members, rest) := by
  rcases reads (key, value) List.mem_cons_self with ⟨integral, first⟩
  dsimp only at integral first
  induction members generalizing key value depth with
  | nil =>
      simp only [List.length_append, writeMembers, writeMoreMembers, List.length_cons] at deep
      obtain ⟨depth, rfl⟩ := Nat.exists_eq_add_of_le' (by omega : 1 ≤ depth)
      rw [readMembers_step key integral first (by omega) (by simp [EndsNumber, writeMoreMembers])]
      simp [writeMoreMembers, skipBlanks_cons (c := '\x7d') rfl]
  | cons next members ih =>
      rcases next with ⟨nextKey, next⟩
      simp only [List.length_append, writeMembers, writeMoreMembers, List.length_cons] at deep
      obtain ⟨depth, rfl⟩ := Nat.exists_eq_add_of_le' (by omega : 1 ≤ depth)
      rcases reads (nextKey, next) (by simp) with ⟨nextIntegral, second⟩
      have others := ih (fun member listed => reads member (List.mem_cons_of_mem _ listed)) depth
        (by simp only [List.length_append, writeMembers, List.length_cons]; omega) nextIntegral
          second
      rcases exists_writeString_eq_cons nextKey with ⟨tail, quoted⟩
      rw [quoted, List.cons_append] at others
      rw [readMembers_step key integral first (by omega) (by simp [EndsNumber, writeMoreMembers])]
      simp [writeMoreMembers, skipBlanks_cons (c := ',') rfl, skipBlanks_cons (c := '"') rfl,
        quoted, others]

/-- Some depth is left for a value, whose text is never empty. -/
theorem Integral.reads_of {value : Json} (integral : Integral value)
    (reads : ∀ (depth : Nat) (rest : List Char), 2 * (write value).length ≤ depth + 1 →
      EndsNumber rest → readValue (depth + 1) (write value ++ rest) = some (value, rest)) :
    Reads value := by
  intro depth rest deep ends
  rcases integral.exists_write_eq_cons with ⟨c, tail, written, -⟩
  cases depth with
  | zero => simp [written] at deep
  | succ depth => exact reads depth rest deep ends

theorem readValue_number {c : Char} (first : c = '-' ∨ c.isDigit) (depth : Nat) (tail : List Char) :
    readValue (depth + 1) (c :: tail) = readNumber (c :: tail) := by
  unfold readValue
  split <;> simp_all

theorem readValue_array {c : Char} (blank : isBlank c = false) (bracket : c ≠ ']') (depth : Nat)
    (cs : List Char) :
    readValue (depth + 1) ('[' :: c :: cs) =
      (readItems depth (c :: cs)).map fun read => (.array read.1, read.2) := by
  rw [readValue, skipBlanks_cons blank]
  split
  · next left closed => exact absurd (List.cons.inj closed).1 bracket
  · cases readItems depth (c :: cs) <;> rfl

theorem readValue_object (depth : Nat) (cs : List Char) :
    readValue (depth + 1) ('\x7b' :: '"' :: cs) =
      (readMembers depth ('"' :: cs)).map fun read => (.object read.1, read.2) := by
  rw [readValue, skipBlanks_cons (by rfl)]
  split
  · next left closed => exact absurd (List.cons.inj closed).1 (by decide)
  · cases readMembers depth ('"' :: cs) <;> rfl

/-- A value whose numbers are integers is read back from its text, whatever follows it. -/
theorem Integral.reads {value : Json} (integral : Integral value) : Reads value := by
  induction integral with
  | null => exact Integral.null.reads_of fun depth rest deep ends => rfl
  | boolean value =>
      refine (Integral.boolean value).reads_of fun depth rest deep ends => ?_
      cases value <;> rfl
  | integer n =>
      refine (Integral.integer n).reads_of fun depth rest deep ends => ?_
      rcases exists_writeInteger_eq_cons n with ⟨c, tail, digits, first⟩
      have number := readNumber_writeInteger n ends
      rw [digits, List.cons_append] at number
      rw [write, digits, List.cons_append, readValue_number first, number]
  | string text =>
      refine (Integral.string text).reads_of fun depth rest deep ends => ?_
      rcases exists_writeString_eq_cons text with ⟨tail, quoted⟩
      rw [write, quoted, List.cons_append, readValue, readString_written text quoted]
      rfl
  | array items each ih =>
      refine (Integral.array items each).reads_of fun depth rest deep ends => ?_
      cases items with
      | nil => rfl
      | cons item items =>
          simp only [write, writeItems, List.length_cons] at deep
          have inner := readItems_written (fun value listed => ⟨each value listed, ih value listed⟩)
            depth (by omega) rest
          rcases (each item List.mem_cons_self).exists_write_eq_cons with
            ⟨c, tail, written, blank, bracket⟩
          rw [written, List.cons_append] at inner
          simp [write, writeItems, written, readValue_array blank bracket, inner]
  | object members each ih =>
      refine (Integral.object members each).reads_of fun depth rest deep ends => ?_
      cases members with
      | nil => rfl
      | cons member members =>
          rcases member with ⟨key, value⟩
          simp only [write, List.length_cons] at deep
          have inner :=
            readMembers_written (fun member listed => ⟨each member listed, ih member listed⟩)
            depth (by omega) rest
          rcases exists_writeString_eq_cons key with ⟨tail, quoted⟩
          rw [quoted, List.cons_append] at inner
          simp [write, writeMembers, quoted, readValue_object, inner]

/-- A value whose numbers are integers is the value of its text. -/
theorem Integral.parse_compact {value : Json} (integral : Integral value) :
    parse (compact value) = some value := by
  have read := integral.reads (2 * (write value).length + 2) [] (by omega) (by simp [EndsNumber])
  have start := integral.skipBlanks_write []
  rw [List.append_nil] at read start
  rw [parse, compact, String.toList_ofList, parseChars, start, read]
  rfl

end FlowIR.Json
