import FlowIR.Json.Printer
import FlowIR.Json.Reader

/-!
# Values as JSON

How a type of the library is written as JSON and read back.  A record is an object with a member
for each field, or an array of the fields in order; in an object, members may come in any order, a
field may not come twice, and a field with an optional value may be left out.  An alternative of a
sum is an object whose only key is its name, or the name alone when it carries nothing.
-/

namespace FlowIR

/-- Types that are written as JSON and read back. -/
class JsonCodec (α : Type) where
  encode : α → Json
  decode : Json → Option α

namespace JsonCodec

/-- The text of a value. -/
def writeText {α : Type} [JsonCodec α] (value : α) : String :=
  (encode value).compact

/-- The value of a text. -/
def readText (α : Type) [JsonCodec α] (text : String) : Option α := do
  decode (← Json.parse text)

end JsonCodec

namespace Json

/-! ## Simple values -/

/-- A natural number up to a greatest one. -/
def natUpTo? (greatest : Nat) : Json → Option Nat
  | integer (.ofNat n) => if n ≤ greatest then some n else none
  | _ => none

/-- The greatest number of 32 bits. -/
def greatest32 : Nat := 4294967295

/-- The greatest number of 64 bits. -/
def greatest64 : Nat := 18446744073709551615

/-- A signed number of 64 bits. -/
def signed64? : Json → Option Int
  | integer n => if -9223372036854775808 ≤ n ∧ n < 9223372036854775808 then some n else none
  | _ => none

/-- A text. -/
def text? : Json → Option String
  | string s => s
  | _ => none

/-- A truth value. -/
def boolean? : Json → Option Bool
  | boolean b => some b
  | _ => none

/-- A list of values. -/
def list? {α : Type} (item? : Json → Option α) : Json → Option (List α)
  | array items => items.mapM item?
  | _ => none

/-- A value, or `null` in its absence. -/
def optional? {α : Type} (value? : Json → Option α) : Json → Option (Option α)
  | null => some none
  | json => (value? json).map some

/-! ## Records -/

/-- A field of a record. -/
structure Field where
  name : String
  /-- Whether the field may be missing at the end of an array. -/
  spare : Bool := false

/-- The members of a record in the order of its fields, each with its value if it is there.  A
closed record has no members but its fields. -/
def fields? (closed : Bool) (fields : List Field) : Json → Option (List (Option Json))
  | object members => do
      let keyed ← members.mapM fun member => member.1.map fun key => (key, member.2)
      let known := fun key => fields.any (·.name = key)
      if closed && !keyed.all (known ·.1) then
        none
      if fields.any fun field => 1 < keyed.countP (·.1 = field.name) then
        none
      return fields.map fun field => (keyed.find? (·.1 = field.name)).map (·.2)
  | array items =>
      if items.length ≤ fields.length ∧ (fields.drop items.length).all (·.spare) then
        some (items.map some ++ (fields.drop items.length).map fun _ => none)
      else
        none
  | _ => none

/-- The members of a record whose fields must all be there in an array. -/
def members? (names : List String) : Json → Option (List (Option Json)) :=
  fields? false (names.map fun name => { name := name })

/-- A field that must be there. -/
def required? {α : Type} (value? : Json → Option α) : Option Json → Option α
  | some json => value? json
  | none => none

/-- A field whose value may be absent. -/
def maybe? {α : Type} (value? : Json → Option α) : Option Json → Option (Option α)
  | some json => optional? value? json
  | none => some none

/-! ## Sums -/

/-- The name of an alternative and what it carries. -/
def alternative? : Json → Option (String × Option Json)
  | string (some name) => some (name, none)
  | object [(some name, content)] => some (name, some content)
  | _ => none

/-- An alternative that carries nothing; `null` may stand for that. -/
def isBare : Option Json → Bool
  | none => true
  | some null => true
  | some _ => false

/-- The alternative of that name among some that carry nothing. -/
def bare? {α : Type} (all : List α) (name : α → String) (json : Json) : Option α := do
  let (found, content) ← alternative? json
  if isBare content then
    all.find? (name · = found)
  else
    none

end Json

end FlowIR
