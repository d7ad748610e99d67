import FlowIR.Json.Codec
import FlowIR.Operand

/-!
# Variables, literals and operands as JSON

A local is a record of its name and depth, a temporary of its index; labels are their names and
literal identities their numbers.  Depths and indices have 32 bits, identities 64, fixnums 64 with
a sign.
-/

namespace FlowIR

open Json

instance : JsonCodec Local where
  encode place := record [("name", text place.name), ("scope_depth", nat place.depth)]
  decode json := do
    let [name, depth] ← members? ["name", "scope_depth"] json | none
    return ⟨← required? text? name, ← required? (natUpTo? greatest32) depth⟩

/-- A temporary as a record of its index. -/
def Variable.encodeTemporary (index : Nat) : Json :=
  record [("index", nat index)]

/-- The index in the record of a temporary. -/
def Variable.decodeTemporary (json : Json) : Option Nat := do
  let [index] ← members? ["index"] json | none
  required? (natUpTo? greatest32) index

instance : JsonCodec Variable where
  encode
    | .named place => tagged "Local" (JsonCodec.encode place)
    | .temporary index => tagged "Temporary" (Variable.encodeTemporary index)
  decode json := do
    match ← alternative? json with
    | ("Local", some content) => return .named (← JsonCodec.decode content)
    | ("Temporary", some content) => return .temporary (← Variable.decodeTemporary content)
    | _ => none

instance : JsonCodec Label where
  encode label := text label.name
  decode json := (text? json).map Label.mk

/-- The identity of a literal as a number. -/
def Literal.encodeId (id : Nat) : Json :=
  nat id

/-- The identity of a literal from a number. -/
def Literal.decodeId (json : Json) : Option Nat :=
  natUpTo? greatest64 json

instance : JsonCodec Constant where
  encode
    | .fixnum value => tagged "Fixnum" (integer value)
    | .bignum digits => tagged "Bignum" (text digits)
    | .str s => tagged "Str" (text s)
    | .symbol name => tagged "Symbol" (text name)
    | .nil => text "Nil"
    | .boolean true => text "True"
    | .boolean false => text "False"
  decode json := do
    match ← alternative? json with
    | ("Fixnum", some content) => return .fixnum (← signed64? content)
    | ("Bignum", some content) => return .bignum (← text? content)
    | ("Str", some content) => return .str (← text? content)
    | ("Symbol", some content) => return .symbol (← text? content)
    | ("Nil", content) => if isBare content then some .nil else none
    | ("True", content) => if isBare content then some (.boolean true) else none
    | ("False", content) => if isBare content then some (.boolean false) else none
    | _ => none

instance : JsonCodec Literal where
  encode literal :=
    record [("id", Literal.encodeId literal.id), ("kind", JsonCodec.encode literal.constant)]
  decode json := do
    let [id, constant] ← members? ["id", "kind"] json | none
    return ⟨← required? Literal.decodeId id, ← required? JsonCodec.decode constant⟩

instance : JsonCodec Operand where
  encode
    | .var v => tagged "Variable" (JsonCodec.encode v)
    | .label label => tagged "Label" (JsonCodec.encode label)
    | .lit literal => tagged "Literal" (JsonCodec.encode literal)
  decode json := do
    match ← alternative? json with
    | ("Variable", some content) => return .var (← JsonCodec.decode content)
    | ("Label", some content) => return .label (← JsonCodec.decode content)
    | ("Literal", some content) => return .lit (← JsonCodec.decode content)
    | _ => none

end FlowIR
