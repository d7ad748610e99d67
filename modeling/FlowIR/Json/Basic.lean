/-!
# JSON values

A JSON text as a tree.  Integers keep their exact value, whatever their size; numbers with a
fraction or an exponent, and a negative zero, are kept as they are spelt.  A string may be spelt
with half of a surrogate pair and then denotes no text; such a string is `string none`.
-/

namespace FlowIR

/-- A JSON value. -/
inductive Json where
  | null
  | boolean (value : Bool)
  | integer (value : Int)
  /-- A number that is not spelt as an integer. -/
  | real (spelling : List Char)
  /-- A string and the text it denotes, if it denotes one. -/
  | string (text : Option String)
  | array (items : List Json)
  /-- An object with its members in order; keys may repeat. -/
  | object (members : List (Option String × Json))

namespace Json

/-- A string that denotes a text. -/
def text (s : String) : Json :=
  string (some s)

/-- A natural number. -/
def nat (n : Nat) : Json :=
  integer n

/-- An object with the given members. -/
def record (members : List (String × Json)) : Json :=
  object (members.map fun member => (some member.1, member.2))

/-- A value with the name of its alternative. -/
def tagged (name : String) (content : Json) : Json :=
  record [(name, content)]

/-- A value, or `null` in its absence. -/
def orNull : Option Json → Json
  | some value => value
  | none => null

end Json

end FlowIR
