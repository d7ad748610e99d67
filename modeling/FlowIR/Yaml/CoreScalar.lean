import FlowIR.Yaml.Node

/-!
# What scalars stand for

Null, truth values and natural numbers by the core schema.  A scalar stands for one of these if it
is plain, whatever its tag, or literal with the tag of that type; every scalar stands for its text.
-/

namespace FlowIR.Yaml

/-- The full tag of a core type. -/
def coreTag (name : String) : List Char :=
  ("tag:yaml.org,2002:" ++ name).toList

/-- The spellings of null. -/
def isNull (text : List Char) : Bool :=
  ["null", "Null", "NULL", "~"].contains (String.ofList text)

/-- The truth value of a spelling. -/
def truth? (text : List Char) : Option Bool :=
  let spelling := String.ofList text
  if ["true", "True", "TRUE"].contains spelling then some true
  else if ["false", "False", "FALSE"].contains spelling then some false
  else none

/-- The value of a digit in a base of at most sixteen. -/
def digitIn? (base : Nat) (c : Char) : Option Nat :=
  (hexValue? c).filter (· < base)

/-- The number up to `greatest` that digits, at least one, spell in a base. -/
def numberIn? (base greatest : Nat) (digits : List Char) : Option Nat := do
  if digits = [] then
    none
  let values ← digits.mapM (digitIn? base)
  let n := values.foldl (fun n value => n * base + value) 0
  if n ≤ greatest then some n else none

/-- The natural number up to `greatest` of a spelling: in decimal without leading zeros, or in
hexadecimal, octal or binary behind `0x`, `0o` or `0b`, with at most a plus sign in front. -/
def natural? (greatest : Nat) (text : List Char) : Option Nat :=
  let unsigned := if text.head? = some '+' then text.tail else text
  match unsigned with
  | '0' :: 'x' :: digits => numberIn? 16 greatest digits
  | '0' :: 'o' :: digits => numberIn? 8 greatest digits
  | '0' :: 'b' :: digits => numberIn? 2 greatest digits
  | '0' :: _ :: _ => none
  | digits => numberIn? 10 greatest digits

/-- The text of a node that may stand for a value of the core type `name`. -/
def coreText? (name : String) : Node → Option (List Char)
  | .scalar _ .plain text => some text
  | .scalar (some tag) .literal text => if tag = coreTag name then some text else none
  | _ => none

namespace Document

/-- The text of a scalar. -/
def text? (document : Document) (node : Node) : Option String :=
  match document.resolve node with
  | .scalar _ _ text => some (String.ofList text)
  | _ => none

/-- The truth value of a scalar. -/
def boolean? (document : Document) (node : Node) : Option Bool := do
  truth? (← coreText? "bool" (document.resolve node))

/-- The natural number up to `greatest` of a scalar. -/
def natUpTo? (greatest : Nat) (document : Document) (node : Node) : Option Nat := do
  natural? greatest (← coreText? "int" (document.resolve node))

/-- The pairs of a mapping.  A plain scalar without text counts as an empty one. -/
def pairs? (document : Document) (node : Node) : Option (List (Node × Node)) :=
  match document.resolve node with
  | .mapping pairs => some pairs
  | .scalar _ .plain [] => some []
  | _ => none

/-- A value, or nothing where the scalar is null: plain and either without tag and text, or spelt
as null.  A scalar tagged as null must be spelt so. -/
def optional? {α : Type} (value? : Document → Node → Option α) (document : Document)
    (node : Node) : Option (Option α) :=
  match document.resolve node with
  | .scalar none .plain text =>
      if text = [] ∨ isNull text then some none else (value? document node).map some
  | .scalar (some tag) .plain text =>
      if tag = coreTag "null" then
        if isNull text then some none else none
      else
        (value? document node).map some
  | _ => (value? document node).map some

/-- The values of the named fields in a mapping that has no other keys and none twice. -/
def fields? (names : List String) (document : Document) (node : Node) :
    Option (List (Option Node)) := do
  let pairs ← document.pairs? node
  let keyed ← pairs.mapM fun pair => (document.text? pair.1).map fun key => (key, pair.2)
  if !keyed.all (names.contains ·.1) then
    none
  if names.any fun name => 1 < keyed.countP (·.1 = name) then
    none
  return names.map fun name => (keyed.find? (·.1 = name)).map (·.2)

end Document

end FlowIR.Yaml
