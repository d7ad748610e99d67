import FlowIR.Json.Basic

/-!
# Writing JSON

A value is written without any blanks, or with one member or item a line, indented by two blanks a
level.  In strings a quote, a backslash and the control characters are escaped, and nothing else.
-/

namespace FlowIR.Json

/-! ## Strings and numbers -/

/-- A hexadecimal digit. -/
def hexDigit (n : Nat) : Char :=
  Nat.digitChar n

/-- One character as it stands between the quotes. -/
def escape (c : Char) : List Char :=
  if c = '"' then ['\\', '"']
  else if c = '\\' then ['\\', '\\']
  else if c = '\x08' then ['\\', 'b']
  else if c = '\t' then ['\\', 't']
  else if c = '\n' then ['\\', 'n']
  else if c = '\x0c' then ['\\', 'f']
  else if c = '\r' then ['\\', 'r']
  else if c.toNat < 0x20 then
    ['\\', 'u', '0', '0', hexDigit (c.toNat / 16), hexDigit (c.toNat % 16)]
  else [c]

/-- A text between quotes. -/
def quote (s : List Char) : List Char :=
  '"' :: s.flatMap escape ++ ['"']

/-- A string value; one that denotes no text is written as the halved pair it may stem from. -/
def writeString : Option String → List Char
  | some s => quote s.toList
  | none => ['"', '\\', 'u', 'd', '8', '0', '0', '"']

/-- An integer in decimal. -/
def writeInteger : Int → List Char
  | .ofNat n => Nat.toDigits 10 n
  | .negSucc n => '-' :: Nat.toDigits 10 (n + 1)

/-! ## Without blanks -/

mutual

/-- A value without any blanks. -/
def write : Json → List Char
  | null => ['n', 'u', 'l', 'l']
  | boolean true => ['t', 'r', 'u', 'e']
  | boolean false => ['f', 'a', 'l', 's', 'e']
  | integer n => writeInteger n
  | real spelling => spelling
  | string s => writeString s
  | array items => '[' :: writeItems items
  | object members => '\x7b' :: writeMembers members

/-- The items of an array and its closing bracket. -/
def writeItems : List Json → List Char
  | [] => [']']
  | item :: rest => write item ++ writeMoreItems rest

/-- The items that follow another, and the closing bracket. -/
def writeMoreItems : List Json → List Char
  | [] => [']']
  | item :: rest => ',' :: (write item ++ writeMoreItems rest)

/-- The members of an object and its closing brace. -/
def writeMembers : List (Option String × Json) → List Char
  | [] => ['\x7d']
  | (key, value) :: rest => writeString key ++ ':' :: (write value ++ writeMoreMembers rest)

/-- The members that follow another, and the closing brace. -/
def writeMoreMembers : List (Option String × Json) → List Char
  | [] => ['\x7d']
  | (key, value) :: rest =>
      ',' :: (writeString key ++ ':' :: (write value ++ writeMoreMembers rest))

end

/-! ## With indentation -/

/-- A new line at the given level. -/
def newLine (level : Nat) : List Char :=
  '\n' :: List.replicate (2 * level) ' '

mutual

/-- A value with one member or item a line, as it stands at the given level. -/
def writeIndented (level : Nat) : Json → List Char
  | array [] => ['[', ']']
  | array (item :: rest) =>
      '[' :: (newLine (level + 1) ++ writeIndented (level + 1) item ++
        writeIndentedItems level rest)
  | object [] => ['\x7b', '\x7d']
  | object ((key, value) :: rest) =>
      '\x7b' :: (newLine (level + 1) ++ writeString key ++ ':' :: ' ' ::
        (writeIndented (level + 1) value ++ writeIndentedMembers level rest))
  | value => write value

/-- The items that follow another, and the closing bracket. -/
def writeIndentedItems (level : Nat) : List Json → List Char
  | [] => newLine level ++ [']']
  | item :: rest =>
      ',' :: (newLine (level + 1) ++ writeIndented (level + 1) item ++
        writeIndentedItems level rest)

/-- The members that follow another, and the closing brace. -/
def writeIndentedMembers (level : Nat) : List (Option String × Json) → List Char
  | [] => newLine level ++ ['\x7d']
  | (key, value) :: rest =>
      ',' :: (newLine (level + 1) ++ writeString key ++ ':' :: ' ' ::
        (writeIndented (level + 1) value ++ writeIndentedMembers level rest))

end

/-- The text of a value without any blanks. -/
def compact (value : Json) : String :=
  String.ofList value.write

/-- The text of a value with one member or item a line. -/
def pretty (value : Json) : String :=
  String.ofList (value.writeIndented 0)

end FlowIR.Json
