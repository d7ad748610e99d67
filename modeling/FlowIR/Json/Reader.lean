import FlowIR.Json.Basic

/-!
# Reading JSON

`Json.parse` accepts exactly the JSON texts: one value with blanks around it.  Every part of the
reader takes the characters still to come and hands back what it has read and what is left.
-/

namespace FlowIR.Json

/-- Blank, tab, line feed and carriage return may stand between the parts of a text. -/
def isBlank (c : Char) : Bool :=
  c = ' ' || c = '\t' || c = '\n' || c = '\r'

/-- Pass over blanks. -/
def skipBlanks (cs : List Char) : List Char :=
  cs.dropWhile isBlank

/-! ## Strings -/

/-- What one character or escape of a string contributes: a character, or half of a surrogate
pair. -/
inductive Piece where
  | plain (c : Char)
  | half (unit : Nat)
deriving DecidableEq

/-- The value of a hexadecimal digit. -/
def hexValue? (c : Char) : Option Nat :=
  if '0' ≤ c ∧ c ≤ '9' then some (c.toNat - '0'.toNat)
  else if 'a' ≤ c ∧ c ≤ 'f' then some (c.toNat - 'a'.toNat + 10)
  else if 'A' ≤ c ∧ c ≤ 'F' then some (c.toNat - 'A'.toNat + 10)
  else none

/-- The number that four hexadecimal digits stand for. -/
def hexValue4? (a b c d : Char) : Option Nat := do
  let a ← hexValue? a
  let b ← hexValue? b
  let c ← hexValue? c
  let d ← hexValue? d
  return ((a * 16 + b) * 16 + c) * 16 + d

/-- What a number of sixteen bits stands for in a string. -/
def pieceOf (unit : Nat) : Piece :=
  if 0xD800 ≤ unit ∧ unit < 0xE000 then .half unit else .plain (Char.ofNat unit)

/-- The character that a backslash and a letter or sign stand for. -/
def shortEscape? : Char → Option Char
  | '"' => some '"'
  | '\\' => some '\\'
  | '/' => some '/'
  | 'b' => some '\x08'
  | 'f' => some '\x0c'
  | 'n' => some '\n'
  | 'r' => some '\r'
  | 't' => some '\t'
  | _ => none

/-- The rest of a string whose opening quote has been read. -/
def readPieces : List Char → Option (List Piece × List Char)
  | [] => none
  | '"' :: rest => some ([], rest)
  | '\\' :: 'u' :: a :: b :: c :: d :: rest => do
      let unit ← hexValue4? a b c d
      let (pieces, left) ← readPieces rest
      return (pieceOf unit :: pieces, left)
  | '\\' :: e :: rest => do
      let c ← shortEscape? e
      let (pieces, left) ← readPieces rest
      return (.plain c :: pieces, left)
  | c :: rest => do
      if c = '\\' ∨ c.toNat < 0x20 then
        none
      let (pieces, left) ← readPieces rest
      return (.plain c :: pieces, left)

/-- The text that pieces make up: the halves of surrogate pairs must follow each other. -/
def joinPieces : List Piece → Option (List Char)
  | [] => some []
  | .plain c :: rest => (joinPieces rest).map (c :: ·)
  | .half high :: .half low :: rest =>
      if high < 0xDC00 ∧ 0xDC00 ≤ low then
        (joinPieces rest).map
          (Char.ofNat (0x10000 + (high - 0xD800) * 0x400 + (low - 0xDC00)) :: ·)
      else
        none
  | .half _ :: _ => none

/-- The rest of a string, as the text it denotes. -/
def readString (cs : List Char) : Option (Option String × List Char) := do
  let (pieces, left) ← readPieces cs
  return ((joinPieces pieces).map String.ofList, left)

/-! ## Numbers -/

/-- Digits, at least one. -/
def readDigits (cs : List Char) : Option (List Char × List Char) :=
  match cs.takeWhile Char.isDigit with
  | [] => none
  | digits => some (digits, cs.dropWhile Char.isDigit)

/-- A point and digits, if a point follows. -/
def readFraction : List Char → Option (List Char × List Char)
  | '.' :: rest => do
      let (digits, left) ← readDigits rest
      return ('.' :: digits, left)
  | cs => some ([], cs)

/-- An exponent, if one follows. -/
def readExponent : List Char → Option (List Char × List Char)
  | e :: rest =>
      if e = 'e' ∨ e = 'E' then
        match rest with
        | sign :: after =>
            if sign = '+' ∨ sign = '-' then do
              let (digits, left) ← readDigits after
              return (e :: sign :: digits, left)
            else do
              let (digits, left) ← readDigits rest
              return (e :: digits, left)
        | [] => none
      else
        some ([], e :: rest)
  | [] => some ([], [])

/-- A number without its sign.  No digit may follow a leading zero. -/
def readUnsigned (negative : Bool) (cs : List Char) : Option (Json × List Char) := do
  let (digits, afterDigits) ← readDigits cs
  if digits.head? = some '0' ∧ 1 < digits.length then
    none
  let (fraction, afterFraction) ← readFraction afterDigits
  let (exponent, left) ← readExponent afterFraction
  let size := Nat.ofDigitChars 10 digits 0
  if fraction = [] ∧ exponent = [] ∧ ¬ (negative ∧ size = 0) then
    return (.integer (if negative then - (size : Int) else size), left)
  else
    let sign := if negative then ['-'] else []
    return (.real (sign ++ digits ++ fraction ++ exponent), left)

/-- A number. -/
def readNumber : List Char → Option (Json × List Char)
  | '-' :: rest => readUnsigned true rest
  | cs => readUnsigned false cs

/-! ## Values -/

mutual

/-- A value that starts with the first character.  Every call reads a character or is followed by
one that does, so a depth of twice the length of the text is never used up. -/
def readValue : Nat → List Char → Option (Json × List Char)
  | 0, _ => none
  | depth + 1, cs =>
      match cs with
      | 'n' :: 'u' :: 'l' :: 'l' :: rest => some (.null, rest)
      | 't' :: 'r' :: 'u' :: 'e' :: rest => some (.boolean true, rest)
      | 'f' :: 'a' :: 'l' :: 's' :: 'e' :: rest => some (.boolean false, rest)
      | '"' :: rest => do
          let (s, left) ← readString rest
          return (.string s, left)
      | '[' :: rest =>
          match skipBlanks rest with
          | ']' :: left => some (.array [], left)
          | rest => do
              let (items, left) ← readItems depth rest
              return (.array items, left)
      | '\x7b' :: rest =>
          match skipBlanks rest with
          | '\x7d' :: left => some (.object [], left)
          | rest => do
              let (members, left) ← readMembers depth rest
              return (.object members, left)
      | cs => readNumber cs

/-- The items of an array, one at least, and its closing bracket. -/
def readItems : Nat → List Char → Option (List Json × List Char)
  | 0, _ => none
  | depth + 1, cs => do
      let (item, afterItem) ← readValue depth cs
      match skipBlanks afterItem with
      | ']' :: left => return ([item], left)
      | ',' :: rest => do
          let (items, left) ← readItems depth (skipBlanks rest)
          return (item :: items, left)
      | _ => none

/-- The members of an object, one at least, and its closing brace. -/
def readMembers : Nat → List Char → Option (List (Option String × Json) × List Char)
  | 0, _ => none
  | depth + 1, cs =>
      match cs with
      | '"' :: rest => do
          let (key, afterKey) ← readString rest
          match skipBlanks afterKey with
          | ':' :: rest => do
              let (value, afterValue) ← readValue depth (skipBlanks rest)
              match skipBlanks afterValue with
              | '\x7d' :: left => return ([(key, value)], left)
              | ',' :: rest => do
                  let (members, left) ← readMembers depth (skipBlanks rest)
                  return ((key, value) :: members, left)
              | _ => none
          | _ => none
      | _ => none

end

/-- The value of a text, if it is a JSON text. -/
def parseChars (cs : List Char) : Option Json := do
  let (value, left) ← readValue (2 * cs.length + 2) (skipBlanks cs)
  if skipBlanks left = [] then
    return value
  else
    none

/-- The value of a text, if it is a JSON text. -/
def parse (s : String) : Option Json :=
  parseChars s.toList

end FlowIR.Json
