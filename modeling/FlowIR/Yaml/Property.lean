import FlowIR.Yaml.Cursor

/-!
# Names, tags and directives of a YAML text

The small words of a YAML text that are not scalars: the names of anchors, tags in their three
spellings, and the directives that may stand before a document.  A tag or a handle's replacement is
kept octet by octet, so that an escape of an octet is one character whatever it is part of, and
ends before its first zero octet, which only an escape can bring in.
-/

namespace FlowIR.Yaml

/-! ## Anchors and aliases -/

/-- A character that may directly follow the name of an anchor or alias. -/
def endsName (c : Char) : Bool :=
  isSpace c || c = '?' || c = ':' || c = ',' || c = ']' || c = '\x7d' || c = '%' || c = '@' ||
    c = '\x60'

/-- The name after the sign of an anchor or alias. -/
def readName (c : Cursor) : Option (List Char × Cursor) :=
  let name := c.rest.takeWhile isWord
  let after := c.forward name.length
  if name = [] ∨ !after.rest.head?.all endsName then none else some (name, after)

/-! ## Tags -/

/-- A character of a tag besides escapes.  Commas and brackets occur only between angle brackets
and in directives. -/
def isTagChar (wide : Bool) (c : Char) : Bool :=
  isWord c || ";/?:@&=+$.!~*'()".toList.contains c || (wide && (c = ',' || c = '[' || c = ']'))

/-- An octet written as a percent sign and two hexadecimal digits. -/
def readOctet : List Char → Option (Nat × List Char)
  | '%' :: a :: b :: rest => do
      let high ← hexValue? a
      let low ← hexValue? b
      return (high * 16 + low, rest)
  | _ => none

/-- The number of octets of a character in UTF-8, by the first of them. -/
def octetCount? (first : Nat) : Option Nat :=
  if first < 0x80 then some 1
  else if 0xC0 ≤ first ∧ first < 0xE0 then some 2
  else if 0xE0 ≤ first ∧ first < 0xF0 then some 3
  else if 0xF0 ≤ first ∧ first < 0xF8 then some 4
  else none

/-- Escaped octets that continue a character. -/
def readContinuation : Nat → List Char → Option (List Char × List Char)
  | 0, cs => some ([], cs)
  | n + 1, cs => do
      let (octet, rest) ← readOctet cs
      if 0x80 ≤ octet ∧ octet < 0xC0 then
        let (octets, left) ← readContinuation n rest
        return (Char.ofNat octet :: octets, left)
      else
        none

/-- The escaped octets of one character. -/
def readEscaped (cs : List Char) : Option (List Char × List Char) := do
  let (first, rest) ← readOctet cs
  let count ← octetCount? first
  let (octets, left) ← readContinuation (count - 1) rest
  return (Char.ofNat first :: octets, left)

/-- The characters of a tag, as far as they go. -/
def readTagChars (wide : Bool) : Nat → List Char → Option (List Char × List Char)
  | 0, _ => none
  | depth + 1, cs =>
      match cs with
      | [] => some ([], [])
      | c :: rest =>
          if c = '%' then do
            let (octets, next) ← readEscaped cs
            let (text, left) ← readTagChars wide depth next
            return (octets ++ text, left)
          else if isTagChar wide c then do
            let (text, left) ← readTagChars wide depth rest
            return (c :: text, left)
          else
            some ([], cs)

/-- The characters of a tag at a cursor. -/
def readTagText (wide : Bool) (c : Cursor) : Option (List Char × Cursor) := do
  let (text, left) ← readTagChars wide (c.rest.length + 1) c.rest
  return (text, c.forward (c.rest.length - left.length))

/-- The characters of a tag at a cursor, of which there must be some. -/
def readTagText1 (wide : Bool) (c : Cursor) : Option (List Char × Cursor) := do
  let (text, next) ← readTagText wide c
  if text = [] then none else return (text, next)

/-- The octets before the first zero. -/
def untilZero (octets : List Char) : List Char :=
  octets.takeWhile (· ≠ '\x00')

/-- What looks like a handle: an exclamation mark, a word, and an exclamation mark if one
follows. -/
def readHandle (c : Cursor) : Option (List Char × Cursor) :=
  match c.rest with
  | '!' :: rest =>
      let word := rest.takeWhile isWord
      let after := c.forward (word.length + 1)
      if after.sees '!' then some ('!' :: word ++ ['!'], after.forward 1)
      else some ('!' :: word, after)
  | _ => none

/-- A handle proper has an exclamation mark at both ends. -/
def isHandle (handle : List Char) : Bool :=
  handle.head? = some '!' && 1 < handle.length && handle.getLast? = some '!'

/-- A tag as its handle and the rest.  A tag between angle brackets has the empty handle, and so
has the exclamation mark that stands alone. -/
def readTag (flow : Bool) (c : Cursor) : Option (List Char × List Char × Cursor) := do
  let (handle, suffix, last) ←
    if c.ahead? 1 = some '<' then do
      let (suffix, next) ← readTagText1 true (c.forward 2)
      if next.sees '>' then
        some (([] : List Char), untilZero suffix, next.forward 1)
      else
        none
    else do
      let (handle, next) ← readHandle c
      if isHandle handle then do
        let (suffix, last) ← readTagText1 false next
        return (handle, untilZero suffix, last)
      else do
        let (text, last) ← readTagText false next
        match untilZero (handle.drop 1 ++ text) with
        | [] => return ([], ['!'], last)
        | suffix => return (['!'], suffix, last)
  if last.spaceAhead 0 || (flow && last.sees ',') then
    return (handle, suffix, last)
  else
    none

/-! ## Directives -/

/-- A directive: the version of YAML, or what the handle of a tag stands for. -/
inductive Directive where
  | version (major minor : Nat)
  | tag (handle replacement : List Char)
deriving DecidableEq

/-- A number of at most nine digits. -/
def readShortNumber (c : Cursor) : Option (Nat × Cursor) :=
  let digits := c.rest.takeWhile Char.isDigit
  if digits = [] ∨ 9 < digits.length then none
  else some (Nat.ofDigitChars 10 digits 0, c.forward digits.length)

/-- What follows the name of a version directive. -/
def readVersion (c : Cursor) : Option (Directive × Cursor) := do
  let (major, next) ← readShortNumber (c.skipWhile isBlank)
  if next.sees '.' then
    let (minor, last) ← readShortNumber (next.forward 1)
    return (.version major minor, last)
  else
    none

/-- What follows the name of a tag directive. -/
def readTagDirective (c : Cursor) : Option (Directive × Cursor) := do
  let (handle, next) ← readHandle (c.skipWhile isBlank)
  if (isHandle handle || handle = ['!']) && next.rest.head?.any isBlank then
    let (replacement, last) ← readTagText1 true (next.skipWhile isBlank)
    if last.spaceAhead 0 then
      return (.tag handle (untilZero replacement), last)
    else
      none
  else
    none

/-- A directive after its percent sign, with the rest of its line. -/
def readDirective (c : Cursor) : Option (Directive × Cursor) := do
  let name := c.rest.takeWhile isWord
  let after := c.forward name.length
  if name = [] ∨ !after.spaceAhead 0 then
    none
  let (directive, next) ←
    if name = "YAML".toList then readVersion after
    else if name = "TAG".toList then readTagDirective after
    else none
  let last := (next.skipWhile isBlank).skipComment
  if last.rest.head?.all isBreak then
    return (directive, last.newLine)
  else
    none

end FlowIR.Yaml
