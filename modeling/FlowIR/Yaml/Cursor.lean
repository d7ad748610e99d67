/-!
# Positions in a YAML text

A cursor is what is left of a text together with the place reached: the number of characters
passed, the line and the column.  A line ends at a line feed, a carriage return or both, or at one
of three further characters; the breaks of the first kind all count as a line feed.
-/

namespace FlowIR.Yaml

/-! ## Characters -/

/-- A character that a YAML text may hold: tab, line breaks and everything printable. -/
def isAllowed (c : Char) : Bool :=
  let n := c.toNat
  n = 0x09 || n = 0x0A || n = 0x0D || (0x20 ≤ n && n ≤ 0x7E) || n = 0x85 ||
    (0xA0 ≤ n && n ≤ 0xFFFD) || 0x10000 ≤ n

/-- A character that ends a line. -/
def isBreak (c : Char) : Bool :=
  c = '\n' || c = '\r' || c = '\x85' || c = '\u2028' || c = '\u2029'

/-- A blank within a line. -/
def isBlank (c : Char) : Bool :=
  c = ' ' || c = '\t'

/-- A blank or the end of a line. -/
def isSpace (c : Char) : Bool :=
  isBlank c || isBreak c

/-- A character of the name of an anchor, a directive or a tag handle. -/
def isWord (c : Char) : Bool :=
  ('0' ≤ c && c ≤ '9') || ('A' ≤ c && c ≤ 'Z') || ('a' ≤ c && c ≤ 'z') || c = '_' || c = '-'

/-- The value of a hexadecimal digit. -/
def hexValue? (c : Char) : Option Nat :=
  if '0' ≤ c ∧ c ≤ '9' then some (c.toNat - '0'.toNat)
  else if 'a' ≤ c ∧ c ≤ 'f' then some (c.toNat - 'a'.toNat + 10)
  else if 'A' ≤ c ∧ c ≤ 'F' then some (c.toNat - 'A'.toNat + 10)
  else none

/-- The number of characters of the line break in front of a text. -/
def breakLength : List Char → Nat
  | '\r' :: '\n' :: _ => 2
  | c :: _ => if isBreak c then 1 else 0
  | [] => 0

/-- The line break in front of a text as it counts in a scalar. -/
def breakText : List Char → List Char
  | '\u2028' :: _ => ['\u2028']
  | '\u2029' :: _ => ['\u2029']
  | c :: _ => if isBreak c then ['\n'] else []
  | [] => []

/-! ## Cursors -/

/-- A place in a text. -/
structure Cursor where
  /-- What is left of the text. -/
  rest : List Char
  /-- The number of characters passed. -/
  index : Nat := 0
  /-- The number of line breaks passed. -/
  line : Nat := 0
  /-- The number of characters passed since the last line break. -/
  column : Nat := 0
deriving DecidableEq

namespace Cursor

/-- Pass over `n` characters of the line. -/
def forward (c : Cursor) (n : Nat) : Cursor :=
  { c with rest := c.rest.drop n, index := c.index + n, column := c.column + n }

/-- Pass over the characters of the line up to the first that fails the test. -/
def skipWhile (c : Cursor) (test : Char → Bool) : Cursor :=
  c.forward (c.rest.takeWhile test).length

/-- Pass over a line break, if there is one. -/
def newLine (c : Cursor) : Cursor :=
  match breakLength c.rest with
  | 0 => c
  | n => { rest := c.rest.drop n, index := c.index + n, line := c.line + 1, column := 0 }

/-- The character `n` places ahead. -/
def ahead? (c : Cursor) (n : Nat) : Option Char :=
  c.rest[n]?

/-- A blank, a line break or the end of the text is `n` places ahead. -/
def spaceAhead (c : Cursor) (n : Nat) : Bool :=
  match c.ahead? n with
  | some x => isSpace x
  | none => true

/-- The given character comes next. -/
def sees (c : Cursor) (x : Char) : Bool :=
  c.ahead? 0 = some x

/-- The line starts with three times the given character, followed by a space or nothing. -/
def seesMark (c : Cursor) (x : Char) : Bool :=
  c.column = 0 && c.rest.take 3 = [x, x, x] && c.spaceAhead 3

/-- The line starts with the mark that begins or ends a document. -/
def seesDocumentMark (c : Cursor) : Bool :=
  c.seesMark '-' || c.seesMark '.'

/-- Pass over a comment, if one comes next. -/
def skipComment (c : Cursor) : Cursor :=
  if c.sees '#' then c.skipWhile (! isBreak ·) else c

end Cursor

/-! ## The room between two words of a scalar -/

/-- Blanks and line breaks between two words. -/
structure Gap where
  /-- The blanks, as long as there was no line break. -/
  blanks : List Char := []
  /-- Whether there was a line break. -/
  broken : Bool := false
  /-- The first line break; nothing, if that one was escaped. -/
  firstBreak : List Char := []
  /-- The line breaks after the first. -/
  moreBreaks : List Char := []
deriving DecidableEq

namespace Gap

/-- What a gap counts as: its blanks, or its line breaks with a single line feed turned into a
blank and the first of several dropped. -/
def fold (gap : Gap) : List Char :=
  if gap.broken then
    if gap.firstBreak = ['\n'] then
      if gap.moreBreaks = [] then [' '] else gap.moreBreaks
    else
      gap.firstBreak ++ gap.moreBreaks
  else
    gap.blanks

/-- Read the rest of a gap.  After a line break, tabs may not stand before column `least`. -/
def read (least : Nat) : Nat → Gap → Cursor → Option (Gap × Cursor)
  | 0, _, _ => none
  | depth + 1, gap, c =>
      match c.rest with
      | [] => some (gap, c)
      | x :: _ =>
          if isBlank x then
            if gap.broken then
              if x = '\t' ∧ c.column < least then none
              else read least depth gap (c.forward 1)
            else
              read least depth { gap with blanks := gap.blanks ++ [x] } (c.forward 1)
          else if isBreak x then
            let text := breakText c.rest
            let wider :=
              if gap.broken then { gap with moreBreaks := gap.moreBreaks ++ text }
              else { broken := true, firstBreak := text }
            read least depth wider c.newLine
          else
            some (gap, c)

/-- Read the gap at a cursor, after what was read of it before. -/
def readFrom (least : Nat) (gap : Gap) (c : Cursor) : Option (Gap × Cursor) :=
  read least (c.rest.length + 1) gap c

end Gap

end FlowIR.Yaml
