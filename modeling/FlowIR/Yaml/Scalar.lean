import FlowIR.Yaml.Cursor

/-!
# Scalars of a YAML text

How the text of a scalar is read in each of the five styles.  Each reader starts at the first
character of the scalar's content and hands back the text and the place after it.
-/

namespace FlowIR.Yaml

/-- How a scalar is written. -/
inductive Style where
  | plain
  | singleQuoted
  | doubleQuoted
  | literal
  | folded
deriving DecidableEq

/-! ## Quoted -/

/-- The character that a backslash and a letter or sign stand for. -/
def shortEscape? : Char → Option Char
  | '0' => some '\x00'
  | 'a' => some '\x07'
  | 'b' => some '\x08'
  | 't' => some '\t'
  | '\t' => some '\t'
  | 'n' => some '\n'
  | 'v' => some '\x0b'
  | 'f' => some '\x0c'
  | 'r' => some '\r'
  | 'e' => some '\x1b'
  | ' ' => some ' '
  | '"' => some '"'
  | '/' => some '/'
  | '\\' => some '\\'
  | 'N' => some '\x85'
  | '_' => some '\xa0'
  | 'L' => some '\u2028'
  | 'P' => some '\u2029'
  | _ => none

/-- The number of hexadecimal digits that follow a backslash and a letter. -/
def codeLength? : Char → Option Nat
  | 'x' => some 2
  | 'u' => some 4
  | 'U' => some 8
  | _ => none

/-- The number that hexadecimal digits stand for. -/
def hexNumber? (digits : List Char) : Option Nat :=
  (digits.mapM hexValue?).map fun values => values.foldl (fun n value => n * 16 + value) 0

/-- The character that an escape stands for and the number of characters of the escape. -/
def escape? : List Char → Option (Char × Nat)
  | '\\' :: e :: rest =>
      match codeLength? e with
      | some n => do
          if rest.length < n then
            none
          let code ← hexNumber? (rest.take n)
          if h : code.isValidChar then
            return (Char.ofNatAux code h, n + 2)
          else
            none
      | none => (shortEscape? e).map (·, 2)
  | _ => none

/-- The rest of a quoted scalar, between single or double quotes. -/
def readQuotedAt (single : Bool) : Nat → Cursor → Option (List Char × Cursor)
  | 0, _ => none
  | depth + 1, c => do
      if c.seesDocumentMark then
        none
      match c.rest with
      | [] => none
      | x :: after =>
          if isSpace x then
            let (gap, next) ← Gap.readFrom 0 {} c
            let (text, last) ← readQuotedAt single depth next
            return (gap.fold ++ text, last)
          else if single then
            if x = '\'' then
              if after.head? = some '\'' then
                let (text, last) ← readQuotedAt single depth (c.forward 2)
                return ('\'' :: text, last)
              else
                return ([], c.forward 1)
            else
              let (text, last) ← readQuotedAt single depth (c.forward 1)
              return (x :: text, last)
          else if x = '"' then
            return ([], c.forward 1)
          else if x = '\\' then
            if after.head?.any isBreak then
              let (gap, next) ← Gap.readFrom 0 { broken := true } (c.forward 1).newLine
              let (text, last) ← readQuotedAt single depth next
              return (gap.fold ++ text, last)
            else
              let (escaped, n) ← escape? c.rest
              let (text, last) ← readQuotedAt single depth (c.forward n)
              return (escaped :: text, last)
          else
            let (text, last) ← readQuotedAt single depth (c.forward 1)
            return (x :: text, last)

/-- The rest of a quoted scalar whose opening quote has been passed. -/
def readQuoted (single : Bool) (c : Cursor) : Option (List Char × Cursor) :=
  readQuotedAt single (c.rest.length + 1) c

/-! ## Plain -/

/-- A plain scalar in a flow collection ends at these. -/
def endsFlowPlain (c : Char) : Bool :=
  c = ',' || c = '[' || c = ']' || c = '\x7b' || c = '\x7d'

/-- The rest of a plain scalar, after a gap that counts only if another word follows.  The flag
tells whether the scalar was ended after a line break. -/
def readPlainAt (flow : Bool) (least : Nat) :
    Nat → Gap → Cursor → Option (List Char × Cursor × Bool)
  | 0, _, _ => none
  | depth + 1, gap, c =>
      match c.rest with
      | [] => some ([], c, gap.broken)
      | x :: after =>
          if isSpace x then do
            let (gap, next) ← Gap.readFrom least {} c
            if (!flow && next.column < least) || next.seesDocumentMark || next.sees '#' then
              return ([], next, gap.broken)
            else
              readPlainAt flow least depth gap next
          else if x = ':' && flow && after.head?.any (fun y => endsFlowPlain y || y = '?') then
            none
          else if (x = ':' && c.spaceAhead 1) || (flow && endsFlowPlain x) then
            some ([], c, gap.broken)
          else do
            let (text, last, broken) ← readPlainAt flow least depth {} (c.forward 1)
            return (gap.fold ++ x :: text, last, broken)

/-- A plain scalar.  Its later lines start at column `least` or further, unless it stands in a flow
collection. -/
def readPlain (flow : Bool) (least : Nat) (c : Cursor) : Option (List Char × Cursor × Bool) :=
  readPlainAt flow least (2 * c.rest.length + 2) {} c

/-! ## Literal and folded -/

/-- What becomes of the line breaks at the end of a block scalar. -/
inductive Chomping where
  /-- All are dropped. -/
  | strip
  /-- The first is kept. -/
  | clip
  /-- All are kept. -/
  | keep
deriving DecidableEq

/-- The chomping for which a sign stands. -/
def Chomping.ofSign? : Char → Option Chomping
  | '+' => some keep
  | '-' => some strip
  | _ => none

/-- The header of a block scalar after its indicator: the chomping and, unless it is zero, the
indentation relative to the surrounding block, then nothing but blanks and a comment. -/
def readBlockHeader (c : Cursor) : Option (Chomping × Nat × Cursor) := do
  let sign? := fun c : Cursor => (c.ahead? 0).bind Chomping.ofSign?
  let digit? := fun c : Cursor => (c.ahead? 0).filter Char.isDigit
  let (chomping, increment, c) ←
    match sign? c with
    | some chomping =>
        match digit? (c.forward 1) with
        | some digit => some (chomping, some digit, c.forward 2)
        | none => some (chomping, none, c.forward 1)
    | none =>
        match digit? c with
        | some digit =>
            match sign? (c.forward 1) with
            | some chomping => some (chomping, some digit, c.forward 2)
            | none => some (.clip, some digit, c.forward 1)
        | none => some (.clip, none, c)
  if increment = some '0' then
    none
  let c := (c.skipWhile isBlank).skipComment
  if c.rest.head?.all isBreak then
    return (chomping, (increment.map fun digit => digit.toNat - '0'.toNat).getD 0, c.newLine)
  else
    none

/-- The empty lines before the next line with content, and the indentation of that line.  While the
indentation is not known (zero), every blank counts towards it, and it is settled at the end: the
widest line seen, but at least `floor`. -/
def readEmptyLinesAt (floor indent : Nat) :
    Nat → (widest : Nat) → (breaks : List Char) → Cursor → Option (Nat × List Char × Cursor)
  | 0, _, _, _ => none
  | depth + 1, widest, breaks, c =>
      let blanks := (c.rest.takeWhile (· = ' ')).length
      let c := c.forward (if indent = 0 then blanks else min blanks (indent - c.column))
      let widest := max widest c.column
      if (indent = 0 || c.column < indent) && c.sees '\t' then
        none
      else if c.rest.head?.any isBreak then
        readEmptyLinesAt floor indent depth widest (breaks ++ breakText c.rest) c.newLine
      else
        some (if indent = 0 then max widest floor else indent, breaks, c)

/-- The empty lines at a cursor and the indentation of the line that follows. -/
def readEmptyLines (floor indent : Nat) (c : Cursor) : Option (Nat × List Char × Cursor) :=
  readEmptyLinesAt floor indent (c.rest.length + 1) 0 [] c

/-- The lines of a block scalar.  `lastBreak` ended the line before and `emptyBreaks` the empty
lines since; `indented` tells whether that line started with a blank.  In a folded scalar the break
between two lines of which neither does counts as a blank, or as nothing before empty lines. -/
def readBlockLines (folded : Bool) (chomping : Chomping) (floor indent : Nat) :
    Nat → (lastBreak emptyBreaks : List Char) → (indented : Bool) → Cursor →
      Option (List Char × Cursor)
  | 0, _, _, _, _ => none
  | depth + 1, lastBreak, emptyBreaks, indented, c =>
      match c.rest with
      | x :: _ =>
          if c.column = indent then do
            let joint :=
              if folded && lastBreak = ['\n'] && !indented && !isBlank x then
                if emptyBreaks = [] then [' '] else []
              else
                lastBreak
            let content := c.rest.takeWhile (! isBreak ·)
            let ended := c.forward content.length
            let (_, breaks, next) ← readEmptyLines floor indent ended.newLine
            let (text, last) ←
              readBlockLines folded chomping floor indent depth (breakText ended.rest) breaks
                (isBlank x) next
            return (joint ++ emptyBreaks ++ content ++ text, last)
          else
            finish lastBreak emptyBreaks c
      | [] => finish lastBreak emptyBreaks c
where
  /-- The line breaks that are kept at the end. -/
  finish (lastBreak emptyBreaks : List Char) (c : Cursor) : Option (List Char × Cursor) :=
    match chomping with
    | .strip => some ([], c)
    | .clip => some (lastBreak, c)
    | .keep => some (lastBreak ++ emptyBreaks, c)

/-- A literal or folded scalar after its indicator, within a block whose lines start at column
`base` (none for the outermost). -/
def readBlock (folded : Bool) (base : Option Nat) (c : Cursor) : Option (List Char × Cursor) := do
  let (chomping, increment, c) ← readBlockHeader c
  let floor := max 1 (match base with
    | some column => column + 1
    | none => 0)
  let indent := if increment = 0 then 0 else base.getD 0 + increment
  let (indent, breaks, c) ← readEmptyLines floor indent c
  readBlockLines folded chomping floor indent (c.rest.length + 1) [] breaks false c

end FlowIR.Yaml
