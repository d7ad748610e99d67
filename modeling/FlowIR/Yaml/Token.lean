import FlowIR.Yaml.Property
import FlowIR.Yaml.Scalar

/-!
# Tokens of a YAML text

The lexer turns a text into tokens and makes the structure that indentation expresses explicit: a
block collection starts with a token of its own and ends with `blockEnd`.  Whether a scalar is a key
shows only at the colon after it; until then the place where the key would begin is remembered as a
candidate, and the tokens that announce the key are put in at that place later.
-/

namespace FlowIR.Yaml

/-- A token. -/
inductive Token where
  | directive (content : Directive)
  | documentStart
  | documentEnd
  | blockSequenceStart
  | blockMappingStart
  | blockEnd
  | flowSequenceStart
  | flowSequenceEnd
  | flowMappingStart
  | flowMappingEnd
  | blockEntry
  | flowEntry
  | key
  | value
  | alias (name : List Char)
  | anchor (name : List Char)
  | tag (handle suffix : List Char)
  | scalar (style : Style) (text : List Char)
deriving DecidableEq

/-- A place at which a key may have begun. -/
structure Candidate where
  /-- The number of tokens before it. -/
  position : Nat
  /-- Whether the layout demands that it be a key. -/
  required : Bool
  index : Nat
  line : Nat
  column : Nat
deriving DecidableEq

/-- The state of the lexer. -/
structure Lexer where
  cursor : Cursor
  tokens : List Token := []
  /-- The columns at which the open block collections start, innermost first. -/
  indents : List Nat := []
  /-- Whether a key may begin here. -/
  keyAllowed : Bool := true
  /-- The candidate of the innermost flow collection, or of the block around all of them. -/
  candidate : Option Candidate := none
  /-- The candidates around the open flow collections, innermost first. -/
  outer : List (Option Candidate) := []
deriving DecidableEq

namespace Lexer

/-- The lexer is inside a flow collection. -/
def inFlow (l : Lexer) : Bool :=
  !l.outer.isEmpty

/-- The column after the start of the innermost block, where its content begins at the least. -/
def contentColumn (l : Lexer) : Nat :=
  match l.indents with
  | [] => 0
  | column :: _ => column + 1

/-- Add a token. -/
def push (l : Lexer) (token : Token) : Lexer :=
  { l with tokens := l.tokens ++ [token] }

/-- Put tokens in after the first `position` ones. -/
def insertAt (l : Lexer) (position : Nat) (tokens : List Token) : Lexer :=
  { l with tokens := l.tokens.take position ++ tokens ++ l.tokens.drop position }

/-- Pass over characters of the line. -/
def forward (l : Lexer) (n : Nat) : Lexer :=
  { l with cursor := l.cursor.forward n }

/-! ## Candidates -/

/-- The candidate can no longer become a key: its line is over, or it is too long. -/
def isStale (c : Cursor) (candidate : Candidate) : Bool :=
  candidate.line < c.line || candidate.index + 1024 < c.index

/-- A candidate, dropped if it is stale; one that had to become a key is an error then. -/
def freshen (c : Cursor) : Option Candidate → Option (Option Candidate)
  | none => some none
  | some candidate =>
      if isStale c candidate then
        if candidate.required then none else some none
      else
        some (some candidate)

/-- Drop the stale candidates. -/
def dropStale (l : Lexer) : Option Lexer := do
  let candidate ← freshen l.cursor l.candidate
  let outer ← l.outer.mapM (freshen l.cursor)
  return { l with candidate := candidate, outer := outer }

/-- Give up the innermost candidate; one that had to become a key is an error. -/
def dropCandidate (l : Lexer) : Option Lexer :=
  if l.candidate.any (·.required) then none else some { l with candidate := none }

/-- Remember this place as the innermost candidate, if a key may begin here. -/
def saveCandidate (l : Lexer) : Option Lexer :=
  if l.keyAllowed then do
    let l ← l.dropCandidate
    let c := l.cursor
    return { l with
      candidate := some
        { position := l.tokens.length
          required := !l.inFlow && l.indents.head? = some c.column
          index := c.index, line := c.line, column := c.column } }
  else
    some l

/-! ## Indentation -/

/-- Close the block collections that start right of a column. -/
def closeDeeper (column : Nat) : List Nat → List Token × List Nat
  | [] => ([], [])
  | indent :: rest =>
      if column < indent then
        let (ends, left) := closeDeeper column rest
        (.blockEnd :: ends, left)
      else
        ([], indent :: rest)

/-- Close the block collections that the column of the next token ends. -/
def unrollTo (l : Lexer) (column : Nat) : Lexer :=
  if l.inFlow then l
  else
    let (ends, left) := closeDeeper column l.indents
    { l with tokens := l.tokens ++ ends, indents := left }

/-- Close all block collections. -/
def unrollAll (l : Lexer) : Lexer :=
  if l.inFlow then l
  else { l with tokens := l.tokens ++ l.indents.map fun _ => .blockEnd, indents := [] }

/-- A block collection that starts at a column is a new one. -/
def opensBlock (l : Lexer) (column : Nat) : Bool :=
  !l.inFlow && l.indents.head?.all (· < column)

/-- Open a block collection at a column, unless one is open there. -/
def rollTo (l : Lexer) (column : Nat) (start : Token) (position : Nat) : Lexer :=
  if l.opensBlock column then
    { l.insertAt position [start] with indents := column :: l.indents }
  else
    l

/-! ## Tokens by their first character -/

/-- A directive. -/
def lexDirective (l : Lexer) : Option Lexer := do
  let l ← l.unrollAll.dropCandidate
  let (directive, next) ← readDirective (l.cursor.forward 1)
  return { l with cursor := next, keyAllowed := false }.push (.directive directive)

/-- The mark that begins or ends a document. -/
def lexDocumentMark (l : Lexer) (token : Token) : Option Lexer := do
  let l ← l.unrollAll.dropCandidate
  return ({ l with keyAllowed := false }.forward 3).push token

/-- The opening bracket of a flow collection. -/
def lexFlowStart (l : Lexer) (token : Token) : Option Lexer := do
  let l ← l.saveCandidate
  return ({ l with
    candidate := none, outer := l.candidate :: l.outer, keyAllowed := true }.forward 1).push token

/-- The closing bracket of a flow collection. -/
def lexFlowEnd (l : Lexer) (token : Token) : Option Lexer := do
  let l ← l.dropCandidate
  let l := { l with
    candidate := l.outer.head?.join, outer := l.outer.tail, keyAllowed := false }
  return (l.forward 1).push token

/-- The comma of a flow collection. -/
def lexFlowEntry (l : Lexer) : Option Lexer := do
  let l ← l.dropCandidate
  return ({ l with keyAllowed := true }.forward 1).push .flowEntry

/-- The dash of a block sequence. -/
def lexBlockEntry (l : Lexer) : Option Lexer := do
  if !l.inFlow && !l.keyAllowed then
    none
  let l ← (l.rollTo l.cursor.column .blockSequenceStart l.tokens.length).dropCandidate
  return ({ l with keyAllowed := true }.forward 1).push .blockEntry

/-- The question mark before a key. -/
def lexKey (l : Lexer) : Option Lexer := do
  if !l.inFlow && !l.keyAllowed then
    none
  let l ← (l.rollTo l.cursor.column .blockMappingStart l.tokens.length).dropCandidate
  return ({ l with keyAllowed := !l.inFlow }.forward 1).push .key

/-- The colon before a value.  It turns the candidate before it into a key. -/
def lexValue (l : Lexer) : Option Lexer := do
  match l.candidate with
  | some candidate =>
      let l := l.insertAt candidate.position [.key]
      let l := l.rollTo candidate.column .blockMappingStart candidate.position
      return ({ l with candidate := none, keyAllowed := false }.forward 1).push .value
  | none =>
      if !l.inFlow && !l.keyAllowed then
        none
      let l := l.rollTo l.cursor.column .blockMappingStart l.tokens.length
      return ({ l with keyAllowed := !l.inFlow }.forward 1).push .value

/-- The name of an anchor or alias. -/
def lexName (l : Lexer) (token : List Char → Token) : Option Lexer := do
  let l ← l.saveCandidate
  let (name, next) ← readName (l.cursor.forward 1)
  return { l with cursor := next, keyAllowed := false }.push (token name)

/-- A tag. -/
def lexTag (l : Lexer) : Option Lexer := do
  let l ← l.saveCandidate
  let (handle, suffix, next) ← readTag l.inFlow l.cursor
  return { l with cursor := next, keyAllowed := false }.push (.tag handle suffix)

/-- A literal or folded scalar. -/
def lexBlock (l : Lexer) (style : Style) : Option Lexer := do
  let l ← l.dropCandidate
  let (text, next) ← readBlock (style = .folded) l.indents.head? (l.cursor.forward 1)
  return { l with cursor := next, keyAllowed := true }.push (.scalar style text)

/-- A quoted scalar. -/
def lexQuoted (l : Lexer) (style : Style) : Option Lexer := do
  let l ← l.saveCandidate
  let (text, next) ← readQuoted (style = .singleQuoted) (l.cursor.forward 1)
  return { l with cursor := next, keyAllowed := false }.push (.scalar style text)

/-- A plain scalar.  When it was ended by a line break, a key may begin after it. -/
def lexPlain (l : Lexer) : Option Lexer := do
  let l ← l.saveCandidate
  let (text, next, broken) ← readPlain l.inFlow l.contentColumn l.cursor
  return { l with cursor := next, keyAllowed := broken }.push (.scalar .plain text)

/-- A character with which no plain scalar begins. -/
def isIndicator (c : Char) : Bool :=
  "-?:,[]\x7b\x7d#&*!|>'\"%@\x60".toList.contains c

/-- A plain scalar begins here. -/
def startsPlain (l : Lexer) (c : Char) : Bool :=
  !(isSpace c || isIndicator c) ||
    (c = '-' && !(l.cursor.ahead? 1).any isBlank) ||
    (!l.inFlow && (c = '?' || c = ':') && !l.cursor.spaceAhead 1)

/-- The next token, which starts with the given character. -/
def lexToken (l : Lexer) (c : Char) : Option Lexer :=
  let cursor := l.cursor
  if cursor.column = 0 && c = '%' then l.lexDirective
  else if cursor.seesMark '-' then l.lexDocumentMark .documentStart
  else if cursor.seesMark '.' then l.lexDocumentMark .documentEnd
  else if c = '[' then l.lexFlowStart .flowSequenceStart
  else if c = '\x7b' then l.lexFlowStart .flowMappingStart
  else if c = ']' then l.lexFlowEnd .flowSequenceEnd
  else if c = '\x7d' then l.lexFlowEnd .flowMappingEnd
  else if c = ',' then l.lexFlowEntry
  else if c = '-' && cursor.spaceAhead 1 then l.lexBlockEntry
  else if c = '?' && (l.inFlow || cursor.spaceAhead 1) then l.lexKey
  else if c = ':' && (l.inFlow || cursor.spaceAhead 1) then l.lexValue
  else if c = '*' then l.lexName .alias
  else if c = '&' then l.lexName .anchor
  else if c = '!' then l.lexTag
  else if c = '|' && !l.inFlow then l.lexBlock .literal
  else if c = '>' && !l.inFlow then l.lexBlock .folded
  else if c = '\'' then l.lexQuoted .singleQuoted
  else if c = '"' then l.lexQuoted .doubleQuoted
  else if l.startsPlain c then l.lexPlain
  else none

/-! ## The whole text -/

/-- Pass over blanks, comments and line breaks.  A tab counts as a blank where no key may begin, and
a line may start with a byte order mark, which takes a column. -/
def skipToToken : Nat → Lexer → Lexer
  | 0, l => l
  | depth + 1, l =>
      let marked := l.cursor.column = 0 && l.cursor.sees '\ufeff'
      let start := if marked then l.cursor.forward 1 else l.cursor
      let tabs := l.inFlow || !l.keyAllowed
      let c := (start.skipWhile fun x => x = ' ' || (tabs && x = '\t')).skipComment
      if c.rest.head?.any isBreak then
        skipToToken depth
          { l with cursor := c.newLine, keyAllowed := l.keyAllowed || !l.inFlow }
      else
        { l with cursor := c }

/-- The tokens after the last character. -/
def finish (l : Lexer) : Option (List Token) := do
  let l ← l.unrollAll.dropCandidate
  return l.tokens

/-- Read token after token.  Each takes a character at least, so a depth beyond the length of the
text is never used up. -/
def run : Nat → Lexer → Option (List Token)
  | 0, _ => none
  | depth + 1, l => do
      let l ← (skipToToken (l.cursor.rest.length + 1) l).dropStale
      let l := l.unrollTo l.cursor.column
      match l.cursor.rest with
      | [] => l.finish
      | c :: _ => run depth (← l.lexToken c)

end Lexer

/-- The tokens of a text. -/
def Token.ofText (text : List Char) : Option (List Token) :=
  if text.all isAllowed then
    Lexer.run (text.length + 1) { cursor := { rest := text } }
  else
    none

end FlowIR.Yaml
