import FlowIR.Yaml.Token

/-!
# Nodes of a YAML document

A document is a tree of scalars, sequences and mappings, with aliases that refer to anchored nodes
by number.  The builder reads the tree off the tokens.  It fails on tokens that do not fit
together, on an alias without an anchor and on a tag with an unknown handle.

An anchor takes as its number how many different anchor names have been used before.  A name that
is used again therefore shares its number with the next new name; an alias refers to the node that
was begun last under the number that its name had.
-/

namespace FlowIR.Yaml

/-- A node of a document. -/
inductive Node where
  | scalar (tag : Option (List Char)) (style : Style) (text : List Char)
  | sequence (items : List Node)
  | mapping (pairs : List (Node × Node))
  | alias (number : Nat)

/-- The scalar that stands where nothing is written. -/
def Node.empty : Node :=
  .scalar none .plain []

/-- An anchored node: the number of its anchor and how many anchored nodes were begun before. -/
structure Anchored where
  number : Nat
  order : Nat
  node : Node

/-- A document: its outermost node and the anchored ones. -/
structure Document where
  root : Node
  anchored : List Anchored

/-- The node that a node stands for: an alias stands for what it refers to. -/
def Document.resolve (document : Document) : Node → Node
  | .alias number =>
      let candidates := document.anchored.filter (·.number = number)
      let last := candidates.foldl (fun best a => max best a.order) 0
      ((candidates.find? (·.order = last)).map (·.node)).getD .empty
  | node => node

/-- What the builder keeps. -/
structure Builder where
  tokens : List Token
  /-- What the handles of tags stand for. -/
  handles : List (List Char × List Char) := []
  /-- The anchor names used so far with their numbers, the latest use first. -/
  names : List (List Char × Nat) := []
  /-- The number of anchored nodes begun so far. -/
  begun : Nat := 0
  anchored : List Anchored := []

/-- A step of the builder. -/
abbrev Build (α : Type) := StateT Builder Option α

namespace Build

/-- Give up. -/
def fail {α : Type} : Build α := fun _ => none

/-- The next token. -/
def peek : Build (Option Token) := do
  return (← get).tokens.head?

/-- Pass over the next token. -/
def skip : Build Unit :=
  modify fun b => { b with tokens := b.tokens.tail }

/-- Pass over the given token, or give up. -/
def expect (token : Token) : Build Unit := do
  if (← peek) = some token then skip else fail

/-- The next token is one of those given, or there is none. -/
def atOneOf (tokens : List Token) : Build Bool := do
  match ← peek with
  | some token => return tokens.contains token
  | none => return false

/-! ## Properties -/

/-- An anchor, if one comes next. -/
def anchor? : Build (Option (List Char)) := do
  match ← peek with
  | some (.anchor name) => skip; return some name
  | _ => return none

/-- A tag, if one comes next. -/
def tag? : Build (Option (List Char × List Char)) := do
  match ← peek with
  | some (.tag handle suffix) => skip; return some (handle, suffix)
  | _ => return none

/-- An anchor and a tag in either order, each at most once. -/
def properties : Build (Option (List Char) × Option (List Char × List Char)) := do
  match ← anchor? with
  | some name => return (some name, ← tag?)
  | none =>
      match ← tag? with
      | some tag => return (← anchor?, some tag)
      | none => return (none, none)

/-- The full tag for a handle and a suffix. -/
def fullTag (handle suffix : List Char) : Build (List Char) := do
  if handle = [] then
    return suffix
  match (← get).handles.find? (·.1 = handle) with
  | some (_, replacement) => return replacement ++ suffix
  | none => fail

/-- Note the use of an anchor; the result is its number and the order of the node begun. -/
def begin (name : List Char) : Build (Nat × Nat) := do
  let b ← get
  let number := (b.names.map (·.1)).eraseDups.length
  set { b with names := (name, number) :: b.names, begun := b.begun + 1 }
  return (number, b.begun)

/-- The number that an alias refers to. -/
def numberOf (name : List Char) : Build Nat := do
  match (← get).names.find? (·.1 = name) with
  | some (_, number) => return number
  | none => fail

/-! ## Nodes -/

mutual

/-- A node.  Block collections are nodes only where `block` says so, and a block sequence without
indentation of its own only where `flush` does. -/
def node : Nat → (block flush : Bool) → Build Node
  | 0, _, _ => fail
  | depth + 1, block, flush => do
      if let some (.alias name) ← peek then
        skip
        return .alias (← numberOf name)
      let (name?, written?) ← properties
      let tag? ← match written? with
        | some (handle, suffix) => pure (some (← fullTag handle suffix))
        | none => pure none
      let place? ← match name? with
        | some name => pure (some (← begin name))
        | none => pure none
      let made ← content depth block flush tag? (name?.isSome || tag?.isSome)
      if let some (number, order) := place? then
        modify fun b => { b with anchored := ⟨number, order, made⟩ :: b.anchored }
      return made

/-- A node after its properties.  With properties, nothing at all may follow. -/
def content : Nat → (block flush : Bool) → (tag : Option (List Char)) → (decorated : Bool) →
    Build Node
  | 0, _, _, _, _ => fail
  | depth + 1, block, flush, tag, decorated => do
      match ← peek with
      | some (.scalar style text) =>
          skip
          return .scalar tag style text
      | some .flowSequenceStart => skip; return .sequence (← flowItems depth true)
      | some .flowMappingStart => skip; return .mapping (← flowPairs depth true)
      | token =>
          if flush && token = some .blockEntry then
            return .sequence (← flushItems depth)
          else if block && token = some .blockSequenceStart then
            skip
            return .sequence (← blockItems depth)
          else if block && token = some .blockMappingStart then
            skip
            return .mapping (← blockPairs depth)
          else if decorated then
            return .scalar tag .plain []
          else
            fail

/-- The items of a block sequence, to its end. -/
def blockItems : Nat → Build (List Node)
  | 0 => fail
  | depth + 1 => do
      match ← peek with
      | some .blockEntry =>
          skip
          let item ←
            if ← atOneOf [.blockEntry, .blockEnd] then pure .empty else node depth true false
          return item :: (← blockItems depth)
      | some .blockEnd => skip; return []
      | _ => fail

/-- The items of a block sequence without indentation of its own. -/
def flushItems : Nat → Build (List Node)
  | 0 => fail
  | depth + 1 => do
      match ← peek with
      | some .blockEntry =>
          skip
          let item ←
            if ← atOneOf [.blockEntry, .key, .value, .blockEnd] then pure .empty
            else node depth true false
          return item :: (← flushItems depth)
      | _ => return []

/-- The pairs of a block mapping, to its end. -/
def blockPairs : Nat → Build (List (Node × Node))
  | 0 => fail
  | depth + 1 => do
      match ← peek with
      | some .key =>
          skip
          let bare := [.key, .value, .blockEnd]
          let key ← if ← atOneOf bare then pure .empty else node depth true true
          let value ←
            if ← atOneOf [.value] then do
              skip
              if ← atOneOf bare then pure .empty else node depth true true
            else
              pure .empty
          return (key, value) :: (← blockPairs depth)
      | some .blockEnd => skip; return []
      | _ => fail

/-- The items of a flow sequence, to its end.  An item may be a single pair. -/
def flowItems : Nat → (first : Bool) → Build (List Node)
  | 0, _ => fail
  | depth + 1, first => do
      if ← atOneOf [.flowSequenceEnd] then
        skip
        return []
      if !first then
        expect .flowEntry
      match ← peek with
      | some .flowSequenceEnd => skip; return []
      | some .key =>
          skip
          let key ←
            if ← atOneOf [.value, .flowEntry, .flowSequenceEnd] then do
              skip
              pure .empty
            else
              node depth false false
          let value ←
            if ← atOneOf [.value] then do
              skip
              if ← atOneOf [.flowEntry, .flowSequenceEnd] then pure .empty
              else node depth false false
            else
              pure .empty
          return .mapping [(key, value)] :: (← flowItems depth false)
      | _ =>
          let item ← node depth false false
          return item :: (← flowItems depth false)

/-- The pairs of a flow mapping, to its end.  A key may stand without a value. -/
def flowPairs : Nat → (first : Bool) → Build (List (Node × Node))
  | 0, _ => fail
  | depth + 1, first => do
      if ← atOneOf [.flowMappingEnd] then
        skip
        return []
      if !first then
        expect .flowEntry
      match ← peek with
      | some .flowMappingEnd => skip; return []
      | some .key =>
          skip
          let key ←
            if ← atOneOf [.value, .flowEntry, .flowMappingEnd] then pure .empty
            else node depth false false
          let value ←
            if ← atOneOf [.value] then do
              skip
              if ← atOneOf [.flowEntry, .flowMappingEnd] then pure .empty
              else node depth false false
            else
              pure .empty
          return (key, value) :: (← flowPairs depth false)
      | _ =>
          let key ← node depth false false
          return (key, .empty) :: (← flowPairs depth false)

end

/-! ## Documents -/

/-- The handles that need no directive. -/
def standardHandles : List (List Char × List Char) :=
  [(['!'], ['!']), (['!', '!'], "tag:yaml.org,2002:".toList)]

/-- The directives before a document: one version at most, of YAML 1.1 or 1.2, and each handle
once. -/
def directives : Nat → (versioned : Bool) → Build Unit
  | 0, _ => fail
  | depth + 1, versioned => do
      match ← peek with
      | some (.directive (.version major minor)) =>
          if versioned || major ≠ 1 || (minor ≠ 1 && minor ≠ 2) then
            fail
          skip
          directives depth true
      | some (.directive (.tag handle replacement)) =>
          if (← get).handles.any (·.1 = handle) then
            fail
          modify fun b => { b with handles := b.handles ++ [(handle, replacement)] }
          skip
          directives depth versioned
      | _ => modify fun b => { b with handles := b.handles ++ standardHandles }

/-- Pass over the marks that end a document. -/
def documentEnds : Nat → Build Unit
  | 0 => return ()
  | depth + 1 => do
      if (← peek) = some .documentEnd then
        skip
        documentEnds depth

/-- The only document of a text.  A text that holds no document counts as an empty scalar. -/
def document (depth : Nat) : Build Document := do
  let root ←
    match ← peek with
    | none => pure .empty
    | some token =>
        directives depth false
        let explicit := match token with
          | .directive _ => true
          | .documentStart => true
          | _ => false
        if explicit then
          expect .documentStart
          match ← peek with
          | none => pure .empty
          | some .documentStart => pure .empty
          | some .documentEnd => pure .empty
          | some (.directive _) => pure .empty
          | some _ => node depth true false
        else
          node depth true false
  documentEnds depth
  match ← peek with
  | none => return ⟨root, (← get).anchored⟩
  | some _ => fail

end Build

/-- The only document of a text.  Between two tokens the builder nests calls a bounded number of
times, so a depth of four times their number is never used up. -/
def Document.ofText? (text : List Char) : Option Document := do
  let tokens ← Token.ofText text
  let (document, _) ← Build.document (4 * tokens.length + 4) { tokens := tokens }
  return document

end FlowIR.Yaml
