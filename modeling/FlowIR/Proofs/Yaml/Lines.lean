import FlowIR.Proofs.Yaml.Words

/-!
# Lines of a block mapping

A line of a block mapping is a key, a colon and a value, or a key and a colon alone before the lines
of a nested mapping.  The lexer reads a line by three or four tokens; it announces the key where the
key begins, and with the first line of a mapping also the mapping.

What the lexer makes of a text is said from the end of the text: each rule says which tokens a text
has that begins with a key, a value or the end of a block, given those of what follows.
-/

namespace FlowIR.Yaml.Lexer

/-! ## One turn of the lexer -/

section Turn

variable {l : Lexer} {m : Nat} {more : List Char}

/-- Blanks are passed over up to the next token. -/
theorem skipToToken_blanks (rest : l.cursor.rest = List.replicate m ' ' ++ more)
    (solid : Solid more) (depth : Nat) :
    skipToToken (depth + 1) l = { l with cursor := l.cursor.forward m } := by
  have unmarked : l.cursor.sees '\ufeff' = false := by
    rw [Cursor.sees, Cursor.ahead?, rest]
    cases m with
    | zero =>
        cases more with
        | nil => rfl
        | cons x more => simpa using (solid x rfl).2.2
    | succ m => rfl
  have blanks : ∀ tabs : Bool,
      (l.cursor.rest.takeWhile fun x => x = ' ' || (tabs && x = '\t')).length = m := by
    intro tabs
    have stop : (more.takeWhile fun x => x = ' ' || (tabs && x = '\t')) = [] := by
      cases more with
      | nil => rfl
      | cons x more =>
          have space : isSpace x = false := (solid x rfl).1
          simp only [isSpace, isBlank, Bool.or_eq_false_iff, decide_eq_false_iff_not] at space
          simp [space]
    rw [rest, List.takeWhile_append_of_pos (by simp +contextual), stop, List.append_nil,
      List.length_replicate]
  have after : (l.cursor.forward m).rest = more := by
    simp [Cursor.forward, rest]
  have uncommented : (l.cursor.forward m).sees '#' = false := by
    rw [Cursor.sees, Cursor.ahead?, after]
    cases more with
    | nil => rfl
    | cons x more => simpa using (solid x rfl).2.1
  have unbroken : more.head?.any isBreak = false := by
    cases more with
    | nil => rfl
    | cons x more =>
        have space : isSpace x = false := (solid x rfl).1
        simp only [isSpace, Bool.or_eq_false_iff] at space
        simpa using space.2
  simp [skipToToken, unmarked, Cursor.skipWhile, blanks, Cursor.skipComment, uncommented, after,
    unbroken]

/-- A line break is passed over, and a key may begin after it. -/
theorem skipToToken_break (rest : l.cursor.rest = '\n' :: more) (block : l.outer = [])
    (depth : Nat) :
    skipToToken (depth + 1) l =
      skipToToken depth { l with cursor := l.cursor.newLine, keyAllowed := true } := by
  have unmarked : l.cursor.sees '\ufeff' = false := by simp [Cursor.sees, Cursor.ahead?, rest]
  have uncommented : l.cursor.sees '#' = false := by simp [Cursor.sees, Cursor.ahead?, rest]
  simp [skipToToken, unmarked, Cursor.skipWhile, rest, Cursor.skipComment, uncommented, inFlow,
    block, show isBreak '\n' = true from rfl]

/-- Outside of flow collections, nothing is stale at the end of a line or within a short key. -/
theorem dropStale_of_fresh (fresh : l.candidate.all (! isStale l.cursor ·) = true)
    (block : l.outer = []) :
    l.dropStale = some l := by
  have kept : freshen l.cursor l.candidate = some l.candidate := by
    cases candidate : l.candidate with
    | none => rfl
    | some candidate => simp_all [freshen]
  cases l
  simp_all [dropStale]

@[simp] theorem unrollTo_cursor (l : Lexer) (column : Nat) :
    (l.unrollTo column).cursor = l.cursor := by
  unfold unrollTo
  split <;> rfl

/-- No block ends with a token that is not left of the innermost. -/
theorem unrollTo_of_le {column : Nat} (block : l.outer = [])
    (within : ∀ indent ∈ l.indents.head?, indent ≤ column) : l.unrollTo column = l := by
  rcases l with ⟨_, _, indents, _, _, _⟩
  cases indents with
  | nil => simp_all [unrollTo, inFlow, closeDeeper]
  | cons indent indents =>
      simp_all [unrollTo, inFlow, closeDeeper, Nat.not_lt.mpr (within indent rfl)]

/-- A turn of the lexer passes over blanks, ends blocks and reads a token. -/
theorem run_token {x : Char} (rest : l.cursor.rest = List.replicate m ' ' ++ x :: more)
    (solid : Solid (x :: more)) (fresh : l.candidate.all (! isStale (l.cursor.forward m) ·) = true)
    (block : l.outer = []) (depth : Nat) :
    run (depth + 1) l =
      (({ l with cursor := l.cursor.forward m }.unrollTo (l.cursor.column + m)).lexToken x).bind
        (run depth) := by
  have after : (l.cursor.forward m).rest = x :: more := by
    simp [Cursor.forward, rest]
  have settled := dropStale_of_fresh (l := { l with cursor := l.cursor.forward m }) fresh block
  rw [run, skipToToken_blanks rest solid, settled]
  simp only [bind, Option.bind_some, unrollTo_cursor, after]
  rfl

/-- The last turn of the lexer ends all blocks. -/
theorem run_end (rest : l.cursor.rest = List.replicate m ' ') (candidate : l.candidate = none)
    (block : l.outer = []) (depth : Nat) :
    run (depth + 1) l =
      ({ l with cursor := l.cursor.forward m }.unrollTo (l.cursor.column + m)).finish := by
  have after : (l.cursor.forward m).rest = [] := by
    simp [Cursor.forward, rest]
  have settled :=
    dropStale_of_fresh (l := { l with cursor := l.cursor.forward m }) (by simp [candidate]) block
  rw [run, skipToToken_blanks (rest.trans (List.append_nil _).symm) solid_nil, settled]
  simp only [bind, Option.bind_some, unrollTo_cursor, after]
  rfl

/-- It is the same to start behind the blanks in front of a token. -/
theorem run_forward (rest : l.cursor.rest = List.replicate m ' ' ++ more) (solid : Solid more)
    (depth : Nat) : run depth { l with cursor := l.cursor.forward m } = run depth l := by
  cases depth with
  | zero => rfl
  | succ depth =>
      have after : (l.cursor.forward m).rest = List.replicate 0 ' ' ++ more := by
        simp [Cursor.forward, rest]
      have same := skipToToken_blanks (l := { l with cursor := l.cursor.forward m }) after solid
      rw [run, run, skipToToken_blanks rest solid, same, Cursor.forward_zero]

/-- A plain character begins a plain scalar. -/
theorem lexToken_of_isPlain {x : Char} (plain : isPlain x = true)
    (rest : l.cursor.rest = x :: more) :
    l.lexToken x = l.lexPlain := by
  have other : ∀ y, isPlain y = false → x ≠ y := fun y => ne_of_isPlain plain
  have starts : l.startsPlain x = true := by
    simp [startsPlain, isSpace_of_isPlain plain, isIndicator_of_isPlain plain]
  simp [lexToken, Cursor.seesMark, rest, starts, other '%' rfl, other '-' rfl, other '.' rfl,
    other '[' rfl, other '\x7b' rfl, other ']' rfl, other '\x7d' rfl, other ',' rfl, other '?' rfl,
    other ':' rfl, other '*' rfl, other '&' rfl, other '!' rfl, other '|' rfl, other '>' rfl,
    other '\'' rfl, other '"' rfl]

/-- A colon before a blank or the end of the line ends a key. -/
theorem lexToken_colon (rest : l.cursor.rest = ':' :: more)
    (apart : more.head?.all isSpace = true) :
    l.lexToken ':' = l.lexValue := by
  simp [lexToken, Cursor.seesMark, rest, Cursor.spaceAhead_one rest apart]

end Turn

/-! ## What is left of a text -/

/-- At the start of a line, where the blocks at `indents` are open, the lexer makes `result` of
the rest of the text. -/
def Lexes (indents : List Nat) (text : List Char) (result : List Token) : Prop :=
  ∀ (c : Cursor) (tokens : List Token) (depth : Nat),
    c.rest = text → c.column = 0 → text.length < depth →
      run depth { cursor := c, tokens, indents } = some (tokens ++ result)

/-- Behind the colon of a key of the block at `indent`, the lexer makes `result` of
the rest of the text. -/
def LexesValue (indent : Nat) (outer : List Nat) (text : List Char) (result : List Token) : Prop :=
  ∀ (c : Cursor) (tokens : List Token) (depth : Nat),
    c.rest = text → indent ≤ c.column → text.length < depth →
      run depth { cursor := c, tokens, indents := indent :: outer, keyAllowed := false } =
        some (tokens ++ result)

/-- The first line of a text is indented to a column at most. -/
def StartsBy (column : Nat) (text : List Char) : Prop :=
  ∃ m more, m ≤ column ∧ Solid more ∧ text = List.replicate m ' ' ++ more

theorem startsBy_nil (column : Nat) : StartsBy column [] :=
  ⟨0, [], Nat.zero_le column, solid_nil, rfl⟩

theorem StartsBy.mono {column wider : Nat} {text : List Char} (starts : StartsBy column text)
    (within : column ≤ wider) : StartsBy wider text := by
  obtain ⟨m, more, left, solid, same⟩ := starts
  exact ⟨m, more, Nat.le_trans left within, solid, same⟩

/-- A line of a block at a column: its first line, with which the block begins, or a later one. -/
inductive Enters (column : Nat) (outer : List Nat) : List Nat → List Token → Prop where
  | begin (right : ∀ indent ∈ outer.head?, indent < column) :
      Enters column outer outer [.blockMappingStart]
  | stay : Enters column outer (column :: outer) []

variable {indent column : Nat} {indents outer : List Nat} {text more word : List Char}
  {opening result : List Token}

namespace Enters

theorem head_le (enters : Enters column outer indents opening) :
    ∀ indent ∈ indents.head?, indent ≤ column := by
  cases enters with
  | begin right => exact fun indent member => Nat.le_of_lt (right indent member)
  | stay => simp

theorem rollTo (enters : Enters column outer indents opening) {l : Lexer}
    (same : l.indents = indents) (block : l.outer = []) (position : Nat) :
    l.rollTo column .blockMappingStart position =
      { l.insertAt position opening with indents := column :: outer } := by
  cases enters with
  | begin right =>
      have opens : l.opensBlock column = true := by
        rw [opensBlock, inFlow, block, same]
        cases indents with
        | nil => rfl
        | cons indent indents => simpa using right indent rfl
      simp [Lexer.rollTo, opens, same]
  | stay =>
      have stays : l.opensBlock column = false := by simp [opensBlock, same]
      cases l
      simp_all [Lexer.rollTo, insertAt]

end Enters

theorem closeDeeper_append (column : Nat) (indents : List Nat) :
    (closeDeeper column indents).1 ++ (closeDeeper column indents).2.map (fun _ => .blockEnd) =
      indents.map fun _ => .blockEnd := by
  induction indents with
  | nil => rfl
  | cons indent indents ih =>
      rw [closeDeeper]
      split
      · simpa using ih
      · rfl

/-- All blocks end with the text. -/
theorem lexes_nil (indents : List Nat) : Lexes indents [] (indents.map fun _ => .blockEnd) := by
  intro c tokens depth rest _ enough
  obtain ⟨depth, rfl⟩ := Nat.exists_eq_add_one_of_ne_zero (Nat.ne_zero_of_lt enough)
  have ends := closeDeeper_append (c.column + 0) indents
  rw [run_end (m := 0) rest rfl rfl, ← ends]
  simp [unrollTo, inFlow, finish, unrollAll, dropCandidate]

/-- A block ends with a line left of it. -/
theorem Lexes.close (read : Lexes indents text result) (starts : StartsBy column text)
    (left : column < indent) : Lexes (indent :: indents) text (.blockEnd :: result) := by
  intro c tokens depth rest start enough
  have inner := read c (tokens ++ [.blockEnd]) depth rest start enough
  obtain ⟨depth, rfl⟩ := Nat.exists_eq_add_one_of_ne_zero (Nat.ne_zero_of_lt enough)
  obtain ⟨m, more, within, solid, rfl⟩ := starts
  have deeper : c.column + m < indent := by omega
  rw [List.append_assoc, List.singleton_append] at inner
  rw [← inner]
  cases more with
  | nil =>
      rw [List.append_nil] at rest
      rw [run_end rest rfl rfl, run_end rest rfl rfl]
      simp [unrollTo, inFlow, closeDeeper, deeper]
  | cons x more =>
      rw [run_token rest solid rfl rfl, run_token rest solid rfl rfl]
      simp [unrollTo, inFlow, closeDeeper, deeper]

/-- A key alone on its line. -/
theorem Lexes.lineBreak (read : Lexes (indent :: outer) text result) :
    LexesValue indent outer ('\n' :: text) result := by
  intro c tokens depth rest _ enough
  have after : c.newLine.rest = text ∧ c.newLine.column = 0 := by
    rw [Cursor.newLine_of_rest rest]
    exact ⟨rfl, rfl⟩
  rw [List.length_cons] at enough
  rw [← read c.newLine tokens depth after.1 after.2 (by omega)]
  obtain ⟨depth, rfl⟩ := Nat.exists_eq_add_one_of_ne_zero (Nat.ne_zero_of_lt enough)
  rw [run, run, skipToToken_break rest rfl, rest, after.1]
  rfl

/-- A plain value is read with the line break and the indentation after it. -/
theorem lexPlain_value {c : Cursor} {m : Nat} (tokens : List Token) (plain : PlainWord word)
    (rest : c.rest = word ++ '\n' :: (List.replicate m ' ' ++ more)) (solid : Solid more)
    (left : m ≤ indent) :
    lexPlain { cursor := c, tokens, indents := indent :: outer, keyAllowed := false } =
      some { cursor := (c.forward word.length).newLine.forward m,
             tokens := tokens ++ [.scalar .plain word], indents := indent :: outer } := by
  have scalar := readPlain_value plain rest solid (Nat.lt_succ_of_le left)
  simp [lexPlain, saveCandidate, inFlow, contentColumn, scalar, push]

/-- A value ends with its line. -/
theorem Lexes.value (read : Lexes (indent :: outer) text result) (plain : PlainWord word)
    (starts : StartsBy indent text) :
    LexesValue indent outer (' ' :: (word ++ '\n' :: text)) (.scalar .plain word :: result) := by
  intro c tokens depth rest within enough
  obtain ⟨x, tail, rfl⟩ := List.exists_cons_of_ne_nil plain.ne_nil
  obtain ⟨m, more, left, solid, rfl⟩ := starts
  obtain ⟨depth, rfl⟩ := Nat.exists_eq_add_one_of_ne_zero (Nat.ne_zero_of_lt enough)
  have behind : (c.forward 1).rest = (x :: tail) ++ '\n' :: (List.replicate m ' ' ++ more) := by
    simp [Cursor.forward, rest]
  let atWord : Lexer :=
    { cursor := c.forward 1, tokens, indents := indent :: outer, keyAllowed := false }
  let next : Lexer :=
    { cursor := ((c.forward 1).forward (x :: tail).length).newLine,
      tokens := tokens ++ [.scalar .plain (x :: tail)], indents := indent :: outer }
  have after : next.cursor.rest = List.replicate m ' ' ++ more ∧ next.cursor.column = 0 := by
    simp only [next, Cursor.newLine_of_rest (Cursor.rest_forward_append behind), and_self]
  have inside : ∀ start ∈ (indent :: outer).head?, start ≤ c.column + 1 := by
    simpa using Nat.le_succ_of_le within
  have short : (List.replicate m ' ' ++ more).length < depth := by
    simp only [List.length_cons, List.length_append] at enough ⊢
    omega
  calc run (depth + 1) { cursor := c, tokens, indents := indent :: outer, keyAllowed := false }
      = ((atWord.unrollTo (c.column + 1)).lexToken x).bind (run depth) :=
        run_token (m := 1) rest (plain.solid_append _) rfl rfl depth
    _ = atWord.lexPlain.bind (run depth) := by
        rw [unrollTo_of_le rfl inside,
          lexToken_of_isPlain (plain.plain x List.mem_cons_self) behind]
    _ = run depth { next with cursor := next.cursor.forward m } := by
        rw [lexPlain_value tokens plain behind solid left, Option.bind_some]
    _ = run depth next := run_forward after.1 solid depth
    _ = some (tokens ++ .scalar .plain (x :: tail) :: result) := by
        rw [read _ _ depth after.1 after.2 short, List.append_assoc, List.singleton_append]

/-- The lexer behind a word that may turn out to be a key. -/
def behindWord (c : Cursor) (tokens : List Token) (indents : List Nat)
    (word : List Char) : Lexer where
  cursor := c.forward word.length
  tokens := tokens ++ [.scalar .plain word]
  indents := indents
  keyAllowed := false
  candidate := some
    { position := tokens.length, required := indents.head? = some c.column, index := c.index,
      line := c.line, column := c.column }

theorem lexPlain_key {c : Cursor} (tokens : List Token) (indents : List Nat)
    (plain : PlainWord word) (rest : c.rest = word ++ ':' :: more)
    (apart : more.head?.all isSpace = true) :
    lexPlain { cursor := c, tokens, indents } = some (behindWord c tokens indents word) := by
  simp [lexPlain, saveCandidate, inFlow, dropCandidate, push, behindWord,
    readPlain_key plain rest apart]

/-- A short word can still become a key at its end. -/
theorem fresh_behindWord (c : Cursor) (tokens : List Token) (indents : List Nat)
    (short : word.length ≤ 1024) :
    (behindWord c tokens indents word).candidate.all
      (! isStale ((behindWord c tokens indents word).cursor.forward 0) ·) = true := by
  simpa [behindWord, isStale, Cursor.forward, Nat.not_lt] using short

/-- The colon announces the key in front of the word, and the block in front of that. -/
theorem lexValue_behindWord {c : Cursor} (tokens : List Token) (word : List Char)
    (enters : Enters c.column outer indents opening) :
    (behindWord c tokens indents word).lexValue =
      some { cursor := (c.forward word.length).forward 1,
             tokens := tokens ++ opening ++ [.key, .scalar .plain word, .value],
             indents := c.column :: outer, keyAllowed := false } := by
  let keyed := (behindWord c tokens indents word).insertAt tokens.length [.key]
  have announced : (behindWord c tokens indents word).lexValue =
      some (({ keyed.rollTo c.column .blockMappingStart tokens.length with
        candidate := none, keyAllowed := false }.forward 1).push .value) := rfl
  rw [announced, enters.rollTo (l := keyed) rfl rfl]
  simp [keyed, behindWord, insertAt, forward, push]

/-- A key ends at its colon. -/
theorem LexesValue.key (read : LexesValue column outer more result) (plain : PlainWord word)
    (short : word.length ≤ 1024) (apart : more.head?.all isSpace = true)
    (enters : Enters column outer indents opening) :
    Lexes indents (List.replicate column ' ' ++ (word ++ ':' :: more))
      (opening ++ .key :: .scalar .plain word :: .value :: result) := by
  intro c tokens depth rest start enough
  obtain ⟨x, tail, rfl⟩ := List.exists_cons_of_ne_nil plain.ne_nil
  obtain ⟨depth, rfl⟩ : ∃ d, depth = d + 2 := ⟨depth - 2, by
    simp only [List.length_append, List.length_cons] at enough
    omega⟩
  let first := c.forward column
  let colon := first.forward (x :: tail).length
  have place : first.column = column := by simp [first, Cursor.forward, start]
  have behind : first.rest = (x :: tail) ++ ':' :: more := by simp [first, Cursor.forward, rest]
  have ended : colon.rest = ':' :: more := Cursor.rest_forward_append behind
  have right : column ≤ colon.column := place ▸ Nat.le_add_right first.column (x :: tail).length
  have inside : ∀ indent ∈ indents.head?, indent ≤ colon.column :=
    fun indent member => Nat.le_trans (enters.head_le indent member) right
  have final :=
    read (colon.forward 1) (tokens ++ opening ++ [.key, .scalar .plain (x :: tail), .value]) depth
    (by simp [Cursor.forward, ended]) (Nat.le_succ_of_le right) (by
      simp only [List.length_cons, List.length_append] at enough
      omega)
  calc run (depth + 2) { cursor := c, tokens, indents }
      = ((unrollTo { cursor := first, tokens, indents } (c.column + column)).lexToken x).bind
          (run (depth + 1)) :=
        run_token rest (plain.solid_append _) rfl rfl (depth + 1)
    _ = (lexPlain { cursor := first, tokens, indents }).bind (run (depth + 1)) := by
        rw [start, Nat.zero_add, unrollTo_of_le rfl enters.head_le,
          lexToken_of_isPlain (plain.plain x List.mem_cons_self) behind]
    _ = run (depth + 1) (behindWord first tokens indents (x :: tail)) := by
        rw [lexPlain_key tokens indents plain behind apart, Option.bind_some]
    _ = (((behindWord first tokens indents (x :: tail)).unrollTo (colon.column + 0)).lexToken
      ':').bind (run depth) := by
        have solid : Solid (':' :: more) := by simp [Solid, show isSpace ':' = false from rfl]
        rw [run_token (m := 0) ended solid (fresh_behindWord _ _ _ short) rfl, Cursor.forward_zero]
        rfl
    _ = (behindWord first tokens indents (x :: tail)).lexValue.bind (run depth) := by
        rw [Nat.add_zero, unrollTo_of_le rfl inside, lexToken_colon ended apart]
    _ = some (tokens ++ (opening ++ .key :: .scalar .plain (x :: tail) :: .value :: result)) := by
        rw [lexValue_behindWord tokens (x :: tail) (place ▸ enters), place, Option.bind_some, final]
        simp

end FlowIR.Yaml.Lexer
