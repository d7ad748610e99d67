import FlowIR.Yaml.Token

/-!
# Plain words

A word of letters, digits and underscores is written as a plain scalar as it is.  The reader of
scalars takes all of it and stops at the colon after a key, or passes over the line break and the
indentation after a value and stops where the next line begins.
-/

namespace FlowIR.Yaml

/-! ## Characters -/

/-- A letter, a digit or an underscore. -/
def isPlain (c : Char) : Bool :=
  isWord c && c != '-'

theorem ne_of_isPlain {c x : Char} (plain : isPlain c = true)
    (other : isPlain x = false) : c ≠ x := by
  rintro rfl
  rw [plain] at other
  contradiction

/-- A plain character is none of some others. -/
theorem not_mem_of_isPlain {c : Char} {others : List Char} (plain : isPlain c = true)
    (none : others.all (! isPlain ·) = true) : c ∉ others := by
  intro member
  have other := List.all_eq_true.mp none c member
  rw [plain] at other
  contradiction

theorem isBreak_of_isPlain {c : Char} (plain : isPlain c = true) : isBreak c = false := by
  have none := not_mem_of_isPlain plain
    (show (['\n', '\r', '\x85', '\u2028', '\u2029'].all (! isPlain ·)) by decide)
  simpa [isBreak, and_assoc] using none

theorem isSpace_of_isPlain {c : Char} (plain : isPlain c = true) : isSpace c = false := by
  have none := not_mem_of_isPlain plain (show ([' ', '\t'].all (! isPlain ·)) by decide)
  rw [isSpace, isBreak_of_isPlain plain]
  simpa [isBlank] using none

theorem isIndicator_of_isPlain {c : Char} (plain : isPlain c = true) :
    Lexer.isIndicator c = false := by
  unfold Lexer.isIndicator
  rw [List.contains_eq_mem, decide_eq_false_iff_not]
  exact not_mem_of_isPlain plain (by decide)

theorem isAllowed_of_isPlain {c : Char} (plain : isPlain c = true) : isAllowed c = true := by
  have between : 0x20 ≤ c.toNat ∧ c.toNat ≤ 0x7E := by
    simp only [isPlain, isWord, Bool.and_eq_true, Bool.or_eq_true, decide_eq_true_eq] at plain
    rcases plain.1 with (((digit | capital) | small) | rfl) | rfl
    · exact ⟨Nat.le_trans (by decide) digit.1, Nat.le_trans digit.2 (by decide)⟩
    · exact ⟨Nat.le_trans (by decide) capital.1, Nat.le_trans capital.2 (by decide)⟩
    · exact ⟨Nat.le_trans (by decide) small.1, Nat.le_trans small.2 (by decide)⟩
    · decide
    · decide
  simp [isAllowed, between]

/-- A word that can stand as it is. -/
structure PlainWord (word : List Char) : Prop where
  ne_nil : word ≠ []
  plain : ∀ c ∈ word, isPlain c = true

instance (word : List Char) : Decidable (PlainWord word) :=
  decidable_of_iff (word ≠ [] ∧ word.all isPlain = true)
    ⟨fun both => ⟨both.1, List.all_eq_true.mp both.2⟩,
      fun plain => ⟨plain.ne_nil, List.all_eq_true.mpr plain.plain⟩⟩

/-! ## Places -/

namespace Cursor

theorem forward_forward (c : Cursor) (m n : Nat) : (c.forward m).forward n = c.forward (m + n) := by
  simp [forward, Nat.add_assoc]

@[simp] theorem forward_zero (c : Cursor) : c.forward 0 = c := by
  simp [forward]

theorem rest_forward_append {c : Cursor} {passed more : List Char}
    (rest : c.rest = passed ++ more) :
    (c.forward passed.length).rest = more := by
  simp [forward, rest]

/-- What follows one character ahead. -/
theorem spaceAhead_one {c : Cursor} {x : Char} {more : List Char} (rest : c.rest = x :: more)
    (apart : more.head?.all isSpace = true) : c.spaceAhead 1 = true := by
  unfold spaceAhead ahead?
  rw [rest]
  cases more with
  | nil => rfl
  | cons y more => simpa using apart

theorem newLine_of_rest {c : Cursor} {more : List Char} (rest : c.rest = '\n' :: more) :
    c.newLine = { rest := more, index := c.index + 1, line := c.line + 1, column := 0 } := by
  have one : breakLength ('\n' :: more) = 1 := rfl
  simp [newLine, rest, one]

end Cursor

/-- Nothing, or what begins with a character that is not passed over in front of a token. -/
def Solid (text : List Char) : Prop :=
  ∀ c ∈ text.head?, isSpace c = false ∧ c ≠ '#' ∧ c ≠ '\ufeff'

theorem solid_nil : Solid [] := by
  simp [Solid]

/-- A plain word is not passed over. -/
theorem PlainWord.solid_append {word : List Char} (plain : PlainWord word) (more : List Char) :
    Solid (word ++ more) := by
  obtain ⟨x, word, rfl⟩ := List.exists_cons_of_ne_nil plain.ne_nil
  have first := plain.plain x List.mem_cons_self
  intro c head
  obtain rfl : x = c := by simpa using head
  exact ⟨isSpace_of_isPlain first, ne_of_isPlain first rfl, ne_of_isPlain first rfl⟩

/-- Indentation after a line break is passed over. -/
theorem Gap.read_indentation {least depth m : Nat} {gap : Gap} {c : Cursor} {more : List Char}
    (broken : gap.broken = true) (rest : c.rest = List.replicate m ' ' ++ more) (solid : Solid more)
    (enough : m < depth) : Gap.read least depth gap c = some (gap, c.forward m) := by
  induction m generalizing depth c with
  | zero =>
      obtain ⟨depth, rfl⟩ := Nat.exists_eq_add_one_of_ne_zero (Nat.ne_zero_of_lt enough)
      rw [List.replicate_zero, List.nil_append] at rest
      unfold Gap.read
      rw [rest]
      cases more with
      | nil => simp
      | cons x more =>
          have word : isSpace x = false := (solid x rfl).1
          simp only [isSpace, Bool.or_eq_false_iff] at word
          simp [word]
  | succ m ih =>
      obtain ⟨depth, rfl⟩ := Nat.exists_eq_add_one_of_ne_zero (Nat.ne_zero_of_lt enough)
      have next : (c.forward 1).rest = List.replicate m ' ' ++ more := by
        simp [Cursor.forward, rest, List.replicate_succ]
      have later : Gap.read least depth gap (c.forward 1) = some (gap, (c.forward 1).forward m) :=
        ih next (by omega)
      unfold Gap.read
      rw [rest, List.replicate_succ, List.cons_append]
      simp only [show isBlank ' ' = true from rfl, if_true, broken]
      rw [if_neg (by simp), later, Cursor.forward_forward, Nat.add_comm]

/-- A line break with the indentation after it is one gap. -/
theorem Gap.exists_readFrom (least : Nat) {m : Nat} {c : Cursor} {more : List Char}
    (rest : c.rest = '\n' :: (List.replicate m ' ' ++ more)) (solid : Solid more) :
    ∃ gap : Gap, gap.broken = true ∧ Gap.readFrom least {} c = some (gap, c.newLine.forward m) := by
  refine ⟨{ broken := true, firstBreak := breakText c.rest }, rfl, ?_⟩
  have indented : c.newLine.rest = List.replicate m ' ' ++ more := by
    rw [Cursor.newLine_of_rest rest]
  have enough : m < c.rest.length := by
    rw [rest, List.length_cons, List.length_append, List.length_replicate]
    omega
  rw [Gap.readFrom, Gap.read, rest]
  rw [rest] at enough
  exact Gap.read_indentation rfl indented solid enough

/-! ## Reading words -/

section Plain

variable {least depth : Nat} {c : Cursor} {word more : List Char}

/-- A plain character belongs to the scalar. -/
theorem readPlainAt_cons {x : Char} (plain : isPlain x = true) (rest : c.rest = x :: more) :
    readPlainAt false least (depth + 1) {} c =
      (readPlainAt false least depth {} (c.forward 1)).map fun read => (x :: read.1, read.2) := by
  have colon : x ≠ ':' := ne_of_isPlain plain rfl
  rw [readPlainAt, rest]
  simp only [isSpace_of_isPlain plain, colon]
  cases readPlainAt false least depth {} (c.forward 1) <;> rfl

/-- The characters of a word are read one after the other. -/
theorem readPlainAt_append (plain : ∀ x ∈ word, isPlain x = true) (rest : c.rest = word ++ more) :
    readPlainAt false least (depth + word.length) {} c =
      (readPlainAt false least depth {} (c.forward word.length)).map fun read =>
        (word ++ read.1, read.2) := by
  induction word generalizing c with
  | nil => simp
  | cons x word ih =>
      have next : (c.forward 1).rest = word ++ more := by simp [Cursor.forward, rest]
      rw [List.length_cons, ← Nat.add_assoc, readPlainAt_cons (plain x List.mem_cons_self) rest,
        ih (fun y member => plain y (List.mem_cons_of_mem _ member)) next, Cursor.forward_forward,
        Nat.add_comm 1, Option.map_map]
      rfl

/-- A word is read to its end, if the scalar ends there. -/
theorem readPlain_of_ended {next : Cursor} {broken : Bool} (plain : PlainWord word)
    (rest : c.rest = word ++ more)
    (ended : ∀ depth,
      readPlainAt false least (depth + 1) {} (c.forward word.length) = some ([], next, broken)) :
    readPlain false least c = some (word, next, broken) := by
  have length : 2 * c.rest.length + 2 =
      (2 * c.rest.length + 1 - word.length) + 1 + word.length := by
    rw [rest, List.length_append]
    omega
  rw [readPlain, length, readPlainAt_append plain.plain rest, ended]
  simp

/-- A word that is a key ends at the colon. -/
theorem readPlain_key (plain : PlainWord word) (rest : c.rest = word ++ ':' :: more)
    (apart : more.head?.all isSpace = true) :
    readPlain false least c = some (word, c.forward word.length, false) := by
  have after : (c.forward word.length).rest = ':' :: more := Cursor.rest_forward_append rest
  refine readPlain_of_ended plain rest fun depth => ?_
  rw [readPlainAt, after]
  simp [Cursor.spaceAhead_one after apart, show isSpace ':' = false from rfl]

/-- A word that is a value ends with its line, if the next line begins left of column `least`. -/
theorem readPlain_value (plain : PlainWord word) {m : Nat}
    (rest : c.rest = word ++ '\n' :: (List.replicate m ' ' ++ more)) (solid : Solid more)
    (left : m < least) :
    readPlain false least c = some (word, (c.forward word.length).newLine.forward m, true) := by
  have after : (c.forward word.length).rest = '\n' :: (List.replicate m ' ' ++ more) :=
    Cursor.rest_forward_append rest
  obtain ⟨gap, broken, passed⟩ := Gap.exists_readFrom least after solid
  have column : ((c.forward word.length).newLine.forward m).column = m := by
    rw [Cursor.newLine_of_rest after]
    simp [Cursor.forward]
  refine readPlain_of_ended plain rest fun depth => ?_
  rw [readPlainAt, after]
  simp [show isSpace '\n' = true from rfl, passed, column, left, broken]

end Plain

end FlowIR.Yaml
