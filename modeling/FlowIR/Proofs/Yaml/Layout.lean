import FlowIR.Proofs.Yaml.Lines
import FlowIR.Yaml.Node

/-!
# Mappings of plain words

A block mapping whose keys and scalars are plain words is read back from the text in which each
entry has a line of its own and nested mappings are indented by two columns more.
-/

namespace FlowIR.Yaml

/-- A word that can stand before a colon: a key is given up after so many characters. -/
structure PlainKey (word : List Char) : Prop extends PlainWord word where
  short : word.length ≤ 1024

instance (word : List Char) : Decidable (PlainKey word) :=
  decidable_of_iff (PlainWord word ∧ word.length ≤ 1024)
    ⟨fun both => ⟨both.1, both.2⟩, fun key => ⟨key.toPlainWord, key.short⟩⟩

/-- A mapping from words to words and mappings, entry by entry. -/
inductive Layout where
  | nil
  | pair (key value : List Char) (rest : Layout)
  | nest (key : List Char) (inner rest : Layout)
deriving DecidableEq

namespace Layout

/-- All words are plain, and no nested mapping is empty. -/
def Plain : Layout → Prop
  | nil => True
  | pair key value rest => PlainKey key ∧ PlainWord value ∧ rest.Plain
  | nest key inner rest => PlainKey key ∧ (inner ≠ nil ∧ inner.Plain) ∧ rest.Plain

/-- The lines of a mapping that begins at a column. -/
def text (column : Nat) : Layout → List Char
  | nil => []
  | pair key value rest =>
      List.replicate column ' ' ++ (key ++ ':' :: ' ' :: (value ++ '\n' :: rest.text column))
  | nest key inner rest =>
      List.replicate column ' ' ++
        (key ++ ':' :: '\n' :: (inner.text (column + 2) ++ rest.text column))

/-- The tokens of the entries. -/
def tokens : Layout → List Token
  | nil => []
  | pair key value rest =>
      .key :: .scalar .plain key :: .value :: .scalar .plain value :: rest.tokens
  | nest key inner rest =>
      .key :: .scalar .plain key :: .value :: .blockMappingStart ::
        (inner.tokens ++ .blockEnd :: rest.tokens)

/-- The entries as nodes. -/
def pairs : Layout → List (Node × Node)
  | nil => []
  | pair key value rest => (.scalar none .plain key, .scalar none .plain value) :: rest.pairs
  | nest key inner rest => (.scalar none .plain key, .mapping inner.pairs) :: rest.pairs

/-! ## From text to tokens -/

section Lexing

open Lexer

theorem all_isAllowed_of_plainWord {word : List Char} (plain : PlainWord word) :
    word.all isAllowed = true :=
  List.all_eq_true.mpr fun c member => isAllowed_of_isPlain (plain.plain c member)

theorem all_isAllowed_text {layout : Layout} (plain : layout.Plain) (column : Nat) :
    (layout.text column).all isAllowed = true := by
  have marks : isAllowed ' ' = true ∧ isAllowed ':' = true ∧ isAllowed '\n' = true :=
    ⟨rfl, rfl, rfl⟩
  induction layout generalizing column with
  | nil => rfl
  | pair key value rest ih =>
      obtain ⟨keyPlain, valuePlain, restPlain⟩ := plain
      simp [text, marks, all_isAllowed_of_plainWord keyPlain.toPlainWord,
        all_isAllowed_of_plainWord valuePlain, ih restPlain]
  | nest key inner rest ihInner ih =>
      obtain ⟨keyPlain, ⟨_, innerPlain⟩, restPlain⟩ := plain
      simp [text, marks, all_isAllowed_of_plainWord keyPlain.toPlainWord, ihInner innerPlain,
        ih restPlain]

theorem startsBy_text {layout : Layout} (plain : layout.Plain) {column : Nat} {more : List Char}
    (starts : StartsBy column more) : StartsBy column (layout.text column ++ more) := by
  cases layout with
  | nil => exact starts
  | pair key value rest =>
      rw [text, List.append_assoc, List.append_assoc]
      exact ⟨column, _, Nat.le_refl column, plain.1.solid_append _, rfl⟩
  | nest key inner rest =>
      rw [text, List.append_assoc, List.append_assoc]
      exact ⟨column, _, Nat.le_refl column, plain.1.solid_append _, rfl⟩

/-- The lexer makes the tokens of a mapping of its lines: of all, or of those after the first. -/
theorem lexes_text {layout : Layout} (plain : layout.Plain) {column : Nat}
    {outer indents : List Nat} {opening result : List Token} {more : List Char}
    (enters : Enters column outer indents opening) (entered : layout = nil → opening = [])
    (starts : StartsBy column more) (read : Lexes (column :: outer) more result) :
    Lexes indents (layout.text column ++ more) (opening ++ (layout.tokens ++ result)) := by
  induction layout generalizing column outer indents opening more result with
  | nil =>
      cases enters with
      | begin => exact absurd (entered rfl) (List.cons_ne_nil _ _)
      | stay => exact read
  | pair key value rest ih =>
      obtain ⟨keyPlain, valuePlain, restPlain⟩ := plain
      have later := ih restPlain .stay (fun _ => rfl) starts read
      have line :=
        (later.value valuePlain (startsBy_text restPlain starts)).key keyPlain.toPlainWord
        keyPlain.short rfl enters
      simpa [text, tokens] using line
  | nest key inner rest ihInner ih =>
      obtain ⟨keyPlain, ⟨nonempty, innerPlain⟩, restPlain⟩ := plain
      have later := ih restPlain .stay (fun _ => rfl) starts read
      have next : StartsBy column (rest.text column ++ more) := startsBy_text restPlain starts
      have nested := ihInner innerPlain (.begin (by simp)) (absurd · nonempty)
        (next.mono (Nat.le_add_right column 2)) (later.close next (by omega))
      have line := nested.lineBreak.key keyPlain.toPlainWord keyPlain.short rfl enters
      simpa [text, tokens] using line

/-- The tokens of the text of a mapping. -/
theorem ofText_text {layout : Layout} (plain : layout.Plain) (nonempty : layout ≠ nil) :
    Token.ofText (layout.text 0) = some (.blockMappingStart :: (layout.tokens ++ [.blockEnd])) := by
  have allowed : (layout.text 0).all isAllowed = true := all_isAllowed_text plain 0
  have lexed :=
    lexes_text plain (.begin (by simp)) (absurd · nonempty) (startsBy_nil 0) (lexes_nil [0])
  rw [List.append_nil] at lexed
  rw [Token.ofText, if_pos allowed]
  exact lexed _ [] _ rfl rfl (Nat.lt_succ_self _)

end Lexing

end Layout

/-! ## From tokens to nodes -/

namespace Build

variable (b : Builder) (depth : Nat) (flush : Bool) (more : List Token)

theorem node_scalar (block : Bool) (style : Style) (text : List Char) :
    node (depth + 2) block flush { b with tokens := .scalar style text :: more } =
      some (.scalar none style text, { b with tokens := more }) :=
  rfl

theorem content_mapping (tag : Option (List Char)) (decorated : Bool) :
    content (depth + 1) true flush tag decorated { b with tokens := .blockMappingStart :: more } =
      (blockPairs depth { b with tokens := more }).bind fun made =>
      some (.mapping made.1, made.2) := by
  cases flush <;> rfl

theorem node_mapping :
    node (depth + 2) true flush { b with tokens := .blockMappingStart :: more } =
      (blockPairs depth { b with tokens := more }).bind fun made =>
      some (.mapping made.1, made.2) := by
  have inside : node (depth + 2) true flush { b with tokens := .blockMappingStart :: more } =
      (content (depth + 1) true flush none false
        { b with tokens := .blockMappingStart :: more }).bind
        some := rfl
  rw [inside, content_mapping, Option.bind_fun_some]

theorem blockPairs_end :
    blockPairs (depth + 1) { b with tokens := .blockEnd :: more } =
      some ([], { b with tokens := more }) :=
  rfl

/-- A key and a value of any kind. -/
theorem blockPairs_key (key : List Char) {token : Token}
    (there : token ∉ [.key, .value, .blockEnd]) :
    blockPairs (depth + 3)
      { b with tokens := .key :: .scalar .plain key :: .value :: token :: more } =
      (node (depth + 2) true true { b with tokens := token :: more }).bind fun value =>
        (blockPairs (depth + 2) value.2).bind fun made =>
          some ((.scalar none .plain key, value.1) :: made.1, made.2) := by
  cases token <;> first | rfl | simp at there

/-- A document that is a block mapping to its end. -/
theorem document_mapping {pairs : List (Node × Node)}
    (made : blockPairs depth { tokens := more, handles := standardHandles } =
      some (pairs, { tokens := [], handles := standardHandles })) :
    document (depth + 2) { tokens := .blockMappingStart :: more } =
      some (⟨.mapping pairs, []⟩, { tokens := [], handles := standardHandles }) := by
  have root := node_mapping { tokens := [], handles := standardHandles } depth false more
  rw [made, Option.bind_some] at root
  show (node (depth + 2) true false
    { tokens := .blockMappingStart :: more, handles := standardHandles }).bind _ = _
  rw [root]
  rfl

end Build

namespace Layout

open Build

/-- The builder reads the entries of a mapping off their tokens. -/
theorem blockPairs_tokens (layout : Layout) (b : Builder) (more : List Token) {depth : Nat}
    (enough : layout.tokens.length < depth) :
    blockPairs depth { b with tokens := layout.tokens ++ .blockEnd :: more } =
      some (layout.pairs, { b with tokens := more }) := by
  induction layout generalizing depth more with
  | nil =>
      obtain ⟨depth, rfl⟩ := Nat.exists_eq_add_one_of_ne_zero (Nat.ne_zero_of_lt enough)
      exact blockPairs_end b depth more
  | pair key value rest ih =>
      simp only [tokens, List.length_cons] at enough
      obtain ⟨depth, rfl⟩ : ∃ d, depth = d + 3 := ⟨depth - 3, by omega⟩
      simp only [tokens, List.cons_append]
      rw [blockPairs_key _ _ _ _ (by simp), node_scalar, Option.bind_some, ih more (by omega)]
      rfl
  | nest key inner rest ihInner ih =>
      simp only [tokens, List.length_cons, List.length_append] at enough
      obtain ⟨depth, rfl⟩ : ∃ d, depth = d + 3 := ⟨depth - 3, by omega⟩
      simp only [tokens, List.cons_append, List.append_assoc]
      rw [blockPairs_key _ _ _ _ (by simp), node_mapping, ihInner _ (by omega), Option.bind_some,
        Option.bind_some, ih more (by omega)]
      rfl

/-- A mapping is read back from its text. -/
theorem ofText?_text {layout : Layout} (plain : layout.Plain) (nonempty : layout ≠ nil) :
    Document.ofText? (layout.text 0) = some ⟨.mapping layout.pairs, []⟩ := by
  have depth : 4 * (Token.blockMappingStart :: (layout.tokens ++ [.blockEnd])).length + 4 =
      4 * layout.tokens.length + 10 + 2 := by
    simp only [List.length_cons, List.length_append, List.length_nil]
    omega
  have made := blockPairs_tokens layout { tokens := [], handles := standardHandles } []
    (show layout.tokens.length < 4 * layout.tokens.length + 10 by omega)
  rw [Document.ofText?, ofText_text plain nonempty]
  simp only [bind, Option.bind_some]
  rw [depth, document_mapping _ _ made]
  rfl

example :
    (pair ['a'] ['1'] (nest ['b'] (pair ['c'] ['2'] nil) nil)).text 0 =
      "a: 1\nb:\n  c: 2\n".toList := by
  decide

end Layout

end FlowIR.Yaml
