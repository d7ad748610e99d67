import FlowIR.Interchange.Edge
import FlowIR.Policy.Document
import FlowIR.Proofs.Json.Lawful

/-!
# Exchanged values

Variables, labels, literals, operands, instructions, block ids, edges and policies are read back
from their texts.  For each type it is said which values are in range: depths, indices of
temporaries, graphs and blocks have 32 bits, the identities of literals, the positions of arguments
and the limits of a policy 64, and fixnums 64 with a sign.  Nothing else limits a value, in
particular no text in it.

What is written of a value is a record or an alternative with known names, so reading it comes down
to reading its parts; for each constructor the proof first says which parts these are.
-/

namespace FlowIR

open Json
open JsonCodec (decode encode Faithful faithful readText writeText)
open Ranged (InRange)
open LawfulCodec (integral_encode encode_ne_null decode_encode_iff)

/-! ## Variables and labels -/

instance : Ranged Local where
  InRange place := place.depth ≤ greatest32

@[simp] theorem Local.inRange_iff {place : Local} : InRange place ↔ place.depth ≤ greatest32 :=
  Iff.rfl

instance : LawfulCodec Local where
  integral_encode place := integral_record ⟨.string _, .integer _⟩
  encode_ne_null := nofun
  decode_encode_iff {place other} := by
    have read : decode (encode place) = (do
        return Local.mk place.name (← natUpTo? greatest32 (nat place.depth))) := rfl
    simp [read, Option.bind_eq_some_iff]

instance : Ranged Variable where
  InRange
    | .named place => InRange place
    | .temporary index => index ≤ greatest32

@[simp] theorem Variable.inRange_named {place : Local} : InRange (named place) ↔ InRange place :=
  Iff.rfl

@[simp] theorem Variable.inRange_temporary {index : Nat} :
    InRange (temporary index) ↔ index ≤ greatest32 :=
  Iff.rfl

instance : LawfulCodec Variable where
  integral_encode
    | .named place => integral_tagged "Local" (integral_encode place)
    | .temporary _ => integral_tagged "Temporary" (integral_record (.integer _))
  encode_ne_null
    | .named _ => nofun
    | .temporary _ => nofun
  decode_encode_iff {v other} := by
    cases v with
    | named place =>
        have read : decode (encode (Variable.named place)) = (do
            return Variable.named (← decode (encode place))) := rfl
        simp [read, Option.bind_eq_some_iff, decode_encode_iff]
    | temporary index =>
        have read : decode (encode (Variable.temporary index)) = (do
            return Variable.temporary (← natUpTo? greatest32 (nat index))) := rfl
        simp [read, Option.bind_eq_some_iff]

instance : Ranged Label where
  InRange _ := True

@[simp] theorem Label.inRange (label : Label) : InRange label :=
  trivial

instance : LawfulCodec Label where
  integral_encode _ := .string _
  encode_ne_null := nofun
  decode_encode_iff {label other} := by
    have read : decode (encode label) = some label := rfl
    simp [read]

/-! ## Literals and operands -/

instance : Ranged Constant where
  InRange
    | .fixnum value => -9223372036854775808 ≤ value ∧ value < 9223372036854775808
    | _ => True

@[simp] theorem Constant.inRange_fixnum {value : Int} :
    InRange (fixnum value) ↔ -9223372036854775808 ≤ value ∧ value < 9223372036854775808 :=
  Iff.rfl

instance : LawfulCodec Constant where
  integral_encode
    | .fixnum _ => integral_tagged "Fixnum" (.integer _)
    | .bignum _ => integral_tagged "Bignum" (.string _)
    | .str _ => integral_tagged "Str" (.string _)
    | .symbol _ => integral_tagged "Symbol" (.string _)
    | .nil => .string _
    | .boolean true => .string _
    | .boolean false => .string _
  encode_ne_null
    | .fixnum _ => nofun
    | .bignum _ => nofun
    | .str _ => nofun
    | .symbol _ => nofun
    | .nil => nofun
    | .boolean true => nofun
    | .boolean false => nofun
  decode_encode_iff {constant other} := by
    -- All constants but the fixnums are in range and read back as they are.
    have unlimited : some constant = some other ↔ True ∧ constant = other := by simp
    cases constant with
    | fixnum value =>
        have read : decode (encode (Constant.fixnum value)) = (do
            return Constant.fixnum (← signed64? (integer value))) := rfl
        simp [read, Option.bind_eq_some_iff]
    | bignum digits => exact unlimited
    | str s => exact unlimited
    | symbol name => exact unlimited
    | nil => exact unlimited
    | boolean value => cases value <;> exact unlimited

instance : Ranged Literal where
  InRange literal := literal.id ≤ greatest64 ∧ InRange literal.constant

@[simp] theorem Literal.inRange_iff {literal : Literal} :
    InRange literal ↔ literal.id ≤ greatest64 ∧ InRange literal.constant :=
  Iff.rfl

instance : LawfulCodec Literal where
  integral_encode literal := integral_record ⟨.integer _, integral_encode literal.constant⟩
  encode_ne_null := nofun
  decode_encode_iff {literal other} := by
    have read : decode (encode literal) = (do
        return Literal.mk (← natUpTo? greatest64 (nat literal.id))
          (← decode (encode literal.constant))) := rfl
    simp [read, Option.bind_eq_some_iff, decode_encode_iff, and_assoc]

instance : Ranged Operand where
  InRange
    | .var v => InRange v
    | .label label => InRange label
    | .lit literal => InRange literal

@[simp] theorem Operand.inRange_var {v : Variable} : InRange (var v) ↔ InRange v :=
  Iff.rfl

@[simp] theorem Operand.inRange_label (target : Label) : InRange (label target) :=
  trivial

@[simp] theorem Operand.inRange_lit {literal : Literal} : InRange (lit literal) ↔ InRange literal :=
  Iff.rfl

instance : LawfulCodec Operand where
  integral_encode
    | .var v => integral_tagged "Variable" (integral_encode v)
    | .label label => integral_tagged "Label" (integral_encode label)
    | .lit literal => integral_tagged "Literal" (integral_encode literal)
  encode_ne_null
    | .var _ => nofun
    | .label _ => nofun
    | .lit _ => nofun
  decode_encode_iff {operand other} := by
    cases operand with
    | var v =>
        have read : decode (encode (Operand.var v)) = (do
            return Operand.var (← decode (encode v))) := rfl
        simp [read, Option.bind_eq_some_iff, decode_encode_iff]
    | label target =>
        have read : decode (encode (Operand.label target)) = (do
            return Operand.label (← decode (encode target))) := rfl
        simp [read, Option.bind_eq_some_iff, decode_encode_iff]
    | lit literal =>
        have read : decode (encode (Operand.lit literal)) = (do
            return Operand.lit (← decode (encode literal))) := rfl
        simp [read, Option.bind_eq_some_iff, decode_encode_iff, and_assoc]

/-! ## Instructions -/

/-- What an instruction writes and reads is in range, and so is the position of an argument. -/
instance : Ranged Instr where
  InRange instr :=
    InRange instr.result? ∧ InRange instr.operands ∧
      match instr with
      | .receiveArgument _ index => index ≤ greatest64
      | _ => True

theorem Instr.inRange_iff {instr : Instr} :
    InRange instr ↔ InRange instr.result? ∧ InRange instr.operands ∧
      match instr with
      | .receiveArgument _ index => index ≤ greatest64
      | _ => True :=
  Iff.rfl

instance : LawfulCodec Instr where
  integral_encode
    | .copy result source =>
        integral_tagged "Copy" (integral_record ⟨integral_encode result, integral_encode source⟩)
    | .call result receiver _ args closure =>
        integral_tagged "Call" (integral_record ⟨integral_orNull result, integral_encode receiver,
          .string _, integral_array args, integral_orNull closure⟩)
    | .yield result block arg =>
        integral_tagged "Yield" (integral_record ⟨integral_orNull result, integral_encode block,
          integral_orNull arg⟩)
    | .receiveSelf result =>
        integral_tagged "ReceiveSelf" (integral_record (integral_encode result))
    | .receiveArgument result _ =>
        integral_tagged "ReceiveArgument" (integral_record ⟨integral_encode result, .integer _⟩)
    | .receiveClosure result =>
        integral_tagged "ReceiveClosure" (integral_record (integral_encode result))
    | .methodReturn value => integral_tagged "Return" (integral_record (integral_encode value))
    | .closureReturn value =>
        integral_tagged "ClosureReturn" (integral_record (integral_encode value))
    | .jump target => integral_tagged "Jump" (integral_record (integral_encode target))
    | .branch condition target =>
        integral_tagged "Branch" (integral_record ⟨integral_encode condition,
          integral_encode target⟩)
    | .nop => .string _
  encode_ne_null instr := by cases instr <;> nofun
  decode_encode_iff {instr other} := by
    rw [Instr.inRange_iff]
    cases instr with
    | copy result source =>
        have read : decode (encode (Instr.copy result source)) = (do
            return Instr.copy (← decode (encode result)) (← decode (encode source))) := rfl
        simp [read, Instr.result?, Instr.operands, Option.bind_eq_some_iff, decode_encode_iff,
          and_assoc]
    | call result receiver method args closure =>
        have read : decode (encode (Instr.call result receiver method args closure)) = (do
            return Instr.call (← optional? decode (orNull (result.map encode)))
              (← decode (encode receiver)) method (← list? decode (array (args.map encode)))
              (← optional? decode (orNull (closure.map encode)))) := rfl
        simp [read, Instr.result?, Instr.operands, Option.bind_eq_some_iff, decode_encode_iff,
          and_assoc]
    | yield result block arg =>
        have read : decode (encode (Instr.yield result block arg)) = (do
            return Instr.yield (← optional? decode (orNull (result.map encode)))
              (← decode (encode block)) (← optional? decode (orNull (arg.map encode)))) := rfl
        simp [read, Instr.result?, Instr.operands, Option.bind_eq_some_iff, decode_encode_iff,
          and_assoc]
    | receiveSelf result =>
        have read : decode (encode (Instr.receiveSelf result)) = (do
            return Instr.receiveSelf (← decode (encode result))) := rfl
        simp [read, Instr.result?, Instr.operands, Option.bind_eq_some_iff, decode_encode_iff]
    | receiveArgument result index =>
        have read : decode (encode (Instr.receiveArgument result index)) = (do
            return Instr.receiveArgument (← decode (encode result))
              (← natUpTo? greatest64 (nat index))) := rfl
        simp [read, Instr.result?, Instr.operands, Option.bind_eq_some_iff, decode_encode_iff,
          and_assoc]
    | receiveClosure result =>
        have read : decode (encode (Instr.receiveClosure result)) = (do
            return Instr.receiveClosure (← decode (encode result))) := rfl
        simp [read, Instr.result?, Instr.operands, Option.bind_eq_some_iff, decode_encode_iff]
    | methodReturn value =>
        have read : decode (encode (Instr.methodReturn value)) = (do
            return Instr.methodReturn (← decode (encode value))) := rfl
        simp [read, Instr.result?, Instr.operands, Option.bind_eq_some_iff, decode_encode_iff]
    | closureReturn value =>
        have read : decode (encode (Instr.closureReturn value)) = (do
            return Instr.closureReturn (← decode (encode value))) := rfl
        simp [read, Instr.result?, Instr.operands, Option.bind_eq_some_iff, decode_encode_iff]
    | jump target =>
        have read : decode (encode (Instr.jump target)) = (do
            return Instr.jump (← decode (encode target))) := rfl
        simp [read, Instr.result?, Instr.operands, Option.bind_eq_some_iff, decode_encode_iff]
    | branch condition target =>
        have read : decode (encode (Instr.branch condition target)) = (do
            return Instr.branch (← decode (encode condition)) (← decode (encode target))) := rfl
        simp [read, Instr.result?, Instr.operands, Option.bind_eq_some_iff, decode_encode_iff]
    | nop =>
        have read : decode (encode Instr.nop) = some Instr.nop := rfl
        simp [read, Instr.result?, Instr.operands]

/-! ## Edges -/

instance : Ranged BlockId where
  InRange id := id.graph ≤ greatest32 ∧ id.index ≤ greatest32

@[simp] theorem BlockId.inRange_iff {id : BlockId} :
    InRange id ↔ id.graph ≤ greatest32 ∧ id.index ≤ greatest32 :=
  Iff.rfl

instance : LawfulCodec BlockId where
  integral_encode _ := integral_record ⟨.integer _, .integer _⟩
  encode_ne_null := nofun
  decode_encode_iff {id other} := by
    have read : decode (encode id) = (do
        return BlockId.mk (← natUpTo? greatest32 (nat id.graph))
          (← natUpTo? greatest32 (nat id.index))) := rfl
    simp [read, Option.bind_eq_some_iff, and_assoc]

instance : Ranged EdgeKind where
  InRange _ := True

@[simp] theorem EdgeKind.inRange (kind : EdgeKind) : InRange kind :=
  trivial

instance : LawfulCodec EdgeKind where
  integral_encode _ := .string _
  encode_ne_null := nofun
  decode_encode_iff {kind other} := by
    have read : decode (encode kind) = some kind := by cases kind <;> rfl
    simp [read]

instance : Ranged Edge where
  InRange edge := InRange edge.source ∧ InRange edge.destination ∧ InRange edge.data

theorem Edge.inRange_iff {edge : Edge} :
    InRange edge ↔ InRange edge.source ∧ InRange edge.destination ∧ InRange edge.data :=
  Iff.rfl

instance : LawfulCodec Edge where
  integral_encode
    | ⟨source, destination, kind, none⟩ =>
        integral_record ⟨integral_encode source, integral_encode destination, integral_encode kind⟩
    | ⟨source, destination, kind, some data⟩ =>
        integral_record ⟨integral_encode source, integral_encode destination, integral_encode kind,
          integral_encode data⟩
  encode_ne_null := nofun
  decode_encode_iff {edge other} := by
    rcases edge with ⟨source, destination, kind, data⟩
    -- A missing member is read like a null one, so an edge without an attachment is no exception.
    have read : decode (encode (Edge.mk source destination kind data)) = (do
        return Edge.mk (← decode (encode source)) (← decode (encode destination))
          (← decode (encode kind)) (← optional? decode (orNull (data.map encode)))) := by
      cases data <;> rfl
    simp [read, Edge.inRange_iff, Option.bind_eq_some_iff, decode_encode_iff, and_assoc]

/-! ## Policies -/

instance : Ranged Policy where
  InRange policy := policy.maxBlocks ≤ greatest64 ∧ policy.maxInstrs ≤ greatest64

@[simp] theorem Policy.inRange_iff {policy : Policy} :
    InRange policy ↔ policy.maxBlocks ≤ greatest64 ∧ policy.maxInstrs ≤ greatest64 :=
  Iff.rfl

instance : LawfulCodec Policy where
  integral_encode _ := integral_record ⟨.integer _, .integer _, .boolean _, .boolean _⟩
  encode_ne_null := nofun
  decode_encode_iff {policy other} := by
    have read : decode (encode policy) = (do
        return Policy.mk (← natUpTo? greatest64 (nat policy.maxBlocks))
          (← natUpTo? greatest64 (nat policy.maxInstrs)) policy.logYields policy.prune) := rfl
    simp [read, Option.bind_eq_some_iff, and_assoc]

/-! ## Faithful texts -/

/-- Instructions, operands, variables, labels, literals, constants, block ids, edges and policies
have faithful texts, and a literal keeps its identity. -/
theorem faithful_texts :
    Faithful Instr ∧ Faithful Operand ∧ Faithful Variable ∧ Faithful Label ∧ Faithful Literal ∧
      Faithful Constant ∧ Faithful BlockId ∧ Faithful Edge ∧ Faithful Policy ∧
      ∀ literal : Literal, InRange literal →
        (readText Literal (writeText literal)).map Literal.id = some literal.id := by
  refine ⟨faithful Instr, faithful Operand, faithful Variable, faithful Label, faithful Literal,
    faithful Constant, faithful BlockId, faithful Edge, faithful Policy, fun literal inRange => ?_⟩
  rw [((faithful Literal).readText_iff literal).mpr inRange]
  rfl

/-- A call whose texts have to be escaped and whose numbers lie at the ends of their ranges. -/
def escapedCall : Instr :=
  .call (some (.named ⟨"a\"b\\c", 0⟩)) (.lit ⟨greatest64, .str "\x00\n\x1fé😀"⟩) "m"
    [.lit ⟨0, .fixnum (-9223372036854775808)⟩] none

theorem faithful_texts_sample :
    InRange escapedCall ∧ readText Instr (writeText escapedCall) = some escapedCall := by
  have receiver : InRange (Operand.lit ⟨greatest64, .str "\x00\n\x1fé😀"⟩) :=
    ⟨Nat.le_refl _, trivial⟩
  have argument : InRange (Operand.lit ⟨0, .fixnum (-9223372036854775808)⟩) :=
    ⟨Nat.zero_le _, by decide, by decide⟩
  have inRange : InRange escapedCall :=
    ⟨(inRange_some _).mpr (Nat.zero_le _),
      (inRange_cons _ _).mpr ⟨receiver, (inRange_cons _ _).mpr ⟨argument, inRange_nil⟩⟩, trivial⟩
  exact ⟨inRange, (faithful_texts.1.readText_iff escapedCall).mpr inRange⟩

end FlowIR
