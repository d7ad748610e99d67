import FlowIR.Policy.Document
import FlowIR.Proofs.Interchange
import FlowIR.Proofs.Yaml.CoreScalar

/-!
# Writing and loading policies

The text that a policy is written as is laid out as a mapping of plain words, so it is read back as
the document of the policy.  That document names the balanced preset and overrides every field, so
loading it comes to validating the policy that was written.  Whatever text is loaded gives a policy
that was validated, so nothing changes when that policy is written and loaded in turn.
-/

namespace FlowIR

open Yaml (Document Layout PlainWord)
open Json (greatest32)
open Ranged (InRange)

namespace Preset

theorem ofName?_name (preset : Preset) : ofName? preset.name = some preset := by
  have lower : preset.name.map Char.toLower = preset.name := by
    apply String.toList_injective
    rw [String.toList_map]
    cases preset <;> rfl
  rw [ofName?, lower]
  cases preset <;> rfl

end Preset

namespace Overrides

theorem toList_line {α : Type} [ToString α] (name : String) (value : α) :
    (line name (some value)).toList =
      ' ' :: ' ' :: (name.toList ++ ':' :: ' ' :: ((toString value).toList ++ ['\n'])) := by
  simp only [line, String.toList_append, List.append_assoc]
  rfl

end Overrides

namespace Policy

/-! ## The written document -/

/-- The overrides that a policy is written with, as a mapping. -/
def overridesLayout (policy : Policy) : Layout :=
  .pair "max_callee_blocks".toList (Nat.toDigits 10 policy.maxBlocks) <|
    .pair "max_callee_instructions".toList (Nat.toDigits 10 policy.maxInstrs) <|
      .pair "record_yield_sites".toList (toString policy.logYields).toList <|
        .pair "prune_unreachable".toList (toString policy.prune).toList .nil

/-- The document that a policy is written as, as a mapping. -/
def layout (policy : Policy) : Layout :=
  .pair "version".toList (Nat.toDigits 10 1) <|
    .pair "preset".toList Preset.balanced.name.toList <|
      .nest "overrides".toList policy.overridesLayout .nil

theorem toList_lines_asOverrides (policy : Policy) :
    policy.asOverrides.lines.toList = policy.overridesLayout.text 2 := by
  simp only [asOverrides, Overrides.lines, String.toList_append, Overrides.toList_line,
    overridesLayout, Layout.text, Nat.toString_eq_repr, Nat.toList_repr, List.append_assoc,
    List.cons_append, List.nil_append, List.replicate]

/-- The text of a policy is that of its mapping. -/
theorem toList_toYaml (policy : Policy) : policy.toYaml.toList = policy.layout.text 0 := by
  have version : "version: 1\npreset: ".toList =
      "version".toList ++ ':' :: ' ' ::
        (Nat.toDigits 10 1 ++ '\n' :: ("preset".toList ++ [':', ' '])) := by
    rfl
  have overrides : "\noverrides:\n".toList = '\n' :: ("overrides".toList ++ [':', '\n']) := by rfl
  unfold toYaml
  simp only [String.toList_append, toList_lines_asOverrides, version, overrides, layout,
    Layout.text, List.append_assoc, List.cons_append, List.nil_append, List.replicate_zero,
    List.append_nil]

theorem plain_layout (policy : Policy) : policy.layout.Plain := by
  have truth : ∀ value : Bool, PlainWord (toString value).toList := by decide
  have overrides : policy.overridesLayout.Plain :=
    ⟨by decide, Yaml.plainWord_toDigits _, by decide, Yaml.plainWord_toDigits _, by decide, truth _,
      by decide, truth _, trivial⟩
  exact ⟨by decide, Yaml.plainWord_toDigits 1, by decide, by decide, by decide,
    ⟨by simp [overridesLayout], overrides⟩, trivial⟩

/-- The text of a policy is read as its mapping. -/
theorem ofText?_toYaml (policy : Policy) :
    Document.ofText? policy.toYaml.toList = some ⟨.mapping policy.layout.pairs, []⟩ := by
  rw [toList_toYaml]
  exact Layout.ofText?_text policy.plain_layout (by simp [layout])

/-- The overrides of a policy whose limits can be read are read back. -/
theorem ofYaml?_overridesLayout (document : Document) {policy : Policy} (inRange : InRange policy) :
    Overrides.ofYaml? document (.mapping policy.overridesLayout.pairs) =
      some policy.asOverrides := by
  have bounds := inRange_iff.mp inRange
  have fields : document.fields? Overrides.fieldNames (.mapping policy.overridesLayout.pairs) =
      some [some (.scalar none .plain (Nat.toDigits 10 policy.maxBlocks)),
        some (.scalar none .plain (Nat.toDigits 10 policy.maxInstrs)),
        some (.scalar none .plain (toString policy.logYields).toList),
        some (.scalar none .plain (toString policy.prune).toList)] :=
    document.fields?_all
      [("max_callee_blocks", .scalar none .plain (Nat.toDigits 10 policy.maxBlocks)),
        ("max_callee_instructions", .scalar none .plain (Nat.toDigits 10 policy.maxInstrs)),
        ("record_yield_sites", .scalar none .plain (toString policy.logYields).toList),
        ("prune_unreachable", .scalar none .plain (toString policy.prune).toList)]
      (show Overrides.fieldNames.Nodup by decide)
  simp [Overrides.ofYaml?, fields, Overrides.optionalField?, Document.optional?_toDigits,
    Document.optional?_toString, bounds, asOverrides]

/-- The document of a policy whose limits can be read is read back. -/
theorem ofYaml?_layout {policy : Policy} (inRange : InRange policy) :
    PolicyDocument.ofYaml? ⟨.mapping policy.layout.pairs, []⟩ = some policy.document := by
  let document : Document := ⟨.mapping policy.layout.pairs, []⟩
  have fields : document.fields? ["version", "preset", "overrides"] (.mapping policy.layout.pairs) =
      some [some (.scalar none .plain (Nat.toDigits 10 1)),
        some (.scalar none .plain Preset.balanced.name.toList),
        some (.mapping policy.overridesLayout.pairs)] :=
    document.fields?_all
      [("version", .scalar none .plain (Nat.toDigits 10 1)),
        ("preset", .scalar none .plain Preset.balanced.name.toList),
        ("overrides", .mapping policy.overridesLayout.pairs)]
      (show ["version", "preset", "overrides"].Nodup by decide)
  have version : document.optional? (Document.natUpTo? greatest32)
      (.scalar none .plain (Nat.toDigits 10 1)) = some (some 1) :=
        document.optional?_toDigits greatest32 1
  have preset : document.text? (.scalar none .plain Preset.balanced.name.toList) =
      some Preset.balanced.name := rfl
  have overrides : document.optional? Overrides.ofYaml? (.mapping policy.overridesLayout.pairs) =
      some (some policy.asOverrides) := by
    show (Overrides.ofYaml? document (.mapping policy.overridesLayout.pairs)).map some = _
    rw [ofYaml?_overridesLayout document inRange]
    rfl
  show PolicyDocument.ofYaml? document = _
  simp [PolicyDocument.ofYaml?, document, fields, Overrides.optionalField?, version, preset,
    overrides, Policy.document]

/-! ## Loading -/

/-- The document that a text holds. -/
def readDocument (text : String) : Option PolicyDocument :=
  (Document.ofText? text.toList).bind PolicyDocument.ofYaml?

/-- The text of a policy whose limits can be read holds its document. -/
theorem readDocument_toYaml {policy : Policy} (inRange : InRange policy) :
    readDocument policy.toYaml = some policy.document := by
  rw [readDocument, ofText?_toYaml, Option.bind_some, ofYaml?_layout inRange]

theorem validate_map_eq_ok_iff {policy result : Policy} :
    (policy.validate.map fun _ => policy) = .ok result ↔ result = policy ∧ result.Valid := by
  cases validated : policy.validate with
  | ok =>
      have valid : policy.Valid := policy.validate_eq_ok_iff.mp validated
      constructor
      · rintro ⟨⟩
        exact ⟨rfl, valid⟩
      · rintro ⟨rfl, -⟩
        rfl
  | error cause =>
      constructor
      · rintro ⟨⟩
      · rintro ⟨rfl, valid⟩
        rw [result.validate_eq_ok_iff.mpr valid] at validated
        cases validated

end Policy

namespace PolicyDocument

/-- A document is refused for its version first and for its preset next; otherwise it describes the
preset with the overrides in the place of its own values, validated. -/
theorem policy_eq (document : PolicyDocument) :
    document.policy =
      match document.version with
      | none => .error .missingVersion
      | some version =>
          if version ≠ 1 then .error (.unknownVersion version [1])
          else
            match Preset.ofName? document.preset with
            | none => .error (.unknownPreset document.preset)
            | some preset =>
                ((Policy.ofPreset preset).override (document.overrides.getD {})).validate.map
                  fun _ => (Policy.ofPreset preset).override (document.overrides.getD {}) := by
  unfold policy
  cases document.version with
  | none => rfl
  | some version =>
      by_cases known : version = 1
      · cases Preset.ofName? document.preset with
        | none => simp [known, knownVersions]; rfl
        | some preset => simp [known, knownVersions]; rfl
      · simp [known, knownVersions]; rfl

theorem policy_eq_ok_iff {document : PolicyDocument} {result : Policy} :
    document.policy = .ok result ↔
      document.version = some 1 ∧ ∃ preset, Preset.ofName? document.preset = some preset ∧
        result = (Policy.ofPreset preset).override (document.overrides.getD {}) ∧ result.Valid := by
  rw [policy_eq]
  cases document.version with
  | none => simp
  | some version =>
      by_cases known : version = 1
      · cases Preset.ofName? document.preset <;> simp [known, Policy.validate_map_eq_ok_iff]
      · simp [known]

end PolicyDocument

namespace Policy

theorem policy_document (policy : Policy) :
    policy.document.policy = policy.validate.map fun _ => policy := by
  rw [PolicyDocument.policy_eq]
  simp only [document, Preset.ofName?_name .balanced]
  rfl

/-- A text is loaded as what its document describes. -/
theorem ofYaml_eq_ok_iff {text : String} {policy : Policy} :
    ofYaml text = .ok policy ↔
      ∃ document, readDocument text = some document ∧ document.policy = .ok policy := by
  unfold ofYaml
  rw [readDocument]
  cases (Document.ofText? text.toList).bind PolicyDocument.ofYaml? <;> simp

/-- A policy that is written and loaded is validated, and changed by nothing else. -/
theorem ofYaml_toYaml {policy : Policy} (inRange : InRange policy) :
    ofYaml policy.toYaml = policy.validate.map fun _ => policy := by
  have read := readDocument_toYaml inRange
  rw [readDocument] at read
  rw [ofYaml, read]
  exact policy_document policy

/-- The limits of a valid policy can be read. -/
theorem Valid.inRange {policy : Policy} (valid : policy.Valid) : InRange policy :=
  inRange_iff.mpr ⟨Nat.le_trans valid.1.2 (by decide), Nat.le_trans valid.2.2 (by decide)⟩

/-- What becomes of a policy that is written and loaded. -/
structure Reloads (policy : Policy) : Prop where
  /-- A valid policy is loaded as it was. -/
  valid : policy.Valid → ofYaml policy.toYaml = .ok policy
  /-- A limit on blocks out of its range is refused, whatever the limit on instructions. -/
  blocks : ¬ (1 ≤ policy.maxBlocks ∧ policy.maxBlocks ≤ 10000) →
    ofYaml policy.toYaml = .error
      (.outOfRange "max_callee_blocks" (toString policy.maxBlocks) "1" "10000"
      "A callee has at least one block")
  /-- Behind a limit on blocks in its range, a limit on instructions out of its range is refused. -/
  instrs : (1 ≤ policy.maxBlocks ∧ policy.maxBlocks ≤ 10000) →
    ¬ (1 ≤ policy.maxInstrs ∧ policy.maxInstrs ≤ 1000000) →
      ofYaml policy.toYaml = .error
        (.outOfRange "max_callee_instructions" (toString policy.maxInstrs) "1"
        "1000000" "Instruction limit must be positive and bounded")

/-- What is known of a policy that is loaded from a text. -/
structure LoadedFrom (text : String) (policy : Policy) : Prop where
  valid : policy.Valid
  /-- It is the preset that the text names, with the overrides given in the text in
  the place of its own. -/
  described : ∃ document preset, readDocument text = some document ∧ document.version = some 1 ∧
    Preset.ofName? document.preset = some preset ∧
      policy = (ofPreset preset).override (document.overrides.getD {})
  reloaded : ofYaml policy.toYaml = .ok policy

theorem reloads {policy : Policy} (inRange : InRange policy) : Reloads policy where
  valid valid := by
    rw [ofYaml_toYaml inRange, policy.validate_eq_ok_iff.mpr valid]
    rfl
  blocks outside := by
    have refused : checkRange "max_callee_blocks" policy.maxBlocks greatestMaxBlocks
        "A callee has at least one block" = .error (.outOfRange "max_callee_blocks"
          (toString policy.maxBlocks) "1" "10000" "A callee has at least one block") :=
            if_neg outside
    rw [ofYaml_toYaml inRange, validate, refused]
    rfl
  instrs inside outside := by
    have passed : checkRange "max_callee_blocks" policy.maxBlocks greatestMaxBlocks
        "A callee has at least one block" = .ok () := if_pos inside
    have refused : checkRange "max_callee_instructions" policy.maxInstrs greatestMaxInstrs
        "Instruction limit must be positive and bounded" =
          .error (.outOfRange "max_callee_instructions"
          (toString policy.maxInstrs) "1" "1000000"
            "Instruction limit must be positive and bounded") :=
      if_neg outside
    rw [ofYaml_toYaml inRange, validate, passed, refused]
    rfl

/-- A text is loaded exactly as the valid policy that it describes. -/
theorem ofYaml_eq_ok_iff_loadedFrom {text : String} {policy : Policy} :
    ofYaml text = .ok policy ↔ LoadedFrom text policy := by
  rw [ofYaml_eq_ok_iff]
  constructor
  · rintro ⟨document, read, described⟩
    obtain ⟨version, preset, known, same, valid⟩ := PolicyDocument.policy_eq_ok_iff.mp described
    exact ⟨valid, ⟨document, preset, read, version, known, same⟩,
      (reloads valid.inRange).valid valid⟩
  · rintro ⟨valid, ⟨document, preset, read, version, known, same⟩, -⟩
    exact ⟨document, read, PolicyDocument.policy_eq_ok_iff.mpr ⟨version, preset, known, same,
      valid⟩⟩

/-- Every policy with limits of at most 64 bits is written so that it is loaded again if it is
valid, and is refused for its first limit out of range if it is not; and every text that is
loaded at all gives a valid policy: the preset that it names with its overrides, which is loaded
again when it is written. -/
theorem reloads_and_loadedFrom :
    (∀ policy : Policy, InRange policy → Reloads policy) ∧
      ∀ (text : String) (policy : Policy), ofYaml text = .ok policy ↔ LoadedFrom text policy :=
  ⟨fun _ => reloads, fun _ _ => ofYaml_eq_ok_iff_loadedFrom⟩

theorem reloads_and_loadedFrom_sample :
    LoadedFrom (ofPreset .aggressive).toYaml (ofPreset .aggressive) ∧
      ofYaml (Policy.mk 10001 0 false true).toYaml =
        .error (.outOfRange "max_callee_blocks" "10001" "1" "10000"
          "A callee has at least one block") := by
  have valid : (ofPreset .aggressive).Valid := by decide
  have inRange : InRange (Policy.mk 10001 0 false true) := inRange_iff.mpr (by decide)
  have loaded := (reloads_and_loadedFrom.1 _ valid.inRange).valid valid
  exact ⟨(reloads_and_loadedFrom.2 _ _).mp loaded,
    (reloads_and_loadedFrom.1 _ inRange).blocks (by decide)⟩

end Policy

end FlowIR
