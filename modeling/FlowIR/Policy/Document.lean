import FlowIR.Json.Codec
import FlowIR.Policy.Basic
import FlowIR.Yaml.CoreScalar

/-!
# Policies as documents

A policy document names a version, a preset and, optionally, values that override the preset's.  It
is read from YAML and from JSON.  Loading a policy checks the version first, then the preset, and
validates the result; writing a policy spells out every field over the balanced preset.
-/

namespace FlowIR

/-- Values that override those of a preset. -/
structure Overrides where
  maxBlocks : Option Nat := none
  maxInstrs : Option Nat := none
  logYields : Option Bool := none
  prune : Option Bool := none
deriving DecidableEq

/-- A policy document. -/
structure PolicyDocument where
  version : Option Nat
  preset : String
  overrides : Option Overrides
deriving DecidableEq

namespace Policy

/-- The policy with the given values in the place of its own. -/
def override (policy : Policy) (overrides : Overrides) : Policy where
  maxBlocks := overrides.maxBlocks.getD policy.maxBlocks
  maxInstrs := overrides.maxInstrs.getD policy.maxInstrs
  logYields := overrides.logYields.getD policy.logYields
  prune := overrides.prune.getD policy.prune

/-- The overrides that give every field the value it has in the policy. -/
def asOverrides (policy : Policy) : Overrides :=
  ⟨some policy.maxBlocks, some policy.maxInstrs, some policy.logYields, some policy.prune⟩

@[simp] theorem override_asOverrides (policy base : Policy) :
    base.override policy.asOverrides = policy :=
  rfl

/-- The document that a policy is written as. -/
def document (policy : Policy) : PolicyDocument :=
  ⟨some 1, Preset.balanced.name, some policy.asOverrides⟩

end Policy

namespace PolicyDocument

/-- The versions that can be loaded. -/
def knownVersions : List Nat := [1]

/-- The policy that a document describes. -/
def policy (document : PolicyDocument) : Except PolicyError Policy := do
  let version ←
    match document.version with
    | some version => pure version
    | none => throw .missingVersion
  if version ∉ knownVersions then
    throw (.unknownVersion version knownVersions)
  let preset ←
    match Preset.ofName? document.preset with
    | some preset => pure preset
    | none => throw (.unknownPreset document.preset)
  let policy := (Policy.ofPreset preset).override (document.overrides.getD {})
  policy.validate
  return policy

end PolicyDocument

/-! ## YAML -/

namespace Overrides

/-- The names of the fields. -/
def fieldNames : List String :=
  ["max_callee_blocks", "max_callee_instructions", "record_yield_sites", "prune_unreachable"]

/-- A field that may be left out or null. -/
def optionalField? {α : Type} (value? : Yaml.Document → Yaml.Node → Option α)
    (document : Yaml.Document) : Option Yaml.Node → Option (Option α)
  | some node => document.optional? value? node
  | none => some none

/-- The overrides in a mapping. -/
def ofYaml? (document : Yaml.Document) (node : Yaml.Node) : Option Overrides := do
  let limit? := Yaml.Document.natUpTo? Json.greatest64
  let [maxBlocks, maxInstrs, logYields, prune] ← document.fields? fieldNames node | none
  return ⟨← optionalField? limit? document maxBlocks,
    ← optionalField? limit? document maxInstrs,
    ← optionalField? Yaml.Document.boolean? document logYields,
    ← optionalField? Yaml.Document.boolean? document prune⟩

/-- A line of the mapping for a value that is there. -/
def line {α : Type} [ToString α] (name : String) : Option α → String
  | some value => "  " ++ name ++ ": " ++ toString value ++ "\n"
  | none => ""

/-- The lines of the mapping. -/
def lines (overrides : Overrides) : String :=
  line "max_callee_blocks" overrides.maxBlocks
    ++ line "max_callee_instructions" overrides.maxInstrs
    ++ line "record_yield_sites" overrides.logYields
    ++ line "prune_unreachable" overrides.prune

end Overrides

namespace PolicyDocument

/-- The policy document that a YAML document holds. -/
def ofYaml? (document : Yaml.Document) : Option PolicyDocument := do
  let [version, preset, overrides] ←
    document.fields? ["version", "preset", "overrides"] document.root | none
  let version ←
    Overrides.optionalField? (Yaml.Document.natUpTo? Json.greatest32) document version
  let preset ← preset.bind document.text?
  let overrides ← Overrides.optionalField? Overrides.ofYaml? document overrides
  return ⟨version, preset, overrides⟩

end PolicyDocument

namespace Policy

/-- Load a policy from YAML text. -/
def ofYaml (text : String) : Except PolicyError Policy :=
  match (Yaml.Document.ofText? text.toList).bind PolicyDocument.ofYaml? with
  | some document => document.policy
  | none => .error .malformed

/-- Load a policy from the contents of a file, which are absent when it cannot be read. -/
def ofFile (contents : Option ByteArray) : Except PolicyError Policy :=
  match contents.bind String.fromUTF8? with
  | some text => ofYaml text
  | none => .error .unreadable

/-- The YAML text of a policy. -/
def toYaml (policy : Policy) : String :=
  "version: 1\npreset: " ++ Preset.balanced.name ++ "\noverrides:\n" ++ policy.asOverrides.lines

end Policy

/-! ## JSON -/

namespace Policy

/-- The fields of a policy, any of which may be left out. -/
def jsonFields : List Json.Field :=
  Overrides.fieldNames.map fun name => { name := name, spare := true }

end Policy

open Json in
instance : JsonCodec Policy where
  encode policy :=
    record
      [("max_callee_blocks", nat policy.maxBlocks),
        ("max_callee_instructions", nat policy.maxInstrs),
        ("record_yield_sites", boolean policy.logYields),
        ("prune_unreachable", boolean policy.prune)]
  decode json := do
    let base := Policy.default
    let [maxBlocks, maxInstrs, logYields, prune] ← fields? false Policy.jsonFields json | none
    return ⟨← required? (natUpTo? greatest64) (maxBlocks.getD (nat base.maxBlocks)),
      ← required? (natUpTo? greatest64) (maxInstrs.getD (nat base.maxInstrs)),
      ← required? boolean? (logYields.getD (boolean base.logYields)),
      ← required? boolean? (prune.getD (boolean base.prune))⟩

open Json in
instance : JsonCodec Preset where
  encode preset := text preset.name
  decode := bare? Preset.all Preset.name

namespace Overrides

/-- A member for a value that is there. -/
def jsonMember {α : Type} (name : String) (value : α → Json) (content : Option α) :
    List (String × Json) :=
  (content.map fun content => (name, value content)).toList

end Overrides

open Json in
instance : JsonCodec Overrides where
  encode overrides :=
    record
      (Overrides.jsonMember "max_callee_blocks" nat overrides.maxBlocks
        ++ Overrides.jsonMember "max_callee_instructions" nat overrides.maxInstrs
        ++ Overrides.jsonMember "record_yield_sites" boolean overrides.logYields
        ++ Overrides.jsonMember "prune_unreachable" boolean overrides.prune)
  decode json := do
    let fields := Overrides.fieldNames.map fun name => { name := name }
    let [maxBlocks, maxInstrs, logYields, prune] ← fields? true fields json | none
    return ⟨← maybe? (natUpTo? greatest64) maxBlocks, ← maybe? (natUpTo? greatest64) maxInstrs,
      ← maybe? boolean? logYields, ← maybe? boolean? prune⟩

open Json in
instance : JsonCodec PolicyDocument where
  encode document :=
    record
      ([("version", orNull (document.version.map nat)), ("preset", text document.preset)]
        ++ Overrides.jsonMember "overrides" JsonCodec.encode document.overrides)
  decode json := do
    let fields : List Field :=
      [{ name := "version", spare := true }, { name := "preset" },
        { name := "overrides", spare := true }]
    let [version, preset, overrides] ← fields? true fields json | none
    return ⟨← maybe? (natUpTo? greatest32) version, ← required? text? preset,
      ← maybe? JsonCodec.decode overrides⟩

end FlowIR
