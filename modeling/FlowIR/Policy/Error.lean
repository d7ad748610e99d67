/-!
# What can be wrong with an inlining policy

The causes for which a policy, or a document that describes one, is refused.
-/

namespace FlowIR

/-- A cause for refusing a policy or its document. -/
inductive PolicyError where
  /-- The field's value lies outside its range. -/
  | outOfRange (field value least greatest hint : String)
  /-- The document names no version. -/
  | missingVersion
  /-- The document has a version other than the known ones. -/
  | unknownVersion (found : Nat) (known : List Nat)
  /-- The document names a preset that does not exist. -/
  | unknownPreset (name : String)
  /-- The document could not be read from its file. -/
  | unreadable
  /-- The text is not a document of the expected shape. -/
  | malformed
deriving DecidableEq

namespace PolicyError

/-- The message for a cause.  The last two depend on what the file system and the text hold, and
have no message of their own. -/
def message : PolicyError → String
  | outOfRange field value least greatest hint =>
      "Invalid range for field '" ++ field ++ "': " ++ value ++ " not in " ++ least ++ "..="
        ++ greatest ++ ". " ++ hint
  | missingVersion =>
      "Missing 'version' field in configuration. "
        ++ "Add 'version: 1' to the top of the YAML document."
  | unknownVersion found known =>
      "Unsupported configuration version " ++ toString found ++ ". Supported versions: "
        ++ ", ".intercalate (known.map toString)
  | unknownPreset name =>
      "Unknown preset '" ++ name ++ "'. Valid presets: conservative, balanced, aggressive"
  | unreadable => ""
  | malformed => ""

end PolicyError

end FlowIR
