/-!
# Tokens of a YAML text
-/

namespace TokenRules.Yaml

inductive Token
  | version (major minor : Nat)
  /-- Tags with `handle` in front mean tags with `lead` in front. -/
  | tagDirective (handle lead : String)
  | documentStart
  | documentEnd
  | streamEnd
  | blockSequenceStart
  | blockMappingStart
  | blockEnd
  | flowSequenceStart
  | flowSequenceEnd
  | flowMappingStart
  | flowMappingEnd
  | blockEntry
  | flowEntry
  | key
  | value
  | alias (name : String)
  | anchor (name : String)
  | tag (handle suffix : String)
  | scalar (text : String) (plain : Bool)
  deriving DecidableEq

end TokenRules.Yaml
