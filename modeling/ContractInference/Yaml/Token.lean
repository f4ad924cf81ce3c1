/-!
# Tokens of YAML

The marks and scalars of a text. Blocks that only indentation shows have marks of their own.
-/

namespace ContractInference.Yaml

inductive Directive where
  | version (major : Nat)
  | tagHandle (handle start : String)
  | reserved
deriving DecidableEq, Repr

inductive Token where
  | directive (d : Directive)
  | documentStart
  | documentEnd
  | blockSequenceStart
  | blockMappingStart
  | blockEnd
  | flowSequenceStart
  | flowSequenceEnd
  | flowMappingStart
  | flowMappingEnd
  | blockEntry
  | flowEntry
  | key
  | value
  | alias (name : String)
  | anchor (name : String)
  /-- A tag without a handle is complete. -/
  | tag (handle : Option String) (suffix : String)
  | scalar (plain : Bool) (text : String)
deriving DecidableEq, Repr

end ContractInference.Yaml
