import ContractInference.Yaml.Layout
import ContractInference.Yaml.Node
import ContractInference.Yaml.Scalar

/-!
# From nodes to data

Keys are scalars, and the last entry of a key counts. A mapping can take over the entries of
others under the key `<<`; its own entries go before them.
-/

namespace ContractInference.Yaml

abbrev Entries := List (Scalar × Datum)

def tagKind? (tag : String) : Option String :=
  if tag.startsWith coreTags then some (String.ofList (tag.toList.drop coreTags.length)) else none

def scalarMeaning (tag : Option String) (plain : Bool) (text : String) : Except YamlError Meaning :=
  match tag with
  | none => meaningAs (if plain then plainKind text else "str") text
  | some t =>
    match tagKind? t with
    | some kind => meaningAs kind text
    | none => .error .malformed

/-- A sequence or a mapping has the tag of its kind or none. Some other kinds have a meaning, but
none that is a list or a mapping. -/
def checkTag (tag : Option String) (kind : String) (others : List String) :
    Except YamlError Unit :=
  match tag with
  | none => .ok ()
  | some t =>
    match tagKind? t with
    | some k =>
      if k = kind then .ok ()
      else if others.contains k then .error .notPlain
      else .error .malformed
    | none => .error .malformed

def otherSequences : List String := ["omap", "pairs"]

/-- A mapping with the tag of a scalar stands for the value of its key `=`. -/
def otherMappings : List String :=
  ["set", "null", "bool", "int", "float", "timestamp", "str", "binary"]

namespace Node

def keyMeaning : Node → Except YamlError Meaning
  | .scalar tag plain text => scalarMeaning tag plain text
  | _ => .error .malformed

mutual

def toDatum : Node → Except YamlError Datum
  | .scalar tag plain text => do
    match ← scalarMeaning tag plain text with
    | .scalar s => return .scalar s
    | _ => .error .malformed
  | .sequence tag items => do
    checkTag tag "seq" otherSequences
    return .list (← itemData items)
  | .mapping tag entries => do
    checkTag tag "map" otherMappings
    let (merged, own) ← entryData entries
    return .map (Datum.ofEntries (merged ++ own))

def itemData : List Node → Except YamlError (List Datum)
  | [] => .ok []
  | n :: rest => do
    let d ← toDatum n
    return d :: (← itemData rest)

/-- The entries that a mapping takes over, and its own. -/
def entryData : List (Node × Node) → Except YamlError (Entries × Entries)
  | [] => .ok ([], [])
  | (k, v) :: rest => do
    match ← keyMeaning k with
    | .merge =>
      let taken ← mergedData v
      let (merged, own) ← entryData rest
      return (taken ++ merged, own)
    | .equals =>
      let d ← toDatum v
      let (merged, own) ← entryData rest
      return (merged, (.text "=", d) :: own)
    | .scalar s =>
      let d ← toDatum v
      let (merged, own) ← entryData rest
      return (merged, (s, d) :: own)

/-- The entries of a mapping, or of mappings of which the earlier ones count more. -/
def mergedData : Node → Except YamlError Entries
  | .mapping _ entries => do
    let (merged, own) ← entryData entries
    return merged ++ own
  | .sequence _ items => mergedEach items
  | .scalar .. => .error .malformed

def mergedEach : List Node → Except YamlError Entries
  | [] => .ok []
  | .mapping _ entries :: rest => do
    let (merged, own) ← entryData entries
    return (← mergedEach rest) ++ merged ++ own
  | _ => .error .malformed

end

end Node

/-- The data that a text denotes; an empty text denotes nothing. -/
def parse (text : String) : Except YamlError Datum := do
  match ← Node.ofTokens (← tokensOf text) with
  | some n => n.toDatum
  | none => return .null

end ContractInference.Yaml
