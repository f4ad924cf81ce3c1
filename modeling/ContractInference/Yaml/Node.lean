import ContractInference.Table
import ContractInference.Yaml.Error
import ContractInference.Yaml.Token

/-!
# From tokens to nodes

A document is a tree of scalars, sequences and mappings. An alias stands for the node that has
its name as an anchor.
-/

namespace ContractInference.Yaml

inductive Node where
  /-- A scalar without a tag is text, unless it is plain. -/
  | scalar (tag : Option String) (plain : Bool) (text : String)
  | sequence (tag : Option String) (items : List Node)
  | mapping (tag : Option String) (entries : List (Node × Node))
deriving Repr, Inhabited

def Node.empty : Node := .scalar none true ""

/-- The start of the tags of the format itself. -/
def coreTags : String := "tag:yaml.org,2002:"

structure ReadState where
  tokens : List Token
  /-- The nodes with anchors; one that is still being read has none yet. -/
  anchors : Table String (Option Node) := []
  handles : Table String String := [("!", "!"), ("!!", coreTags)]

abbrev Read (α : Type) := StateT ReadState (Except YamlError) α

namespace Read

def fail {α : Type} : Read α := throw .malformed

def peek : Read (Option Token) := return (← get).tokens.head?

def take : Read Unit := modify fun s => { s with tokens := s.tokens.drop 1 }

def accept (t : Token) : Read Bool := do
  if (← peek) = some t then
    take
    return true
  else return false

def expect (t : Token) : Read Unit := do
  if !(← accept t) then fail

def isNext (ts : List Token) : Read Bool := do
  match ← peek with
  | some t => return ts.contains t
  | none => return false

def anchor? : Read (Option String) := do
  match ← peek with
  | some (.anchor name) =>
    take
    if Table.hasKey (← get).anchors name then fail
    return some name
  | _ => return none

/-- The tag, with its handle replaced by what it stands for. -/
def tag? : Read (Option String) := do
  match ← peek with
  | some (.tag none suffix) =>
    take
    return some suffix
  | some (.tag (some handle) suffix) =>
    take
    match Table.get? (← get).handles handle with
    | some start => return some (start ++ suffix)
    | none => fail
  | _ => return none

def properties : Read (Option String × Option String) := do
  match ← anchor? with
  | some name => return (some name, ← tag?)
  | none =>
    let tag ← tag?
    return (← anchor?, tag)

def setAnchor (anchor : Option String) (n : Option Node) : Read Unit :=
  match anchor with
  | some name => modify fun s => { s with anchors := Table.put s.anchors name n }
  | none => return

/-- The mark `!` alone says that a node is to be taken as if it were plain. -/
def properTag (tag : Option String) : Option String := if tag == some "!" then none else tag

mutual

/-- A node. Blocks may start in block context only, and a sequence that is not indented only as
a part of a mapping. -/
def node (block indentless : Bool) : Nat → Read Node
  | 0 => fail
  | fuel + 1 => do
    match ← peek with
    | some (.alias name) =>
      take
      match Table.get? (← get).anchors name with
      | some (some n) => return n
      | some none => throw .notPlain
      | none => fail
    | _ =>
      let (anchor, tag) ← properties
      setAnchor anchor none
      let n ← content block indentless tag (anchor.isSome || tag.isSome) fuel
      setAnchor anchor (some n)
      return n

def content (block indentless : Bool) (tag : Option String) (marked : Bool) : Nat → Read Node
  | 0 => fail
  | fuel + 1 => do
    let proper := properTag tag
    match ← peek with
    | some .blockEntry =>
      if indentless then return .sequence proper (← indentlessItems fuel)
      else if marked then return .scalar proper true "" else fail
    | some (.scalar plain text) =>
      take
      return .scalar proper (plain || tag == some "!") text
    | some .flowSequenceStart =>
      take
      return .sequence proper (← flowItems true fuel)
    | some .flowMappingStart =>
      take
      return .mapping proper (← flowEntries true fuel)
    | some .blockSequenceStart =>
      if block then
        take
        return .sequence proper (← blockItems fuel)
      else if marked then return .scalar proper true "" else fail
    | some .blockMappingStart =>
      if block then
        take
        return .mapping proper (← blockEntries fuel)
      else if marked then return .scalar proper true "" else fail
    | _ => if marked then return .scalar proper true "" else fail

/-- A node that is left out before any of some tokens. -/
def nodeBefore (stops : List Token) (block indentless : Bool) : Nat → Read Node
  | 0 => fail
  | fuel + 1 => do
    if ← isNext stops then return .empty else node block indentless fuel

def blockItems : Nat → Read (List Node)
  | 0 => fail
  | fuel + 1 => do
    if ← accept .blockEntry then
      let item ← nodeBefore [.blockEntry, .blockEnd] true false fuel
      return item :: (← blockItems fuel)
    else
      expect .blockEnd
      return []

def indentlessItems : Nat → Read (List Node)
  | 0 => fail
  | fuel + 1 => do
    if ← accept .blockEntry then
      let item ← nodeBefore [.blockEntry, .key, .value, .blockEnd] true false fuel
      return item :: (← indentlessItems fuel)
    else return []

def blockEntries : Nat → Read (List (Node × Node))
  | 0 => fail
  | fuel + 1 => do
    let stops := [Token.key, .value, .blockEnd]
    if ← accept .key then
      let key ← nodeBefore stops true true fuel
      let value ← valuePart stops true fuel
      return (key, value) :: (← blockEntries fuel)
    else
      expect .blockEnd
      return []

/-- The value after a key, which may be left out with its colon or after it. -/
def valuePart (stops : List Token) (block : Bool) : Nat → Read Node
  | 0 => fail
  | fuel + 1 => do
    if ← accept .value then nodeBefore stops block block fuel else return .empty

def flowItems (first : Bool) : Nat → Read (List Node)
  | 0 => fail
  | fuel + 1 => do
    if ← accept .flowSequenceEnd then return []
    else
      if !first then expect .flowEntry
      if ← accept .key then
        let key ← nodeBefore [.value, .flowEntry, .flowSequenceEnd] false false fuel
        let value ← valuePart [.flowEntry, .flowSequenceEnd] false fuel
        return .mapping none [(key, value)] :: (← flowItems false fuel)
      else if ← accept .flowSequenceEnd then return []
      else
        let item ← node false false fuel
        return item :: (← flowItems false fuel)

def flowEntries (first : Bool) : Nat → Read (List (Node × Node))
  | 0 => fail
  | fuel + 1 => do
    if ← accept .flowMappingEnd then return []
    else
      if !first then expect .flowEntry
      if ← accept .key then
        let key ← nodeBefore [.value, .flowEntry, .flowMappingEnd] false false fuel
        let value ← valuePart [.flowEntry, .flowMappingEnd] false fuel
        return (key, value) :: (← flowEntries false fuel)
      else if ← accept .flowMappingEnd then return []
      else
        let key ← node false false fuel
        return (key, .empty) :: (← flowEntries false fuel)

end

/-- Directives: at most one version, which has to be the first one, and each handle once. -/
def directives : Nat → Bool → Table String String → Read (Table String String)
  | 0, _, _ => fail
  | fuel + 1, versioned, handles => do
    match ← peek with
    | some (.directive d) =>
      take
      match d with
      | .version major =>
        if versioned || major ≠ 1 then fail else directives fuel true handles
      | .tagHandle handle start =>
        if Table.hasKey handles handle then fail
        else directives fuel versioned (Table.put handles handle start)
      | .reserved => directives fuel versioned handles
    | _ => return handles

def dropDocumentEnds : Read Unit :=
  modify fun s => { s with tokens := s.tokens.dropWhile (· = .documentEnd) }

/-- Every token takes at most four calls in a row. -/
def fuelOf (tokens : List Token) : Nat := 4 * tokens.length + 4

def isDocumentMark : Token → Bool
  | .directive _ | .documentStart | .documentEnd => true
  | _ => false

/-- The only document of the tokens, if there is any. -/
def document : Read (Option Node) := do
  let fuel := fuelOf (← get).tokens
  match ← peek with
  | none => return none
  | some first =>
    let root ← match first with
      | .directive _ | .documentStart => do
        let handles ← directives fuel false []
        modify fun s => { s with handles := handles ++ s.handles }
        expect .documentStart
        match ← peek with
        | some t => if isDocumentMark t then pure Node.empty else node true false fuel
        | none => pure Node.empty
      | _ => node true false fuel
    dropDocumentEnds
    if (← peek).isSome then fail
    return some root

end Read

def Node.ofTokens (tokens : List Token) : Except YamlError (Option Node) :=
  (·.1) <$> Read.document.run { tokens }

end ContractInference.Yaml
