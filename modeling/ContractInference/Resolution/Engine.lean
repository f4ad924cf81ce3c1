import ContractInference.Classifier
import ContractInference.Extraction
import ContractInference.Files
import ContractInference.Path.Candidates
import ContractInference.Resolution.Cache
import ContractInference.Resolution.Event
import ContractInference.Resolution.InFlight
import ContractInference.Sdl.Schemas

/-!
# The resolution engine

Scans files and follows their imports into other files. A file is read on behalf of another one
only if it is neither cached nor in flight, so the search ends even where files import each
other.
-/

namespace ContractInference

structure Stats where
  filesParsed : Nat := 0
  parseFailures : Nat := 0
  cacheHits : Nat := 0
  cyclesBroken : Nat := 0
  unresolved : Nat := 0
  /-- How often each file was parsed. -/
  parseCounts : Table String Nat := []
deriving DecidableEq, Repr

/-- What an engine remembers between calls. -/
structure EngineState where
  cache : Cache := []
  inFlight : InFlight := {}
  stats : Stats := {}
  events : List Event := []

structure Project where
  settings : Settings := {}
  root : String := "/"
  frontEnd : FrontEnd := .standard
  files : Files := []

/-- Engine calls keep their state when they fail. -/
abbrev Engine (α : Type) := ReaderT Project (ExceptT Failure (StateM EngineState)) α

namespace Engine

def call {α : Type} (x : Engine α) (p : Project) (s : EngineState) :
    Except Failure α × EngineState :=
  x.run p |>.run |>.run s

def record (e : Event) : Engine Unit :=
  modify fun s => { s with events := s.events ++ [e] }

def updateStats (f : Stats → Stats) : Engine Unit := modify fun s => { s with stats := f s.stats }

def updateInFlight (f : InFlight → InFlight) : Engine Unit :=
  modify fun s => { s with inFlight := f s.inFlight }

def countParse (path : String) : Engine Unit :=
  updateStats fun s =>
    { s with
      filesParsed := s.filesParsed + 1
      parseCounts := Table.put s.parseCounts path ((Table.get? s.parseCounts path).getD 0 + 1) }

def store (path : String) (m : SchemaMap) : Engine SchemaMap := do
  let (kept, cache) := (← get).cache.putIfAbsent path m
  modify fun s => { s with cache }
  return kept

def ofExcept {α : Type} : Except Failure α → Engine α
  | .ok a => pure a
  | .error e => throw e

/-- Runs a computation with a file in flight, and takes the file off whatever happens. -/
def inFlight {α : Type} (path : String) (x : Engine α) : Engine α := do
  updateInFlight (·.add path)
  try
    let a ← x
    updateInFlight (·.discard path)
    return a
  catch e =>
    updateInFlight (·.discard path)
    throw e

/-- Runs a derivation, and says whether a cycle cut it short. -/
def tracked {α : Type} (path : String) (x : Engine α) : Engine (α × Bool) := do
  let (frame, entered) := (← get).inFlight.enter path
  updateInFlight fun _ => entered
  try
    let a ← x
    let cut := (← get).inFlight.cutShort frame
    updateInFlight (·.exit frame)
    return (a, cut)
  catch e =>
    updateInFlight (·.exit frame)
    throw e

/-- A search for a schema: its name, the module that offers it, and the file that asks. -/
abbrev Search := String → String → String → Engine (Option Schema)

/-- The same search, with a failure to find anything reported. -/
def searchOrReport (search : Search) : Search := fun name modulePath fromFile => do
  let found ← search name modulePath fromFile
  if found.isNone then
    updateStats fun s => { s with unresolved := s.unresolved + 1 }
    record (.unresolved name modulePath fromFile)
  return found

/-- An import is followed if it is more than a type, its name is validated, and the name has no
schema yet. -/
def isWanted (e : Extraction) (schemas : Table String Schema) (b : ImportBinding) : Bool :=
  !b.isTypeOnly && !Table.hasKey schemas b.localName && e.validated.contains b.localName

def addImport (search : Search) (e : Extraction) (path : String) (schemas : Table String Schema)
    (b : ImportBinding) : Engine (Table String Schema) := do
  if isWanted e schemas b then
    match ← searchOrReport search b.exportedName b.modulePath path with
    | some schema => return Table.put schemas b.localName schema
    | none => return schemas
  else return schemas

/-- The map of a text, with imported schemas found by `search`. A text that does not parse has an
empty map. -/
def derive (search : Search) (text path : String) : Engine SchemaMap := do
  countParse path
  let p ← read
  match SourceTree.parse p.frontEnd p.settings.parsing.maxErrorRatio (Path.ofString path) text with
  | .error fault =>
    updateStats fun s => { s with parseFailures := s.parseFailures + 1 }
    record (.parseFailed path fault)
    return { path }
  | .ok tree =>
    let e ← ofExcept (Extraction.ofTree p.settings tree)
    let schemas ← e.bindings.foldlM (addImport search e path) e.schemas
    return e.toMap path schemas

/-- The map of a file in flight: the cached one, or one derived from its text. A map that was cut
short is not cached. -/
def load (search : Search) (path : String) : Engine (Option SchemaMap) := do
  match (← get).cache.get? path with
  | some m =>
    updateStats fun s => { s with cacheHits := s.cacheHits + 1 }
    record (.cacheHit path)
    return some m
  | none =>
    match (← read).files.readText path with
    | .error reason =>
      record (.readFailed path reason.message)
      return none
    | .ok text =>
      let (m, cut) ← tracked path (derive search text path)
      if cut then
        record (.cacheSkipped path)
        return some m
      else return some (← store path m)

def firstFound {α : Type} (place : α → Engine (Option Schema)) : List α → Engine (Option Schema)
  | [] => return none
  | a :: rest => do
    match ← place a with
    | some schema => return some schema
    | none => firstFound place rest

def followReExports (search : Search) (m : SchemaMap) (name : String) : Engine (Option Schema) :=
  firstFound (fun r =>
    match r.forwards name with
    | some source => search source r.modulePath m.path
    | none => return none) m.reexports

/-- Looks for a schema in one file. A file in flight is not read again. -/
def searchFile (search : Search) (name fromFile path : String) : Engine (Option Schema) := do
  if (← get).inFlight.contains path then
    updateStats fun s => { s with cyclesBroken := s.cyclesBroken + 1 }
    updateInFlight (·.noteCycle path)
    record (.cycle path name fromFile)
    return none
  else if !(← read).files.isFile path then return none
  else
    inFlight path do
      match ← load search path with
      | none => return none
      | some m =>
        match m.get? name with
        | some schema => return some schema
        | none => followReExports search m name

/-- One level of the search over the search below it. -/
def searchCandidates (search : Search) : Search := fun name modulePath fromFile => do
  let p ← read
  let candidates ← ofExcept (Candidates.paths p.settings.resolver modulePath fromFile name p.root)
  firstFound (searchFile search name fromFile) candidates

/-- The search through at most `depth` files in a row. -/
def searchTo : Nat → Search
  | 0 => fun _ _ _ => throw .depthExceeded
  | depth + 1 => searchCandidates (searchTo depth)

/-- A chain holds each file once, so it is never longer than the files are many. -/
def search : Search := fun name modulePath fromFile => do
  searchTo ((← read).files.length + 1) name modulePath fromFile

def scanFile (text path : String) : Engine SchemaMap := do
  let path := Path.key path
  let m ← inFlight path (derive search text path)
  let _ ← store path m
  return m

def scanDocument (text path : String) : Engine SchemaMap := do
  let path := Path.key path
  countParse path
  let m := Sdl.schemaMap path text
  if (Sdl.parseDocument? text).isNone then record (.documentRefused path)
  if m.isEmpty && !text.toList.all isBlank then record (.documentWithoutTypes path)
  return m

def resolveSchema (name modulePath fromFile : String) : Engine (Option Schema) :=
  searchOrReport search name modulePath (Path.key fromFile)

def bindContracts (text path : String) : Engine ContractBinding := do
  let m ← scanFile text path
  return Classifier.classify (← read).settings.classifier m.schemas text m.validated

def documentSuffixes : List String := [".graphql", ".gql", ".graphqls"]

def scanAny (text path : String) : Engine SchemaMap :=
  if documentSuffixes.contains (lowercase (Path.ofString path).suffix) then scanDocument text path
  else scanFile text path

def outcome {α : Type} (x : Engine α) : Engine (Except Failure α) := do
  try
    let a ← x
    return .ok a
  catch e => return .error e

/-- Scans files of both kinds. All of them are scanned, also when one fails. -/
def scanMany (files : List (String × String)) : Engine (Table String SchemaMap) := do
  let outcomes ← files.mapM fun (path, text) => do
    let path := Path.key path
    return (path, ← outcome (scanAny text path))
  let maps ← outcomes.foldlM (fun t (path, o) => return Table.put t path (← ofExcept o)) []
  let s := (← get).stats
  record (.scanComplete files.length s.filesParsed s.cacheHits s.parseFailures)
  return maps

end Engine

end ContractInference
