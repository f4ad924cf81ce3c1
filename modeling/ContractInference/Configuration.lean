import ContractInference.Environment
import ContractInference.Files
import ContractInference.Settings.Reading
import ContractInference.Yaml.Value

/-!
# Configuration

Settings come from four places: arguments, the environment, the project's file and the user's
file. Where several of them say something, the earlier one counts. Reading documents and variables,
merging mappings and reporting values are left to a platform, which may run out of room.
-/

namespace ContractInference

inductive LoadError where
  /-- A file or a value is refused. -/
  | refused (fault : ConfigFault)
  /-- A file is not a YAML document. -/
  | notYaml (path : String)
  /-- A file holds a scalar that stands for nothing, or what is no data at all. -/
  | scalar (e : YamlError)
  /-- A file cannot be read, a refused value cannot be reported, or there is no room for a value. -/
  | file (failure : Failure)
  /-- A variable of the environment is not JSON. -/
  | variable (sectionName : String)
  /-- A key on the outermost level is not text. -/
  | keyNotText
  | homeless
deriving Repr

def LoadError.message : LoadError → String
  | .refused fault => fault.fault.describe
  | .notYaml path => (ConfigFault.unparsable path YamlError.malformed.message).fault.describe
  | .scalar e => e.message
  | .file failure => failure.message
  | .variable name =>
    "error parsing value for field \"" ++ name ++ "\" from source \"EnvSettingsSource\""
  | .keyNotText => "keywords must be strings"
  | .homeless => "Could not determine home directory."

/-- An integer with too many digits cannot be written out. -/
def Scalar.isWritable : Scalar → Bool
  | .int n => n.natAbs < Nat.pow 10 maxIntegerDigits
  | _ => true

namespace Datum

mutual

/-- All scalars of a value can be written out. -/
def isWritable : Datum → Bool
  | .scalar s => s.isWritable
  | .list items => itemsWritable items
  | .map entries => entriesWritable entries

def itemsWritable : List Datum → Bool
  | [] => true
  | d :: ds => d.isWritable && itemsWritable ds

def entriesWritable : List (Scalar × Datum) → Bool
  | [] => true
  | (k, v) :: rest => k.isWritable && v.isWritable && entriesWritable rest

end

end Datum

namespace Configuration

def projectFile (root : String) : Path := (Path.ofString root).join ".contractscan/config.yaml"

/-- Keys that are no sections, as issues. -/
def unexpected (entries : List (Scalar × Datum)) : List Issue :=
  entries.filterMap fun (k, d) =>
    match k with
    | .text name =>
      if (sectionShapes.lookup name).isSome then none
      else some ⟨[.key name], .unexpected, d⟩
    | _ => none

def placeText (place : List Step) : String :=
  ".".intercalate (place.map fun
    | .key name => name
    | .index n => toString n)

/-- Sources, the one that counts most first, as one mapping: what has been gathered is laid over the
next source. A fold that starts at the last source gives another mapping where a value that is no
mapping stands between two mappings. -/
def foldFromFirst (sources : List (List (Scalar × Datum))) : List (Scalar × Datum) :=
  sources.foldl (fun gathered source => Datum.mergeEntries source gathered) []

structure Request where
  files : Files := []
  root : String := "/"
  /-- A file that stands for the project's file and has to exist. -/
  explicit : Option String := none
  environment : Environment := []
  arguments : List (Scalar × Datum) := []

end Configuration

/-- The sections, and no other keys. -/
def Coercions.check (c : Coercions) (entries : List (Scalar × Datum)) : Check Settings :=
  match c.sections entries, Configuration.unexpected entries with
  | .valid s, [] => .valid s
  | .valid _, issues => .invalid issues
  | .invalid issues, others => .invalid (issues ++ others)
  | .homeless, _ => .homeless

/-- What loading settings leaves to libraries and to the platform. -/
structure Platform extends Coercions where
  /-- The data in the text of a document. -/
  yaml : String → Except YamlError Datum
  /-- The mappings that arguments and variables give, the one that counts most first. Arguments
  that are options of the library which reads them are not settings. -/
  sources : List (Scalar × Datum) → Environment → Except LoadError (List (List (Scalar × Datum)))
  /-- Lays the second mapping over the first one if there is room to go through both. -/
  merge : List (Scalar × Datum) → List (Scalar × Datum) → Option (List (Scalar × Datum))
  /-- Gathers sources into one mapping if there is room for it. -/
  gather : List (List (Scalar × Datum)) → Option (List (Scalar × Datum))
  /-- Writes a refused value out. -/
  report : Datum → Except Failure Unit
  /-- The file with the settings of the user. -/
  userFile : Path

/-- A platform that never runs out of room, and a library without options. -/
def Platform.standard : Platform where
  toCoercions := .standard
  yaml := Yaml.parse
  sources arguments environment :=
    match environment.settings with
    | .ok entries => .ok [arguments, entries]
    | .error name => .error (.variable name)
  merge base override := some (Datum.mergeEntries base override)
  gather sources := some (Configuration.foldFromFirst sources)
  report d := if d.isWritable then .ok () else .error .integerTooLong
  userFile := (Path.ofString "/home/user").join ".config/contractscan/config.yaml"

namespace Platform

variable (P : Platform)

/-- The mapping in a file, empty if there is no file or nothing in it. -/
def readFile (files : Files) (path : Path) : Except LoadError (List (Scalar × Datum)) :=
  let name := path.text
  if !files.isFile name then .ok []
  else
    match files.readStrict name with
    | .error failure => .error (.file failure)
    | .ok text =>
      match P.yaml text with
      | .error .malformed => .error (.notYaml name)
      | .error e => .error (.scalar e)
      | .ok (.map entries) => .ok entries
      | .ok d =>
        if d.isFalsy then .ok []
        else .error (.refused (.unparsable name "top-level value must be a mapping"))

def readProject (r : Configuration.Request) : Except LoadError (List (Scalar × Datum)) :=
  match r.explicit with
  | some path =>
    let path := Path.ofString path
    if r.files.isFile path.text then P.readFile r.files path
    else .error (.refused (.fileMissing path.text))
  | none => P.readFile r.files (Configuration.projectFile r.root)

def mergeFiles (user project : List (Scalar × Datum)) :
    Except LoadError (List (Scalar × Datum)) :=
  match P.merge user project with
  | some files => .ok files
  | none => .error (.file .depthExceeded)

def readFiles (r : Configuration.Request) : Except LoadError (List (Scalar × Datum)) := do
  let project ← P.readProject r
  let user ← P.readFile r.files P.userFile
  P.mergeFiles user project

/-- The settings in a mapping. Of all issues the first one is reported, with the value that does
not fit. -/
def validate (entries : List (Scalar × Datum)) : Except LoadError Settings :=
  if entries.any fun (k, _) => !isText k then .error .keyNotText
  else
    match P.check entries with
    | .valid s => .ok s
    | .homeless => .error .homeless
    | .invalid [] => .error .keyNotText
    | .invalid (i :: _) =>
      match P.report i.input with
      | .ok _ =>
        let place := Configuration.placeText i.place
        .error (.refused (.invalidValue place i.input i.complaint.message))
      | .error failure => .error (.file failure)
where
  isText : Scalar → Bool
    | .text _ => true
    | _ => false

def settle (sources : List (List (Scalar × Datum))) : Except LoadError Settings :=
  match P.gather sources with
  | some entries => P.validate entries
  | none => .error (.file .depthExceeded)

def resolve (user project environment arguments : List (Scalar × Datum)) :
    Except LoadError Settings := do
  let files ← P.mergeFiles user project
  P.settle [arguments, environment, files]

def load (r : Configuration.Request) : Except LoadError Settings := do
  let files ← P.readFiles r
  let sources ← P.sources r.arguments r.environment
  P.settle (sources ++ [files])

end Platform

def Configuration.load : Configuration.Request → Except LoadError Settings := Platform.standard.load

end ContractInference
