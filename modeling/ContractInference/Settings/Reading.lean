import ContractInference.Path.Basic
import ContractInference.Settings.Basic
import ContractInference.Settings.Check

/-!
# Reading and writing settings

Settings are read from data section by section. Keys that no section knows are passed over.
-/

namespace ContractInference

def LogLevel.names : List (String × LogLevel) :=
  [("DEBUG", .debug), ("INFO", .info), ("WARNING", .warning), ("ERROR", .error),
    ("CRITICAL", .critical)]

def LogLevel.name : LogLevel → String
  | .debug => "DEBUG"
  | .info => "INFO"
  | .warning => "WARNING"
  | .error => "ERROR"
  | .critical => "CRITICAL"

def LogFormat.names : List (String × LogFormat) := [("json", .json), ("console", .console)]

def LogFormat.name : LogFormat → String
  | .json => "json"
  | .console => "console"

/-- Where the home directory of an account is. -/
inductive Home where
  | directory (path : String)
  | unknown
  /-- No account has a name like that. -/
  | refused (reason : String)

/-- What reading settings leaves to libraries and to the platform. -/
structure Coercions where
  integer : Datum → Check Int
  number : Datum → Check Binary64
  /-- The home of an account, or that of the account that scans run under for the empty name. -/
  home : String → Home

/-- Only the account that scans run under is known. -/
def Coercions.standard : Coercions where
  integer := Check.integer
  number := Check.number
  home name := if name.isEmpty then .directory "/home/user" else .unknown

namespace Check

def optionalLevel : Datum → Check (Option LogLevel)
  | .null => .valid none
  | d => (oneOf LogLevel.names d).map some

def builder (d : Datum) : Check BuilderSettings :=
  let base : BuilderSettings := {}
  entriesOf "BuilderConfig" d fun e =>
    BuilderSettings.mk <$> field e "root_name" base.rootName text
      <*> field e "schema_constructors" base.schemaConstructors texts
      <*> field e "optional_markers" base.optionalMarkers texts
      <*> field e "constraint_methods" base.constraintMethods texts
      <*> field e "validation_calls" base.validationCalls texts

/-- An extension starts with a dot. -/
def dotted (extension : String) : String :=
  if extension.startsWith "." then extension else "." ++ extension

def extensions (d : Datum) : Check (List String) := (texts d).map (·.map dotted)

def resolver (d : Datum) : Check ResolverSettings :=
  let base : ResolverSettings := {}
  entriesOf "ResolverConfig" d fun e =>
    ResolverSettings.mk <$> field e "aliases" base.aliases (mapping texts)
      <*> field e "extensions" base.extensions extensions
      <*> field e "index_names" base.indexNames texts
      <*> field e "fallback_candidates" base.fallbackCandidates texts

def classifier (d : Datum) : Check ClassifierSettings :=
  let base : ClassifierSettings := {}
  entriesOf "ClassifierConfig" d fun e =>
    ClassifierSettings.mk <$> field e "query_keywords" base.queryKeywords texts
      <*> field e "response_keywords" base.responseKeywords texts
      <*> field e "request_keywords" base.requestKeywords texts
      <*> field e "inbound_hints" base.inboundHints texts

end Check

namespace Coercions

open Check

variable (c : Coercions)

/-- A path whose first part stands for a home directory, with that directory in its place. -/
def expandHome (input : Datum) (p : Path) : Check Path :=
  match p.parts with
  | first :: rest =>
    if p.isAbsolute || !first.startsWith "~" then .valid p
    else
      match c.home (String.ofList (first.toList.drop 1)) with
      | .directory path =>
        if path.startsWith "~" then .homeless
        else .valid { Path.ofString path with parts := (Path.ofString path).parts ++ rest }
      | .unknown => .homeless
      | .refused reason => complain (.refused reason) input
  | [] => .valid p

/-- A standard stream, or an absolute path. -/
def destination (d : Datum) : Check String :=
  (text d).andThen fun s =>
    if s == "stderr" || s == "stdout" then .valid s
    else
      (c.expandHome d (Path.ofString s)).andThen fun p =>
        if p.isAbsolute then .valid p.text
        else complain (.refused ("File destination must be absolute path: " ++ s)) d

def logOutput (d : Datum) : Check LogOutput :=
  entriesOf "LogOutputConfig" d fun e =>
    LogOutput.mk <$> field e "format" .console (oneOf LogFormat.names)
      <*> field e "destination" "stderr" c.destination
      <*> field e "level" none optionalLevel

def logging (d : Datum) : Check LoggingSettings :=
  let base : LoggingSettings := {}
  entriesOf "LoggingConfig" d fun e =>
    LoggingSettings.mk <$> field e "level" base.level (oneOf LogLevel.names)
      <*> field e "outputs" base.outputs (list c.logOutput)

def errorRatio (d : Datum) : Check Binary64 :=
  (c.number d).andThen fun x =>
    if Binary64.zero.le x && x.le (.ofInt 1) then .valid x
    else complain (.refused ("max_error_ratio must be within 0.0-1.0, got " ++
      Binary64.Layout.plain.text x)) d

def parsing (d : Datum) : Check ParsingSettings :=
  let base : ParsingSettings := {}
  entriesOf "ParsingConfig" d fun e =>
    ParsingSettings.mk <$> field e "max_error_ratio" base.maxErrorRatio c.errorRatio

def declarations (d : Datum) : Check DeclarationSettings :=
  let base : DeclarationSettings := {}
  entriesOf "DeclarationsConfig" d fun e =>
    DeclarationSettings.mk <$> field e "max_type_length" base.maxTypeLength c.integer

def workers (d : Datum) : Check Int :=
  (c.integer d).andThen fun n =>
    if 1 ≤ n then .valid n
    else complain (.refused (s!"max_workers must be >= 1, got {n}")) d

def engine (d : Datum) : Check EngineSettings :=
  let base : EngineSettings := {}
  entriesOf "EngineConfig" d fun e =>
    EngineSettings.mk <$> field e "max_workers" base.maxWorkers c.workers

/-- The sections of the settings, in the order in which they are checked. -/
def sections (e : List (Scalar × Datum)) : Check Settings :=
  Settings.mk <$> field e "logging" {} c.logging
    <*> field e "parsing" {} c.parsing
    <*> field e "builder" {} builder
    <*> field e "declarations" {} c.declarations
    <*> field e "resolver" {} resolver
    <*> field e "classifier" {} classifier
    <*> field e "engine" {} c.engine

def settings (d : Datum) : Check Settings := entriesOf "ContractScanConfig" d c.sections

end Coercions

namespace Check

def logging : Datum → Check LoggingSettings := Coercions.standard.logging

def declarations : Datum → Check DeclarationSettings := Coercions.standard.declarations

def settings : Datum → Check Settings := Coercions.standard.settings

end Check

def LogOutput.toDatum (o : LogOutput) : Datum :=
  .record [("format", .text o.format.name), ("destination", .text o.destination),
    ("level", .ofOption (fun l => .text l.name) o.level)]

def LoggingSettings.toDatum (s : LoggingSettings) : Datum :=
  .record [("level", .text s.level.name), ("outputs", .list (s.outputs.map (·.toDatum)))]

def ParsingSettings.toDatum (s : ParsingSettings) : Datum :=
  .record [("max_error_ratio", .float s.maxErrorRatio)]

def BuilderSettings.toDatum (s : BuilderSettings) : Datum :=
  .record [("root_name", .text s.rootName), ("schema_constructors", .texts s.schemaConstructors),
    ("optional_markers", .texts s.optionalMarkers),
    ("constraint_methods", .texts s.constraintMethods),
    ("validation_calls", .texts s.validationCalls)]

def DeclarationSettings.toDatum (s : DeclarationSettings) : Datum :=
  .record [("max_type_length", .int s.maxTypeLength)]

def ResolverSettings.toDatum (s : ResolverSettings) : Datum :=
  .record [("aliases", .map (s.aliases.map fun (k, v) => (.text k, .texts v))),
    ("extensions", .texts s.extensions), ("index_names", .texts s.indexNames),
    ("fallback_candidates", .texts s.fallbackCandidates)]

def ClassifierSettings.toDatum (s : ClassifierSettings) : Datum :=
  .record [("query_keywords", .texts s.queryKeywords),
    ("response_keywords", .texts s.responseKeywords),
    ("request_keywords", .texts s.requestKeywords), ("inbound_hints", .texts s.inboundHints)]

def EngineSettings.toDatum (s : EngineSettings) : Datum :=
  .record [("max_workers", .int s.maxWorkers)]

def Settings.toDatum (s : Settings) : Datum :=
  .record [("logging", s.logging.toDatum), ("parsing", s.parsing.toDatum),
    ("builder", s.builder.toDatum), ("declarations", s.declarations.toDatum),
    ("resolver", s.resolver.toDatum), ("classifier", s.classifier.toDatum),
    ("engine", s.engine.toDatum)]

end ContractInference
