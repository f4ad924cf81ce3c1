import ContractInference.Number.Binary64

/-!
# Settings

Everything about a scan that its user can choose, with the defaults.
-/

namespace ContractInference

inductive LogLevel where
  | debug
  | info
  | warning
  | error
  | critical
deriving DecidableEq, Repr

inductive LogFormat where
  | json
  | console
deriving DecidableEq, Repr

structure LogOutput where
  format : LogFormat := .console
  /-- A standard stream or the path of a file. -/
  destination : String := "stderr"
  /-- The level of the whole log if there is none. -/
  level : Option LogLevel := none
deriving DecidableEq, Repr

structure LoggingSettings where
  level : LogLevel := .info
  outputs : List LogOutput := [{}]
deriving DecidableEq, Repr

structure ParsingSettings where
  /-- The share of error nodes up to which a file is accepted. -/
  maxErrorRatio : Binary64 := .zero
deriving DecidableEq, Repr

structure BuilderSettings where
  /-- The name at which every builder chain starts. -/
  rootName : String := "z"
  /-- Methods that make a schema of its own. -/
  schemaConstructors : List String := ["object", "enum", "array"]
  /-- Methods that make a field optional. -/
  optionalMarkers : List String := ["optional", "nullable", "nullish"]
  /-- Methods that are recorded as constraints. -/
  constraintMethods : List String := ["min", "max", "email", "url", "uuid", "length"]
  /-- Methods whose call on a name shows that the name is a schema. -/
  validationCalls : List String := ["parse", "safeParse", "parseAsync", "safeParseAsync"]
deriving DecidableEq, Repr

structure DeclarationSettings where
  /-- The length to which the text of a type is cut. -/
  maxTypeLength : Int := 30
deriving DecidableEq, Repr

structure ResolverSettings where
  /-- Prefixes of module names with the directories that they stand for. -/
  aliases : List (String × List String) := [("@/", ["src", "."]), ("~/", ["src", "."])]
  extensions : List String := [".ts", ".tsx", ".js", ".jsx", ".mts", ".mjs"]
  indexNames : List String := ["index"]
  /-- Templates of paths for module names that are neither relative nor aliased. -/
  fallbackCandidates : List String :=
    ["\x7bdir\x7d/schemas/\x7bname\x7d.ts", "\x7bdir\x7d/schemas.ts",
      "\x7broot\x7d/src/schemas/\x7bname\x7d.ts", "\x7broot\x7d/lib/schemas/\x7bname\x7d.ts"]
deriving DecidableEq, Repr

structure ClassifierSettings where
  queryKeywords : List String := ["query", "search", "params"]
  responseKeywords : List String := ["response", "output", "result"]
  requestKeywords : List String := ["body", "request", "input", "create", "update"]
  /-- Texts that show that a file reads what its callers send. -/
  inboundHints : List String :=
    ["req.body", "request.body", "req.json()", "request.json()", "request.formData()",
      "ctx.request.body"]
deriving DecidableEq, Repr

structure EngineSettings where
  maxWorkers : Int := 4
deriving DecidableEq, Repr

structure Settings where
  logging : LoggingSettings := {}
  parsing : ParsingSettings := {}
  builder : BuilderSettings := {}
  declarations : DeclarationSettings := {}
  resolver : ResolverSettings := {}
  classifier : ClassifierSettings := {}
  engine : EngineSettings := {}
deriving DecidableEq, Repr

end ContractInference
