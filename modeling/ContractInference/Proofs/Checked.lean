import ContractInference.Proofs.Issues

/-!
# Accepted data

When a check accepts a value, and what it returns then. Sections are read key by key: a mapping
is accepted with settings `s` exactly if the value of each key is accepted with what `s` has under
that key, where a key that is not given has its default.
-/

namespace ContractInference

open Datum (lookup?)

namespace Check

variable {α β : Type}

theorem map_eq_valid {f : α → β} {x : Check α} {b : β} :
    x.map f = .valid b ↔ ∃ a, x = .valid a ∧ f a = b := by
  cases x <;> simp [map]

theorem seq_eq_valid {f : Check (α → β)} {x : Check α} {b : β} :
    f.seq x = .valid b ↔ ∃ g a, f = .valid g ∧ x = .valid a ∧ g a = b := by
  cases f <;> cases x <;> simp [seq]

theorem exists_map_eq_valid {f : α → β} {x : Check α} {P : β → Prop} :
    (∃ b, f <$> x = .valid b ∧ P b) ↔ ∃ a, x = .valid a ∧ P (f a) := by
  cases x <;> simp [Functor.map, seq]

theorem exists_seq_eq_valid {f : Check (α → β)} {x : Check α} {P : β → Prop} :
    (∃ b, f <*> x = .valid b ∧ P b) ↔ ∃ g, f = .valid g ∧ ∃ a, x = .valid a ∧ P (g a) := by
  cases f <;> cases x <;> simp [Seq.seq, seq]

theorem functorMap_eq_valid {f : α → β} {x : Check α} {b : β} :
    f <$> x = .valid b ↔ ∃ a, x = .valid a ∧ f a = b := by
  simpa using exists_map_eq_valid (P := (· = b))

theorem applicativeSeq_eq_valid {f : Check (α → β)} {x : Check α} {b : β} :
    f <*> x = .valid b ↔ ∃ g, f = .valid g ∧ ∃ a, x = .valid a ∧ g a = b := by
  simpa using exists_seq_eq_valid (P := (· = b))

theorem inside_eq_valid {step : Step} {x : Check α} {a : α} :
    x.inside step = .valid a ↔ x = .valid a := by
  cases x <;> simp [inside]

theorem andThen_eq_valid {x : Check α} {f : α → Check β} {b : β} :
    x.andThen f = .valid b ↔ ∃ a, x = .valid a ∧ f a = .valid b := by
  cases x <;> simp [andThen]

theorem all_eq_valid {cs : List (Check α)} {as : List α} :
    all cs = .valid as ↔ cs = as.map .valid := by
  induction cs generalizing as with
  | nil => cases as <;> simp [all]
  | cons c cs ih =>
    rw [all, seq_eq_valid]
    simp only [map_eq_valid]
    constructor
    · rintro ⟨_, rest, ⟨a, rfl, rfl⟩, hrest, rfl⟩
      rw [ih.1 hrest, List.map_cons]
    · intro h
      cases as with
      | nil => cases h
      | cons a as =>
        obtain ⟨rfl, hrest⟩ := List.cons.inj h
        exact ⟨_, as, ⟨a, rfl, rfl⟩, ih.2 hrest, rfl⟩

/-- What is read where `given` may stand: the value with which it is accepted, or the default. -/
def Reads (check : Datum → Check α) (default : α) (given : Option Datum) (a : α) : Prop :=
  match given with
  | some d => check d = .valid a
  | none => a = default

theorem field_eq_valid {entries : List (Scalar × Datum)} {key : String} {default a : α}
    {check : Datum → Check α} : field entries key default check = .valid a ↔
      Reads check default (lookup? (.text key) entries) a := by
  rw [field]
  cases lookup? (.text key) entries with
  | none => simp [Reads, eq_comm]
  | some d => exact inside_eq_valid

theorem list_eq_valid {item : Datum → Check α} {items : List Datum} {as : List α} :
    list item (.list items) = .valid as ↔ items.map item = as.map .valid := by
  rw [list, all_eq_valid, List.ext_getElem?_iff, List.ext_getElem?_iff]
  refine forall_congr' fun i => ?_
  rw [List.getElem?_mapIdx, List.getElem?_map, List.getElem?_map]
  cases items[i]? <;> cases as[i]? <;> simp [inside_eq_valid]

/-- Two lists of images are equal in terms of any other pair of functions that agree on the same
elements. -/
theorem map_eq_map_iff {γ δ : Type} {f : α → γ} {g : β → γ} {f' : α → δ} {g' : β → δ}
    (h : ∀ a b, f a = g b ↔ f' a = g' b) {as : List α} {bs : List β} :
    as.map f = bs.map g ↔ as.map f' = bs.map g' := by
  induction as generalizing bs with
  | nil => cases bs <;> simp
  | cons a as ih => cases bs <;> simp [h, ih]

theorem mapping_eq_valid {item : Datum → Check α} {entries : List (Scalar × Datum)}
    {as : List (String × α)} : mapping item (.map entries) = .valid as ↔
      entries.map (fun e => (e.1, item e.2)) = as.map fun a => (.text a.1, .valid a.2) := by
  rw [mapping, all_eq_valid]
  refine map_eq_map_iff fun e a => ?_
  obtain ⟨k, d⟩ := e
  obtain ⟨name, a⟩ := a
  rw [seq_eq_valid]
  simp only [map_eq_valid, inside_eq_valid]
  cases k <;> simp [complain, inside, and_comm]

theorem lookup_of_mapping {α : Type} {item : Datum → Check α} {entries : List (Scalar × Datum)}
    {as : List (String × α)} (h : mapping item (.map entries) = .valid as) (name : String) :
    (lookup? (.text name) entries).map item = (as.lookup name).map .valid := by
  rw [mapping_eq_valid] at h
  induction entries generalizing as with
  | nil =>
    cases as with
    | nil => rfl
    | cons a as => cases h
  | cons e rest ih =>
    cases as with
    | nil => cases h
    | cons a as =>
      obtain ⟨k, d⟩ := e
      obtain ⟨key, a⟩ := a
      obtain ⟨hhead, hrest⟩ := List.cons.inj h
      obtain ⟨rfl, hitem⟩ := Prod.mk.inj hhead
      rw [lookup?, List.lookup_cons, Scalar.asKey_text, Scalar.asKey_text]
      by_cases hkey : key = name
      · subst hkey
        rw [if_pos rfl, beq_self_eq_true]
        exact congrArg some hitem
      · rw [if_neg fun hk => hkey (Scalar.text.inj hk), beq_eq_false_iff_ne.2 (Ne.symm hkey)]
        exact ih hrest

end Check

def Shape.keys : Shape → List String
  | .record fields => fields.map Prod.fst
  | _ => []

/-- The keys of all sections. -/
inductive Setting where
  | level
  | outputs
  | maxErrorRatio
  | rootName
  | schemaConstructors
  | optionalMarkers
  | constraintMethods
  | validationCalls
  | maxTypeLength
  | aliases
  | extensions
  | indexNames
  | fallbackCandidates
  | queryKeywords
  | responseKeywords
  | requestKeywords
  | inboundHints
  | maxWorkers
deriving DecidableEq

namespace Setting

def names : Setting → String × String
  | level => ("logging", "level")
  | outputs => ("logging", "outputs")
  | maxErrorRatio => ("parsing", "max_error_ratio")
  | rootName => ("builder", "root_name")
  | schemaConstructors => ("builder", "schema_constructors")
  | optionalMarkers => ("builder", "optional_markers")
  | constraintMethods => ("builder", "constraint_methods")
  | validationCalls => ("builder", "validation_calls")
  | maxTypeLength => ("declarations", "max_type_length")
  | aliases => ("resolver", "aliases")
  | extensions => ("resolver", "extensions")
  | indexNames => ("resolver", "index_names")
  | fallbackCandidates => ("resolver", "fallback_candidates")
  | queryKeywords => ("classifier", "query_keywords")
  | responseKeywords => ("classifier", "response_keywords")
  | requestKeywords => ("classifier", "request_keywords")
  | inboundHints => ("classifier", "inbound_hints")
  | maxWorkers => ("engine", "max_workers")

def Value : Setting → Type
  | level => LogLevel
  | outputs => List LogOutput
  | maxErrorRatio => Binary64
  | rootName => String
  | maxTypeLength => Int
  | maxWorkers => Int
  | aliases => List (String × List String)
  | _ => List String

def get : (k : Setting) → Settings → k.Value
  | level, s => s.logging.level
  | outputs, s => s.logging.outputs
  | maxErrorRatio, s => s.parsing.maxErrorRatio
  | rootName, s => s.builder.rootName
  | schemaConstructors, s => s.builder.schemaConstructors
  | optionalMarkers, s => s.builder.optionalMarkers
  | constraintMethods, s => s.builder.constraintMethods
  | validationCalls, s => s.builder.validationCalls
  | maxTypeLength, s => s.declarations.maxTypeLength
  | aliases, s => s.resolver.aliases
  | extensions, s => s.resolver.extensions
  | indexNames, s => s.resolver.indexNames
  | fallbackCandidates, s => s.resolver.fallbackCandidates
  | queryKeywords, s => s.classifier.queryKeywords
  | responseKeywords, s => s.classifier.responseKeywords
  | requestKeywords, s => s.classifier.requestKeywords
  | inboundHints, s => s.classifier.inboundHints
  | maxWorkers, s => s.engine.maxWorkers

def check (c : Coercions) : (k : Setting) → Datum → Check k.Value
  | level => Check.oneOf LogLevel.names
  | outputs => Check.list c.logOutput
  | maxErrorRatio => c.errorRatio
  | rootName => Check.text
  | maxTypeLength => c.integer
  | maxWorkers => c.workers
  | aliases => Check.mapping Check.texts
  | extensions => Check.extensions
  | schemaConstructors => Check.texts
  | optionalMarkers => Check.texts
  | constraintMethods => Check.texts
  | validationCalls => Check.texts
  | indexNames => Check.texts
  | fallbackCandidates => Check.texts
  | queryKeywords => Check.texts
  | responseKeywords => Check.texts
  | requestKeywords => Check.texts
  | inboundHints => Check.texts

def all : List Setting :=
  [level, outputs, maxErrorRatio, rootName, schemaConstructors, optionalMarkers, constraintMethods,
    validationCalls, maxTypeLength, aliases, extensions, indexNames, fallbackCandidates,
    queryKeywords, responseKeywords, requestKeywords, inboundHints, maxWorkers]

theorem names_all : all.map names = sectionShapes.flatMap fun s => s.2.keys.map (s.1, ·) := rfl

end Setting

def Datum.sectionEntries (entries : List (Scalar × Datum)) (name : String) :
    List (Scalar × Datum) :=
  match lookup? (.text name) entries with
  | some (.map keys) => keys
  | _ => []

/-- What a mapping of sections says about a setting. -/
def Setting.given? (k : Setting) (entries : List (Scalar × Datum)) : Option Datum :=
  lookup? (.text k.names.2) (Datum.sectionEntries entries k.names.1)

/-- Settings have under a key what `given` is accepted with, or the default. -/
def Setting.Reads (c : Coercions) (k : Setting) (given : Option Datum) (s : Settings) : Prop :=
  Check.Reads (k.check c) (k.get {}) given (k.get s)

/-- A section, where there is one, is a mapping. -/
def Datum.SectionMapped (entries : List (Scalar × Datum)) (name : String) : Prop :=
  ∀ d, lookup? (.text name) entries = some d → d.isMap = true

namespace Check

theorem section_eq_valid {α : Type} {entries : List (Scalar × Datum)} {name : String}
    {default a : α} (check : Datum → Check α) (hdefault : check (.map []) = .valid default)
    (hplain : ∀ d, d.isMap = false → check d ≠ .valid a) :
    field entries name default check = .valid a ↔ Datum.SectionMapped entries name ∧
      check (.map (Datum.sectionEntries entries name)) = .valid a := by
  rw [field_eq_valid, Datum.SectionMapped, Datum.sectionEntries]
  cases lookup? (.text name) entries with
  | none => simpa [Reads, hdefault] using eq_comm
  | some d =>
    cases d with
    | scalar s => simpa [Reads, Datum.isMap] using hplain (.scalar s) rfl
    | list items => simpa [Reads, Datum.isMap] using hplain (.list items) rfl
    | map keys => simp [Reads, Datum.isMap]

theorem entriesOf_ne_valid {α : Type} {name : String} {body : List (Scalar × Datum) → Check α}
    {d : Datum} (h : d.isMap = false) (a : α) : entriesOf name d body ≠ .valid a := by
  cases d with
  | scalar s => simp [entriesOf, complain]
  | list items => simp [entriesOf, complain]
  | map keys => cases h

end Check

namespace Coercions

open Check

variable {c : Coercions} {entries : List (Scalar × Datum)} {s : Settings}

/-- A mapping of sections is accepted with the settings that each of its keys is read with. -/
theorem sections_eq_valid_iff : c.sections entries = .valid s ↔ ∀ k : Setting,
    Datum.SectionMapped entries k.names.1 ∧ k.Reads c (k.given? entries) s := by
  obtain ⟨⟨level, outputs⟩, ⟨ratio⟩, ⟨root, constructors, markers, methods, calls⟩, ⟨length⟩,
    ⟨aliases, extensions, indexNames, candidates⟩, ⟨query, response, request, hints⟩,
    ⟨workers⟩⟩ := s
  simp only [sections, ↓applicativeSeq_eq_valid, ↓exists_seq_eq_valid, ↓exists_map_eq_valid,
    Settings.mk.injEq, ← and_assoc, exists_eq_right,
    section_eq_valid c.logging rfl fun _ h => entriesOf_ne_valid h _,
    section_eq_valid c.parsing rfl fun _ h => entriesOf_ne_valid h _,
    section_eq_valid builder rfl fun _ h => entriesOf_ne_valid h _,
    section_eq_valid c.declarations rfl fun _ h => entriesOf_ne_valid h _,
    section_eq_valid resolver rfl fun _ h => entriesOf_ne_valid h _,
    section_eq_valid classifier rfl fun _ h => entriesOf_ne_valid h _,
    section_eq_valid c.engine rfl fun _ h => entriesOf_ne_valid h _]
  simp only [logging, parsing, builder, declarations, resolver, classifier, engine, entriesOf,
    ↓applicativeSeq_eq_valid, ↓exists_seq_eq_valid, ↓exists_map_eq_valid, ↓functorMap_eq_valid,
    LoggingSettings.mk.injEq, ParsingSettings.mk.injEq, BuilderSettings.mk.injEq,
    DeclarationSettings.mk.injEq, ResolverSettings.mk.injEq, ClassifierSettings.mk.injEq,
    EngineSettings.mk.injEq, ← and_assoc, exists_eq_right, field_eq_valid]
  simp only [and_assoc]
  constructor
  · rintro ⟨hlogging, h₁, h₂, hparsing, h₃, hbuilder, h₄, h₅, h₆, h₇, h₈, hdeclarations, h₉,
      hresolver, h₁₀, h₁₁, h₁₂, h₁₃, hclassifier, h₁₄, h₁₅, h₁₆, h₁₇, hengine, h₁₈⟩ k
    cases k <;> constructor <;> assumption
  · intro h
    exact ⟨(h .level).1, (h .level).2, (h .outputs).2, (h .maxErrorRatio).1, (h .maxErrorRatio).2,
      (h .rootName).1, (h .rootName).2, (h .schemaConstructors).2, (h .optionalMarkers).2,
      (h .constraintMethods).2, (h .validationCalls).2, (h .maxTypeLength).1, (h .maxTypeLength).2,
      (h .aliases).1, (h .aliases).2, (h .extensions).2, (h .indexNames).2,
      (h .fallbackCandidates).2, (h .queryKeywords).1, (h .queryKeywords).2,
      (h .responseKeywords).2, (h .requestKeywords).2, (h .inboundHints).2, (h .maxWorkers).1,
      (h .maxWorkers).2⟩

theorem Lawful.isMap_of_check (hc : c.Lawful) {k : Setting} (hk : k ≠ .aliases) {d : Datum}
    {v : k.Value} (h : k.check c d = .valid v) : d.isMap = false := by
  cases k
  case aliases => exact absurd rfl hk
  case maxErrorRatio =>
    obtain ⟨x, hx, -⟩ := andThen_eq_valid.1 h
    exact hc.number_isMap d x hx
  case maxTypeLength => exact hc.integer_isMap d v h
  case maxWorkers =>
    obtain ⟨n, hn, -⟩ := andThen_eq_valid.1 h
    exact hc.integer_isMap d n hn
  all_goals
    cases d with
    | scalar s => rfl
    | list items => rfl
    | map entries => cases h

theorem sections_of_check (h : c.check entries = .valid s) : c.sections entries = .valid s := by
  rw [check] at h
  split at h
  case h_1 hsections _ =>
    rw [hsections]
    exact h
  case h_2 => cases h
  case h_3 => cases h
  case h_4 => cases h

end Coercions

namespace Platform

variable {P : Platform} {entries : List (Scalar × Datum)} {s : Settings}

/-- Arguments under such names are options of the settings library. -/
def isOption (name : String) : Bool := name.startsWith "_"

/-- What is assumed of a platform: it may run out of room, but mappings that it merges are merged
key by key all the way down, and sources are folded from the first one. A value that it cannot
report has an integer that is too long, or there is no room for it. The settings library stops at a
variable that is not JSON or at one of its own options, or there is no room for what they say. -/
structure Lawful (P : Platform) : Prop extends P.toCoercions.Lawful where
  merge_eq : ∀ base override merged, P.merge base override = some merged →
    merged = Datum.mergeEntries base override
  gather_eq : ∀ sources gathered, P.gather sources = some gathered →
    gathered = Configuration.foldFromFirst sources
  report_error : ∀ d failure, P.report d = .error failure →
    failure = .depthExceeded ∨ failure = .integerTooLong ∧ d.isWritable = false
  sources_error : ∀ arguments environment e, P.sources arguments environment = .error e →
    (∃ name, e = .variable name ∧ environment.settings = .error name) ∨
      e = .file .depthExceeded ∨ ∃ name d, (.text name, d) ∈ arguments ∧ isOption name = true

theorem standard_lawful : standard.Lawful where
  toLawful := Coercions.standard_lawful
  merge_eq _ _ _ h := (Option.some.inj h).symm
  gather_eq _ _ h := (Option.some.inj h).symm
  report_error d failure h := by
    simp only [standard] at h
    split at h
    case isTrue => cases h
    case isFalse hlong =>
      cases h
      exact .inr ⟨rfl, Bool.eq_false_iff.2 hlong⟩
  sources_error _ environment e h := by
    simp only [standard] at h
    cases hsettings : environment.settings with
    | ok entries =>
      rw [hsettings] at h
      cases h
    | error name =>
      rw [hsettings] at h
      cases h
      exact .inl ⟨name, rfl, rfl⟩

theorem check_of_validate (h : P.validate entries = .ok s) : P.check entries = .valid s := by
  rw [validate] at h
  split at h
  case isTrue => cases h
  case isFalse =>
    split at h
    case h_1 hcheck =>
      cases h
      exact hcheck
    case h_2 => cases h
    case h_3 => cases h
    case h_4 => split at h <;> cases h

theorem exists_of_settle {sources : List (List (Scalar × Datum))} (h : P.settle sources = .ok s) :
    ∃ entries, P.gather sources = some entries ∧ P.sections entries = .valid s := by
  rw [settle] at h
  split at h
  case h_1 entries hgather =>
    exact ⟨entries, hgather, Coercions.sections_of_check (check_of_validate h)⟩
  case h_2 => cases h

end Platform

end ContractInference
