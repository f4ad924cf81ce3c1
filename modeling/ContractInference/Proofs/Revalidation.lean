import ContractInference.Proofs.Checked
import ContractInference.Proofs.CleanPath

/-!
# Checking settings again

Settings that a check has returned pass the same check unchanged when they are written out and
read back. Each check that rewrites its input, by adding a dot, expanding a home directory or
cleaning a path, leaves its own results alone, wherever home directories are.
-/

namespace ContractInference

open Datum (lookup?)

def Setting.toDatum : (k : Setting) → k.Value → Datum
  | .level, l => .text l.name
  | .outputs, os => .list (os.map (·.toDatum))
  | .maxErrorRatio, x => .float x
  | .rootName, s => .text s
  | .maxTypeLength, n => .int n
  | .maxWorkers, n => .int n
  | .aliases, as => .map (as.map fun (k, v) => (.text k, .texts v))
  | .extensions, ss => .texts ss
  | .schemaConstructors, ss => .texts ss
  | .optionalMarkers, ss => .texts ss
  | .constraintMethods, ss => .texts ss
  | .validationCalls, ss => .texts ss
  | .indexNames, ss => .texts ss
  | .fallbackCandidates, ss => .texts ss
  | .queryKeywords, ss => .texts ss
  | .responseKeywords, ss => .texts ss
  | .requestKeywords, ss => .texts ss
  | .inboundHints, ss => .texts ss

namespace Check

/-- What has been read under a key, a default included, is read again if the check accepts its own
results and the default. -/
theorem Reads.again {α : Type} {check : Datum → Check α} {write : α → Datum} {default a : α}
    {given : Option Datum} (h : Reads check default given a)
    (hcheck : ∀ d a, check d = .valid a → check (write a) = .valid a)
    (hdefault : check (write default) = .valid default) : check (write a) = .valid a := by
  cases given with
  | none =>
    obtain rfl : a = default := h
    exact hdefault
  | some d => exact hcheck d a h

theorem texts_texts (ss : List String) : texts (.texts ss) = .valid ss := by
  rw [texts, Datum.texts, list_eq_valid, List.map_map]
  rfl

theorem mapping_texts (as : List (String × List String)) :
    mapping texts (.map (as.map fun (k, v) => (.text k, .texts v))) = .valid as := by
  rw [mapping_eq_valid, List.map_map]
  exact List.map_congr_left fun a _ => by simp [texts_texts]

theorem oneOf_level (l : LogLevel) : oneOf LogLevel.names (.text l.name) = .valid l := by
  cases l <;> rfl

theorem oneOf_format (f : LogFormat) : oneOf LogFormat.names (.text f.name) = .valid f := by
  cases f <;> rfl

theorem startsWith_dotted (s : String) : (dotted s).startsWith "." = true := by
  rw [dotted]
  split
  case isTrue h => exact h
  case isFalse =>
    rw [String.startsWith_string_iff, String.toList_append]
    exact List.prefix_append _ _

theorem dotted_of_startsWith {s : String} (h : s.startsWith "." = true) : dotted s = s :=
  if_pos h

theorem dotted_dotted (s : String) : dotted (dotted s) = dotted s :=
  dotted_of_startsWith (startsWith_dotted s)

theorem extensions_texts {ss : List String} (h : ∀ s ∈ ss, dotted s = s) :
    extensions (.texts ss) = .valid ss := by
  rw [extensions, texts_texts, map, List.map_congr_left h, List.map_id']

theorem extensions_of_valid {d : Datum} {ss : List String} (h : extensions d = .valid ss) :
    extensions (.texts ss) = .valid ss := by
  obtain ⟨given, -, rfl⟩ := map_eq_valid.1 h
  refine extensions_texts fun s hs => ?_
  obtain ⟨s, -, rfl⟩ := List.mem_map.1 hs
  exact dotted_dotted s

theorem of_andThen_ite {α : Type} {x : Check α} {P : α → Prop} [DecidablePred P]
    {c : α → Complaint} {d : Datum} {a : α}
    (h : (x.andThen fun a => if P a then .valid a else complain (c a) d) = .valid a) : P a := by
  obtain ⟨b, -, h⟩ := andThen_eq_valid.1 h
  split at h
  case isTrue hb =>
    cases h
    exact hb
  case isFalse => cases h

theorem optionalLevel_ofOption (l : Option LogLevel) :
    optionalLevel (.ofOption (fun l => .text l.name) l) = .valid l := by
  cases l with
  | none => rfl
  | some l => cases l <;> rfl

end Check

namespace Coercions

open Check

variable {c : Coercions}

theorem errorRatio_float (hc : c.Lawful) {x : Binary64}
    (h : (Binary64.zero.le x && x.le (.ofInt 1)) = true) : c.errorRatio (.float x) = .valid x := by
  rw [errorRatio, hc.number_float]
  exact if_pos h

theorem errorRatio_of_valid (hc : c.Lawful) {d : Datum} {x : Binary64}
    (h : c.errorRatio d = .valid x) : c.errorRatio (.float x) = .valid x := by
  have hrange := of_andThen_ite (P := fun x => (Binary64.zero.le x && x.le (.ofInt 1)) = true) h
  exact errorRatio_float hc hrange

theorem workers_int (hc : c.Lawful) {n : Int} (h : 1 ≤ n) : c.workers (.int n) = .valid n := by
  rw [workers, hc.integer_int]
  exact if_pos h

theorem workers_of_valid (hc : c.Lawful) {d : Datum} {n : Int} (h : c.workers d = .valid n) :
    c.workers (.int n) = .valid n :=
  workers_int hc (of_andThen_ite h)

theorem clean_of_expandHome {d : Datum} {p q : Path} (hp : p.Clean)
    (h : c.expandHome d p = .valid q) : q.Clean := by
  rw [expandHome] at h
  split at h
  case h_2 =>
    cases h
    exact hp
  case h_1 first rest hparts =>
    split at h
    case isTrue =>
      cases h
      exact hp
    case isFalse =>
      split at h
      case h_2 => cases h
      case h_3 => cases h
      case h_1 path _ =>
        split at h
        case isTrue => cases h
        case isFalse =>
          cases h
          exact (Path.clean_ofString path).append hp (hparts ▸ List.subset_cons_self _ _)

theorem expandHome_of_isAbsolute {d : Datum} {p : Path} (h : p.isAbsolute = true) :
    c.expandHome d p = .valid p := by
  rw [expandHome]
  split
  case h_1 => rw [h, Bool.true_or, if_pos rfl]
  case h_2 => rfl

theorem destination_of_valid {d : Datum} {t : String} (h : c.destination d = .valid t) :
    c.destination (.text t) = .valid t := by
  obtain ⟨s, -, h⟩ := andThen_eq_valid.1 h
  show (if t == "stderr" || t == "stdout" then _ else _) = _
  split
  case isTrue => rfl
  case isFalse hstream =>
    split at h
    case isTrue hs =>
      cases h
      exact absurd hs hstream
    case isFalse =>
      obtain ⟨p, hp, h⟩ := andThen_eq_valid.1 h
      split at h
      case isTrue habsolute =>
        cases h
        have hclean := clean_of_expandHome (Path.clean_ofString s) hp
        rw [hclean.ofString_text, expandHome_of_isAbsolute habsolute]
        exact if_pos habsolute
      case isFalse => cases h

theorem logOutput_eq_valid {e : List (Scalar × Datum)} {o : LogOutput} :
    c.logOutput (.map e) = .valid o ↔
      Reads (oneOf LogFormat.names) .console (lookup? (.text "format") e) o.format ∧
      Reads c.destination "stderr" (lookup? (.text "destination") e) o.destination ∧
      Reads optionalLevel none (lookup? (.text "level") e) o.level := by
  cases o
  simp only [logOutput, entriesOf, ↓applicativeSeq_eq_valid, ↓exists_seq_eq_valid,
    ↓exists_map_eq_valid, LogOutput.mk.injEq, ← and_assoc, exists_eq_right, field_eq_valid]

theorem logOutput_of_valid {d : Datum} {o : LogOutput} (h : c.logOutput d = .valid o) :
    c.logOutput o.toDatum = .valid o := by
  cases d with
  | scalar s => cases h
  | list items => cases h
  | map e =>
    obtain ⟨-, hdestination, -⟩ := logOutput_eq_valid.1 h
    exact logOutput_eq_valid.2 ⟨oneOf_format o.format,
      hdestination.again (fun _ _ => destination_of_valid) rfl, optionalLevel_ofOption o.level⟩

theorem logOutputs_of_valid {d : Datum} {os : List LogOutput}
    (h : list c.logOutput d = .valid os) :
    list c.logOutput (.list (os.map (·.toDatum))) = .valid os := by
  cases d with
  | scalar s => cases h
  | map entries => cases h
  | list items =>
    have hitems := list_eq_valid.1 h
    rw [list_eq_valid, List.map_map]
    refine List.map_congr_left fun o ho => ?_
    obtain ⟨item, -, hitem⟩ := List.mem_map.1 (hitems ▸ List.mem_map_of_mem ho)
    exact logOutput_of_valid hitem

end Coercions

namespace Setting

variable {c : Coercions}

theorem check_default (hc : c.Lawful) (k : Setting) :
    k.check c (k.toDatum (k.get {})) = .valid (k.get {}) := by
  cases k
  case maxErrorRatio =>
    show c.errorRatio (.float .zero) = .valid .zero
    exact Coercions.errorRatio_float hc (by decide +kernel)
  case extensions =>
    have hdots : ∀ s ∈ ({} : ResolverSettings).extensions, Check.dotted s = s := by decide +kernel
    exact Check.extensions_texts hdots
  case maxTypeLength => exact hc.integer_int _
  case maxWorkers =>
    have hpositive : (1 : Int) ≤ ({} : EngineSettings).maxWorkers := by decide
    exact Coercions.workers_int hc hpositive
  all_goals rfl

/-- Every check accepts its own results as they are. -/
theorem check_of_valid (hc : c.Lawful) {k : Setting} {d : Datum} {v : k.Value}
    (h : k.check c d = .valid v) : k.check c (k.toDatum v) = .valid v := by
  cases k
  case level => exact Check.oneOf_level v
  case outputs => exact Coercions.logOutputs_of_valid h
  case maxErrorRatio => exact Coercions.errorRatio_of_valid hc h
  case rootName => rfl
  case maxTypeLength => exact hc.integer_int v
  case aliases => exact Check.mapping_texts v
  case extensions => exact Check.extensions_of_valid h
  case maxWorkers => exact Coercions.workers_of_valid hc h
  all_goals exact Check.texts_texts v

end Setting

def Settings.entries (s : Settings) : List (Scalar × Datum) :=
  [(.text "logging", s.logging.toDatum), (.text "parsing", s.parsing.toDatum),
    (.text "builder", s.builder.toDatum), (.text "declarations", s.declarations.toDatum),
    (.text "resolver", s.resolver.toDatum), (.text "classifier", s.classifier.toDatum),
    (.text "engine", s.engine.toDatum)]

theorem Setting.given?_entries (k : Setting) (s : Settings) :
    k.given? s.entries = some (k.toDatum (k.get s)) := by
  cases k <;> rfl

theorem Settings.sectionMapped_entries (s : Settings) (name : String) :
    Datum.SectionMapped s.entries name := by
  intro d hd
  have hmem := Datum.mem_of_lookup?_text hd
  simp only [entries, List.mem_cons, List.not_mem_nil, or_false, Prod.mk.injEq] at hmem
  rcases hmem with ⟨-, rfl⟩ | ⟨-, rfl⟩ | ⟨-, rfl⟩ | ⟨-, rfl⟩ | ⟨-, rfl⟩ | ⟨-, rfl⟩ | ⟨-, rfl⟩
  all_goals rfl

/-- Settings that have been accepted are accepted again and stay as they are. -/
theorem Coercions.settings_toDatum {c : Coercions} (hc : c.Lawful)
    {entries : List (Scalar × Datum)} {s : Settings} (h : c.sections entries = .valid s) :
    c.settings s.toDatum = .valid s := by
  show c.sections s.entries = .valid s
  refine sections_eq_valid_iff.2 fun k => ⟨s.sectionMapped_entries _, ?_⟩
  rw [k.given?_entries s]
  exact (sections_eq_valid_iff.1 h k).2.again (fun _ _ => Setting.check_of_valid hc)
    (k.check_default hc)

end ContractInference
