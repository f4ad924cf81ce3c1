import ContractInference.Proofs.Revalidation

/-!
# Settled settings

The settings that a check can return are those that the check returns unchanged when they are
written out and read back. They are known by four conditions: extensions have their dots,
destinations are streams or absolute paths in their cleaned form, and the ratio and the number of
workers are in range. So a second check at the end of loading changes nothing.
-/

namespace ContractInference

namespace Coercions

open Check

variable {c : Coercions}

/-- A stream, or an absolute path that expanding the home directory and cleaning leave as it is. -/
def IsDestination (c : Coercions) (t : String) : Prop :=
  t = "stderr" ∨ t = "stdout" ∨ ∃ p : Path,
    c.expandHome (.text t) (Path.ofString t) = .valid p ∧ p.isAbsolute = true ∧ p.text = t

theorem destination_text_iff {t : String} :
    c.destination (.text t) = .valid t ↔ c.IsDestination t := by
  show (if t == "stderr" || t == "stdout" then _ else _) = _ ↔ _
  split
  case isTrue hstream =>
    refine iff_of_true rfl ?_
    rw [Bool.or_eq_true, beq_iff_eq, beq_iff_eq] at hstream
    exact hstream.imp_right .inl
  case isFalse hfile =>
    rw [andThen_eq_valid]
    constructor
    · rintro ⟨p, hp, h⟩
      split at h
      case isTrue habsolute =>
        cases h
        exact .inr (.inr ⟨p, hp, habsolute, rfl⟩)
      case isFalse => cases h
    · rintro (rfl | rfl | ⟨p, hp, habsolute, rfl⟩)
      · exact absurd rfl hfile
      · exact absurd rfl hfile
      · exact ⟨p, hp, if_pos habsolute⟩

theorem logOutput_toDatum_iff {o : LogOutput} :
    c.logOutput o.toDatum = .valid o ↔ c.IsDestination o.destination := by
  rw [← destination_text_iff]
  refine logOutput_eq_valid.trans ⟨fun h => h.2.1, fun h => ?_⟩
  exact ⟨oneOf_format o.format, h, optionalLevel_ofOption o.level⟩

theorem logOutputs_toDatum_iff {os : List LogOutput} :
    list c.logOutput (.list (os.map (·.toDatum))) = .valid os ↔
      ∀ o ∈ os, c.IsDestination o.destination := by
  rw [list_eq_valid, List.map_map, List.map_inj_left]
  exact forall₂_congr fun o _ => logOutput_toDatum_iff

theorem extensions_texts_iff {ss : List String} :
    extensions (.texts ss) = .valid ss ↔ ∀ s ∈ ss, s.startsWith "." = true := by
  constructor
  · intro h s hs
    obtain ⟨given, -, rfl⟩ := map_eq_valid.1 h
    obtain ⟨s, -, rfl⟩ := List.mem_map.1 hs
    exact startsWith_dotted s
  · exact fun h => extensions_texts fun s hs => dotted_of_startsWith (h s hs)

theorem errorRatio_float_iff (hc : c.Lawful) {x : Binary64} : c.errorRatio (.float x) = .valid x ↔
    Binary64.zero.le x = true ∧ x.le (.ofInt 1) = true := by
  rw [← Bool.and_eq_true]
  exact ⟨of_andThen_ite (P := fun x => (Binary64.zero.le x && x.le (.ofInt 1)) = true),
    errorRatio_float hc⟩

theorem workers_int_iff (hc : c.Lawful) {n : Int} : c.workers (.int n) = .valid n ↔ 1 ≤ n :=
  ⟨of_andThen_ite, workers_int hc⟩

end Coercions

/-- Settings in the form in which a check returns them. -/
structure Settings.Settled (c : Coercions) (s : Settings) : Prop where
  extensions : ∀ e ∈ s.resolver.extensions, e.startsWith "." = true
  destinations : ∀ o ∈ s.logging.outputs, c.IsDestination o.destination
  ratio : Binary64.zero.le s.parsing.maxErrorRatio = true ∧
    s.parsing.maxErrorRatio.le (.ofInt 1) = true
  workers : 1 ≤ s.engine.maxWorkers

namespace Coercions

variable {c : Coercions} {s : Settings}

theorem settings_toDatum_eq_valid_iff : c.settings s.toDatum = .valid s ↔
    ∀ k : Setting, k.check c (k.toDatum (k.get s)) = .valid (k.get s) := by
  show c.sections s.entries = .valid s ↔ _
  refine sections_eq_valid_iff.trans (forall_congr' fun k => ?_)
  rw [k.given?_entries s]
  exact and_iff_right (s.sectionMapped_entries _)

/-- Settled settings are those that a check leaves as they are. -/
theorem settled_iff (hc : c.Lawful) : s.Settled c ↔ c.settings s.toDatum = .valid s := by
  rw [settings_toDatum_eq_valid_iff]
  constructor
  · rintro ⟨hextensions, hdestinations, hratio, hworkers⟩ k
    cases k
    case level => exact Check.oneOf_level _
    case outputs => exact logOutputs_toDatum_iff.2 hdestinations
    case maxErrorRatio => exact (errorRatio_float_iff hc).2 hratio
    case rootName => rfl
    case maxTypeLength => exact hc.integer_int _
    case aliases => exact Check.mapping_texts _
    case extensions => exact extensions_texts_iff.2 hextensions
    case maxWorkers => exact workers_int hc hworkers
    all_goals exact Check.texts_texts _
  · intro h
    exact ⟨extensions_texts_iff.1 (h .extensions), logOutputs_toDatum_iff.1 (h .outputs),
      (errorRatio_float_iff hc).1 (h .maxErrorRatio), (workers_int_iff hc).1 (h .maxWorkers)⟩

end Coercions

namespace Platform

variable {P : Platform} {s : Settings}

theorem exists_sections_of_load {r : Configuration.Request} (h : P.load r = .ok s) :
    ∃ entries, P.sections entries = .valid s := by
  rw [load] at h
  cases hfiles : P.readFiles r with
  | error e =>
    rw [hfiles] at h
    cases h
  | ok files =>
    cases hsources : P.sources r.arguments r.environment with
    | error e =>
      rw [hfiles, hsources] at h
      cases h
    | ok sources =>
      rw [hfiles, hsources] at h
      obtain ⟨entries, -, hentries⟩ := exists_of_settle h
      exact ⟨entries, hentries⟩

/-- Whatever a check returns is settled and passes the check unchanged, so that a second check
after loading has no effect. -/
theorem settings_twice (hP : P.toCoercions.Lawful) :
    (∀ d s, P.settings d = .valid s →
      P.settings s.toDatum = .valid s ∧ s.Settled P.toCoercions) ∧
    ∀ r, (P.load r).map (fun s => P.settings s.toDatum) = (P.load r).map .valid := by
  constructor
  · intro d s h
    cases d with
    | scalar x => cases h
    | list items => cases h
    | map entries =>
      have hsections : P.sections entries = .valid s := h
      have hagain := Coercions.settings_toDatum hP hsections
      exact ⟨hagain, (Coercions.settled_iff hP).2 hagain⟩
  · intro r
    cases hload : P.load r with
    | error e => rfl
    | ok s =>
      obtain ⟨entries, hentries⟩ := exists_sections_of_load hload
      exact congrArg Except.ok (Coercions.settings_toDatum hP hentries)

end Platform

def Check.value? {α : Type} : Check α → Option α
  | .valid a => some a
  | _ => none

theorem Check.value?_eq_some_iff {α : Type} {x : Check α} {a : α} :
    x.value? = some a ↔ x = .valid a := by
  cases x <;> simp [value?]

/-- Values that a check rewrites: a path below a home directory, an extension without its dot, and
numbers in other forms. -/
def roughSettings : Datum :=
  .record [("logging", .record [("outputs",
      .list [.record [("destination", .text "~//logs/./scan.log")]])]),
    ("parsing", .record [("max_error_ratio", .bool true)]),
    ("resolver", .record [("extensions", .texts ["ts", ".js"])]),
    ("engine", .record [("max_workers", .text " 8 ")])]

def smoothSettings : Settings :=
  { logging := { outputs := [{ destination := "/home/user/logs/scan.log" }] }
    parsing := { maxErrorRatio := .ofInt 1 }
    resolver := { extensions := [".ts", ".js"] }
    engine := { maxWorkers := 8 } }

theorem Platform.settings_twice_rough :
    standard.settings roughSettings = .valid smoothSettings ∧
      standard.settings smoothSettings.toDatum = .valid smoothSettings ∧
      smoothSettings.Settled .standard := by
  have hvalue : (standard.settings roughSettings).value? = some smoothSettings := by
    decide +kernel
  have h := Check.value?_eq_some_iff.1 hvalue
  exact ⟨h, (settings_twice Coercions.standard_lawful).1 _ _ h⟩

end ContractInference
