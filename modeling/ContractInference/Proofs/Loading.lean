import ContractInference.Proofs.Revalidation

/-!
# Loading

Whatever files, variables and arguments there are, loading returns settings or refuses the
configuration, unless one of a few causes keeps it from a verdict: a file that is not text, a
scalar that stands for nothing, variables or arguments that the settings library stops at, a key
that is not text, a home directory that is not known, an integer that is too long to be reported,
or values for which there is no room. Settings that are returned pass a second check unchanged.
Documents that are no trees are left out.
-/

namespace ContractInference

open Datum (lookup? mergeEntries)

namespace Datum

variable {entries base override : List (Scalar × Datum)}

theorem itemsWritable_iff {items : List Datum} :
    itemsWritable items = true ↔ ∀ d ∈ items, d.isWritable = true := by
  induction items with
  | nil => exact iff_of_true rfl fun _ h => absurd h List.not_mem_nil
  | cons d ds ih => rw [itemsWritable, Bool.and_eq_true, ih, List.forall_mem_cons]

theorem entriesWritable_iff : entriesWritable entries = true ↔
    ∀ e ∈ entries, e.1.isWritable = true ∧ e.2.isWritable = true := by
  induction entries with
  | nil => exact iff_of_true rfl fun _ h => absurd h List.not_mem_nil
  | cons e rest ih =>
    rw [entriesWritable, Bool.and_eq_true, Bool.and_eq_true, ih, List.forall_mem_cons]

theorem isWritable_of_contains {d x : Datum} (h : d.Contains x) (hd : d.isWritable = true) :
    x.isWritable = true := by
  induction h with
  | self d => exact hd
  | item hmem _ ih => exact ih (itemsWritable_iff.1 hd _ hmem)
  | entry hmem _ ih => exact ih (entriesWritable_iff.1 hd _ hmem).2
  | key hmem => exact (entriesWritable_iff.1 hd _ hmem).1

theorem isWritable_mergeEntries (hbase : (Datum.map base).isWritable = true)
    (hoverride : (Datum.map override).isWritable = true) :
    (Datum.map (mergeEntries base override)).isWritable = true :=
  mergeEntries_closed (Q := fun d => d.isWritable = true) (K := fun _ => True)
    (R := fun k => k.isWritable = true)
    (fun entries => by rw [isWritable, entriesWritable_iff, true_and])
    (fun _ _ h => h) (fun _ _ _ h => h) hbase hoverride

/-- No output in a section of the log is in a home directory that is not known. -/
def OutputsHoused (c : Coercions) (d : Datum) : Prop :=
  ∀ items output s, d.HasEntry "outputs" (.list items) → output ∈ items →
    output.HasEntry "destination" (.text s) → c.isHomeless s = false

variable {c : Coercions}

theorem outputsHoused_merge (hbase : (Datum.map base).OutputsHoused c)
    (hoverride : (Datum.map override).OutputsHoused c) :
    (Datum.map (mergeEntries base override)).OutputsHoused c := by
  rintro items output s ⟨_, ⟨⟩, hmem⟩ houtput hs
  -- Lists replace each other, so that the list of outputs is from one of the two.
  refine forall_mem_mergeEntries (P := fun k v => k = .text "outputs" → ∀ items, v = .list items →
    ∀ output ∈ items, ∀ s, output.HasEntry "destination" (.text s) →
      c.isHomeless s = false) ?_ ?_ ?_ ?_ _ hmem rfl items rfl output houtput s hs
  · rintro _ key _ hk h rfl
    exact h (Scalar.asKey_eq_text.1 hk.symm)
  · rintro _ _ _ _ _ _ _ ⟨⟩
  · rintro ⟨_, _⟩ hmem rfl items rfl output houtput s
    exact hbase items output s ⟨_, rfl, hmem⟩ houtput
  · rintro ⟨_, _⟩ hmem rfl items rfl output houtput s
    exact hoverride items output s ⟨_, rfl, hmem⟩ houtput

theorem outputsHoused_of_not (h : ¬ (Datum.map entries).NamesUnknownHome c) :
    ∀ e ∈ entries, e.1 = .text "logging" → e.2.OutputsHoused c := by
  rintro ⟨_, d⟩ hmem rfl items output s hitems houtput hs
  rw [← Bool.not_eq_true]
  exact fun hother => h ⟨d, items, output, s, ⟨_, rfl, hmem⟩, hitems, houtput, hs, hother⟩

theorem namesUnknownHome_of_merge
    (h : (Datum.map (mergeEntries base override)).NamesUnknownHome c) :
    (Datum.map base).NamesUnknownHome c ∨ (Datum.map override).NamesUnknownHome c := by
  by_contra hneither
  obtain ⟨hbase, hoverride⟩ := not_or.1 hneither
  obtain ⟨d, items, output, s, ⟨_, ⟨⟩, hmem⟩, hitems, houtput, hs, hother⟩ := h
  have hhoused := forall_mem_mergeEntries (P := fun k v => k = .text "logging" → v.OutputsHoused c)
    (fun _ _ _ hk h hlogging => h (Scalar.asKey_eq_text.1 (by rw [← hk, hlogging]; rfl)))
    (fun _ _ _ hold hnew hk => outputsHoused_merge (hold hk) (hnew hk))
    (outputsHoused_of_not hbase) (outputsHoused_of_not hoverride) _ hmem rfl
  rw [hhoused items output s hitems houtput hs] at hother
  cases hother

end Datum

namespace Configuration

/-- What in a mapping keeps it from being accepted or refused. -/
inductive Obstacle (c : Coercions) (entries : List (Scalar × Datum)) : LoadError → Prop where
  | key {k : Scalar} {d : Datum} (hmem : (k, d) ∈ entries) (hk : ∀ name, k ≠ .text name) :
      Obstacle c entries .keyNotText
  | home (h : (Datum.map entries).NamesUnknownHome c) : Obstacle c entries .homeless
  | digits (h : (Datum.map entries).isWritable = false) :
      Obstacle c entries (.file .integerTooLong)

variable {c : Coercions} {entries base override : List (Scalar × Datum)} {e : LoadError}

theorem obstacle_of_merge (h : Obstacle c (mergeEntries base override) e) :
    Obstacle c base e ∨ Obstacle c override e := by
  by_contra hneither
  obtain ⟨hbase, hoverride⟩ := not_or.1 hneither
  cases h with
  | key hmem hk =>
    have htext : ∀ entries, ¬ Obstacle c entries .keyNotText →
        ∀ e ∈ entries, ∃ name, e.1 = .text name :=
      fun entries h e he => by_contra fun hk => h (.key he (not_exists.1 hk))
    obtain ⟨name, hname⟩ := Datum.forall_mem_mergeEntries (P := fun k _ => ∃ name, k = .text name)
      (fun _ _ _ hk => Exists.imp fun name hname => Scalar.asKey_eq_text.1 (by rw [hk, hname]; rfl))
      (fun _ _ _ h _ => h) (htext base hbase) (htext override hoverride) _ hmem
    exact hk name hname
  | home h =>
    exact (Datum.namesUnknownHome_of_merge h).elim (fun h => hbase (.home h))
      fun h => hoverride (.home h)
  | digits h =>
    have hwritable : ∀ entries, ¬ Obstacle c entries (.file .integerTooLong) →
        (Datum.map entries).isWritable = true :=
      fun entries h => Bool.of_not_eq_false fun hd => h (.digits hd)
    rw [Datum.isWritable_mergeEntries (hwritable base hbase) (hwritable override hoverride)] at h
    cases h

theorem not_obstacle_nil : ¬ Obstacle c [] e := by
  rintro (⟨⟨⟩⟩ | ⟨_, _, _, _, ⟨_, ⟨⟩, ⟨⟩⟩, _⟩ | ⟨⟨⟩⟩)

theorem obstacle_of_foldl {sources : List (List (Scalar × Datum))}
    {gathered : List (Scalar × Datum)} (h : Obstacle c (sources.foldl
      (fun gathered source => mergeEntries source gathered) gathered) e) :
    Obstacle c gathered e ∨ ∃ source ∈ sources, Obstacle c source e := by
  induction sources generalizing gathered with
  | nil => exact .inl h
  | cons source rest ih =>
    rcases ih h with h | ⟨found, hmem, hfound⟩
    · exact (obstacle_of_merge h).symm.imp_right fun h => ⟨source, List.mem_cons_self, h⟩
    · exact .inr ⟨found, List.mem_cons_of_mem _ hmem, hfound⟩

theorem obstacle_of_fold {sources : List (List (Scalar × Datum))}
    (h : Obstacle c (foldFromFirst sources) e) : ∃ source ∈ sources, Obstacle c source e :=
  (obstacle_of_foldl h).resolve_left not_obstacle_nil

end Configuration

/-- The errors that tell a user what is wrong with the configuration. -/
def LoadError.isConfigError : LoadError → Bool
  | .refused _ => true
  | .notYaml _ => true
  | _ => false

namespace Configuration

variable {P : Platform} {e : LoadError}

/-- A mapping is accepted, refused, or has an obstacle, or there is no room to report a value. -/
theorem validate_outcome (hP : P.Lawful) (entries : List (Scalar × Datum)) :
    (∃ s, P.validate entries = .ok s) ∨ ∃ e, P.validate entries = .error e ∧
      (e.isConfigError = true ∨ Obstacle P.toCoercions entries e ∨ e = .file .depthExceeded ∧
        ∃ x, (Datum.map entries).Contains x ∧ P.report x = .error .depthExceeded) := by
  have hcheck := Coercions.explained_check hP.toLawful entries
  rw [Platform.validate]
  split
  case isTrue hany =>
    obtain ⟨⟨k, d⟩, hmem, hk⟩ := List.any_eq_true.1 hany
    refine .inr ⟨_, rfl, .inr (.inl (.key hmem ?_))⟩
    rintro name rfl
    cases hk
  case isFalse =>
    cases hc : P.check entries with
    | valid s => exact .inl ⟨s, rfl⟩
    | homeless =>
      rw [hc] at hcheck
      exact .inr ⟨_, rfl, .inr (.inl (.home hcheck))⟩
    | invalid issues =>
      rw [hc] at hcheck
      cases issues with
      | nil => exact absurd rfl hcheck.1
      | cons i rest =>
        have hinput := hcheck.2 i List.mem_cons_self
        right
        dsimp only
        cases hreport : P.report i.input with
        | ok _ => exact ⟨_, rfl, .inl rfl⟩
        | error failure =>
          refine ⟨_, rfl, .inr ?_⟩
          rcases hP.report_error _ _ hreport with rfl | ⟨rfl, hlong⟩
          · exact .inr ⟨rfl, _, hinput, hreport⟩
          · refine .inl (.digits (Bool.eq_false_iff.2 fun hd => ?_))
            rw [Datum.isWritable_of_contains hinput hd] at hlong
            cases hlong

namespace Request

def projectPath (r : Request) : Path :=
  match r.explicit with
  | some path => Path.ofString path
  | none => projectFile r.root

def Counts (P : Platform) (r : Request) (path : Path) : Prop :=
  path = r.projectPath ∨ path = P.userFile

/-- No file that counts is a document of anything but a tree. -/
def PlainFiles (P : Platform) (r : Request) : Prop :=
  ∀ path text, r.Counts P path → r.files.readStrict path.text = .ok text →
    P.yaml text ≠ .error .notPlain

/-- The mappings that the places hold. -/
inductive Provides (P : Platform) (r : Request) : List (Scalar × Datum) → Prop where
  | project {entries : List (Scalar × Datum)} (h : P.readProject r = .ok entries) :
      Provides P r entries
  | user {entries : List (Scalar × Datum)} (h : P.readFile r.files P.userFile = .ok entries) :
      Provides P r entries
  | source {sources : List (List (Scalar × Datum))} {entries : List (Scalar × Datum)}
      (h : P.sources r.arguments r.environment = .ok sources) (hmem : entries ∈ sources) :
      Provides P r entries

/-- What keeps loading from a verdict. -/
inductive Cause (P : Platform) (r : Request) : LoadError → Prop where
  | unreadable {path : Path} {failure : Failure} (hpath : r.Counts P path)
      (hfile : r.files.isFile path.text = true)
      (h : r.files.readStrict path.text = .error failure) : Cause P r (.file failure)
  | scalar {path : Path} {text : String} {e : YamlError} (hpath : r.Counts P path)
      (hread : r.files.readStrict path.text = .ok text) (h : P.yaml text = .error e)
      (hdocument : e ≠ .malformed) (hplain : e ≠ .notPlain) : Cause P r (.scalar e)
  | variable {name : String} (h : r.environment.settings = .error name) : Cause P r (.variable name)
  | deep (h : P.sources r.arguments r.environment = .error (.file .depthExceeded)) :
      Cause P r (.file .depthExceeded)
  /-- An argument is an option of the settings library, and the library does not accept it. -/
  | option {name : String} {d : Datum} {e : LoadError} (hmem : (.text name, d) ∈ r.arguments)
      (hname : Platform.isOption name = true)
      (h : P.sources r.arguments r.environment = .error e) : Cause P r e
  | given {entries : List (Scalar × Datum)} {e : LoadError} (hgiven : r.Provides P entries)
      (h : Obstacle P.toCoercions entries e) : Cause P r e
  | unmerged {user project : List (Scalar × Datum)} (hproject : P.readProject r = .ok project)
      (huser : P.readFile r.files P.userFile = .ok user) (h : P.merge user project = none) :
      Cause P r (.file .depthExceeded)
  | ungathered {files : List (Scalar × Datum)} {sources : List (List (Scalar × Datum))}
      (hfiles : P.readFiles r = .ok files)
      (hsources : P.sources r.arguments r.environment = .ok sources)
      (h : P.gather (sources ++ [files]) = none) : Cause P r (.file .depthExceeded)
  | unreported {files entries : List (Scalar × Datum)} {sources : List (List (Scalar × Datum))}
      {x : Datum} (hfiles : P.readFiles r = .ok files)
      (hsources : P.sources r.arguments r.environment = .ok sources)
      (hentries : P.gather (sources ++ [files]) = some entries)
      (hx : (Datum.map entries).Contains x) (h : P.report x = .error .depthExceeded) :
      Cause P r (.file .depthExceeded)

end Request

variable {r : Request}

theorem readFile_outcome (hr : r.PlainFiles P) {path : Path} (hpath : r.Counts P path) :
    (∃ entries, P.readFile r.files path = .ok entries) ∨
      ∃ e, P.readFile r.files path = .error e ∧ (e.isConfigError = true ∨ r.Cause P e) := by
  rw [Platform.readFile]
  split
  case isTrue => exact .inl ⟨_, rfl⟩
  case isFalse hfile =>
    have hfile : r.files.isFile path.text = true := by simpa using hfile
    cases hread : r.files.readStrict path.text with
    | error failure => exact .inr ⟨_, rfl, .inr (.unreadable hpath hfile hread)⟩
    | ok text =>
      have hplain := hr path text hpath hread
      dsimp only
      split
      case h_1 => exact .inr ⟨_, rfl, .inl rfl⟩
      case h_2 e hne hparse =>
        refine .inr ⟨_, rfl, .inr (.scalar hpath hread hparse hne ?_)⟩
        rintro rfl
        exact hplain hparse
      case h_3 => exact .inl ⟨_, rfl⟩
      case h_4 =>
        split
        case isTrue => exact .inl ⟨_, rfl⟩
        case isFalse => exact .inr ⟨_, rfl, .inl rfl⟩

theorem readProject_outcome (hr : r.PlainFiles P) :
    (∃ entries, P.readProject r = .ok entries) ∨
      ∃ e, P.readProject r = .error e ∧ (e.isConfigError = true ∨ r.Cause P e) := by
  have hread := readFile_outcome hr (.inl rfl)
  rw [Platform.readProject]
  cases hexplicit : r.explicit with
  | none =>
    rw [Request.projectPath, hexplicit] at hread
    exact hread
  | some path =>
    rw [Request.projectPath, hexplicit] at hread
    dsimp only
    split
    case isTrue => exact hread
    case isFalse => exact .inr ⟨_, rfl, .inl rfl⟩

theorem readFiles_outcome (hP : P.Lawful) (hr : r.PlainFiles P) :
    (∃ user project, r.Provides P user ∧ r.Provides P project ∧
        P.readFiles r = .ok (mergeEntries user project)) ∨
      ∃ e, P.readFiles r = .error e ∧ (e.isConfigError = true ∨ r.Cause P e) := by
  rcases readProject_outcome hr with ⟨project, hproject⟩ | ⟨e, he, hcause⟩
  case inr => exact .inr ⟨e, by rw [Platform.readFiles, he]; rfl, hcause⟩
  rcases readFile_outcome hr (.inr rfl) with ⟨user, huser⟩ | ⟨e, he, hcause⟩
  case inr => exact .inr ⟨e, by rw [Platform.readFiles, hproject, he]; rfl, hcause⟩
  have hmerge : P.readFiles r = P.mergeFiles user project := by
    rw [Platform.readFiles, hproject, huser]
    rfl
  rw [hmerge, Platform.mergeFiles]
  cases hmerged : P.merge user project with
  | none => exact .inr ⟨_, rfl, .inr (.unmerged hproject huser hmerged)⟩
  | some merged =>
    obtain rfl := hP.merge_eq _ _ _ hmerged
    exact .inl ⟨user, project, .user huser, .project hproject, rfl⟩

theorem cause_of_sources (hP : P.Lawful) (h : P.sources r.arguments r.environment = .error e) :
    r.Cause P e := by
  rcases hP.sources_error _ _ _ h with ⟨name, rfl, hsettings⟩ | rfl | ⟨name, d, hmem, hname⟩
  · exact .variable hsettings
  · exact .deep h
  · exact .option hmem hname h

/-- What the places are kept back by together, one of them is. -/
theorem Request.Provides.cause {user project : List (Scalar × Datum)}
    {sources : List (List (Scalar × Datum))} (huser : r.Provides P user)
    (hproject : r.Provides P project)
    (hsources : P.sources r.arguments r.environment = .ok sources)
    (h : Obstacle P.toCoercions (foldFromFirst (sources ++ [mergeEntries user project])) e) :
    r.Cause P e := by
  obtain ⟨source, hmem, hsource⟩ := obstacle_of_fold h
  rcases List.mem_append.1 hmem with hmem | hmem
  · exact .given (.source hsources hmem) hsource
  · obtain rfl := List.mem_singleton.1 hmem
    exact (obstacle_of_merge hsource).elim (.given huser) (.given hproject)

/-- Loading returns settings that a second check leaves as they are, or refuses the configuration,
unless there is a cause for another error. -/
theorem load_outcome (hP : P.Lawful) (hr : r.PlainFiles P) :
    (∃ s, P.load r = .ok s ∧ P.settings s.toDatum = .valid s) ∨
      ∃ e, P.load r = .error e ∧ (e.isConfigError = true ∨ r.Cause P e) := by
  rcases readFiles_outcome hP hr with ⟨user, project, huser, hproject, hfiles⟩ | ⟨e, he, hcause⟩
  case inr => exact .inr ⟨e, by rw [Platform.load, he]; rfl, hcause⟩
  cases hsources : P.sources r.arguments r.environment with
  | error e =>
    exact .inr ⟨e, by rw [Platform.load, hfiles, hsources]; rfl,
      .inr (cause_of_sources hP hsources)⟩
  | ok sources =>
    have hload : P.load r = P.settle (sources ++ [mergeEntries user project]) := by
      rw [Platform.load, hfiles, hsources]
      rfl
    rw [hload, Platform.settle]
    cases hgather : P.gather (sources ++ [mergeEntries user project]) with
    | none => exact .inr ⟨_, rfl, .inr (.ungathered hfiles hsources hgather)⟩
    | some entries =>
      rcases validate_outcome hP entries with ⟨s, hs⟩ | ⟨e, he, hconfig | hobstacle | hroom⟩
      · have hsections := Coercions.sections_of_check (Platform.check_of_validate hs)
        exact .inl ⟨s, hs, Coercions.settings_toDatum hP.toLawful hsections⟩
      · exact .inr ⟨e, he, .inl hconfig⟩
      · rw [hP.gather_eq _ _ hgather] at hobstacle
        exact .inr ⟨e, he, .inr (huser.cause hproject hsources hobstacle)⟩
      · obtain ⟨rfl, x, hx, hreport⟩ := hroom
        exact .inr ⟨_, he, .inr (.unreported hfiles hsources hgather hx hreport)⟩

/-- A project's file with a date that no calendar has. -/
def undatedProject : Request where
  files := [("/app/.contractscan/config.yaml",
    .readable "engine: \x7bmax_workers: 2024-13-45\x7d".toUTF8.toList)]
  root := "/app"

theorem load_outcome_undated : undatedProject.PlainFiles .standard ∧
    ∃ e, Platform.standard.load undatedProject = .error e ∧ undatedProject.Cause .standard e := by
  have hproject : (undatedProject.files.readStrict undatedProject.projectPath.text).toOption =
      some "engine: \x7bmax_workers: 2024-13-45\x7d" := by decide +kernel
  have hdate : (Yaml.parse "engine: \x7bmax_workers: 2024-13-45\x7d").map (fun _ => ()) =
      .error (.notInCalendar "month must be in 1..12") := by decide +kernel
  have huser : (undatedProject.files.readStrict Platform.standard.userFile.text).toOption =
      none := by decide +kernel
  have hplain : undatedProject.PlainFiles .standard := by
    rintro path text (rfl | rfl) hread hparse
    · rw [hread] at hproject
      cases hproject
      rw [show Yaml.parse _ = _ from hparse] at hdate
      cases hdate
    · rw [hread] at huser
      cases huser
  have herror : (Platform.standard.load undatedProject).mapError LoadError.isConfigError =
      .error false := by decide +kernel
  refine ⟨hplain, ?_⟩
  rcases load_outcome Platform.standard_lawful hplain with ⟨s, hs, -⟩ | ⟨e, he, hconfig | hcause⟩
  · rw [hs] at herror
    cases herror
  · rw [he, Except.mapError, hconfig] at herror
    cases herror
  · exact ⟨e, he, hcause⟩

/-- A project's file with a number for a key. -/
def numberedProject : Request where
  files := [("/app/.contractscan/config.yaml", .readable "1: x".toUTF8.toList)]
  root := "/app"

def brokenVariable : Request where
  environment := [("CONTRACTSCAN__BUILDER__OPTIONAL_MARKERS", "a,b")]

/-- An integer in the place of a section. -/
def longInteger : Request where
  arguments := [(.text "engine", .int (Nat.pow 10 maxIntegerDigits))]

def homeOutput : Request where
  arguments := [(.text "logging", .record [("outputs",
    .list [.record [("destination", .text "~/scan.log")]])])]

/-- Errors that reach the caller and do not say what is wrong with the configuration. The last one
needs a platform on which no home directory is known. -/
theorem load_other_errors :
    (load undatedProject).mapError LoadError.isConfigError = .error false ∧
    (load numberedProject).mapError LoadError.isConfigError = .error false ∧
    (load brokenVariable).mapError LoadError.isConfigError = .error false ∧
    (load longInteger).mapError LoadError.isConfigError = .error false ∧
    (({ Platform.standard with home := fun _ => .unknown } : Platform).load homeOutput).mapError
      LoadError.isConfigError = .error false := by
  decide +kernel

end Configuration

end ContractInference
