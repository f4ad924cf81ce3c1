import ContractInference.Proofs.Checked

/-!
# Precedence of settings

Settings are combined from the mappings of four places. Of all places that say something about a
key the first one counts, and a key that none of them mentions has its default. Prefixes of module
names are combined one by one; only a project whose aliases are no mapping hides those of the
user.
-/

namespace ContractInference

open Datum (lookup? mergeEntries mergeOption)

theorem findSome?_cons_eq_or {α β : Type} (f : α → Option β) (a : α) (as : List α) :
    (a :: as).findSome? f = (f a).or (as.findSome? f) := by
  rw [List.findSome?_cons]
  cases f a <;> rfl

namespace Datum

/-- The first of four values, merged in two pairs, is the merged one unless that is a mapping. -/
theorem mergeOption_eq_first {user project environment arguments : Option Datum}
    (h : ∀ v, mergeOption (mergeOption user project) (mergeOption environment arguments) = some v →
      v.isMap = false) :
    mergeOption (mergeOption user project) (mergeOption environment arguments) =
      arguments.or (environment.or (project.or user)) := by
  have hmerged := mergeOption_eq_or_of_merged h
  rw [hmerged] at h ⊢
  cases hover : mergeOption environment arguments with
  | none =>
    obtain ⟨rfl, rfl⟩ := mergeOption_eq_none.1 hover
    rw [hover] at h
    exact mergeOption_eq_or_of_merged h
  | some w =>
    have hw : mergeOption environment arguments = arguments.or environment := by
      refine mergeOption_eq_or_of_merged fun v hv => h v ?_
      rw [hv]
      rfl
    rw [← Option.or_assoc, ← hw, hover]
    rfl

end Datum

namespace Configuration

/-- A mapping of sections that are mappings themselves, in which no key occurs twice. -/
structure IsLayer (entries : List (Scalar × Datum)) : Prop where
  distinct : (Datum.map entries).distinctKeys = true
  sections : ∀ e ∈ entries, e.2.isMap = true

variable {base override : List (Scalar × Datum)}

theorem IsLayer.merge (hbase : IsLayer base) (hoverride : IsLayer override) :
    IsLayer (mergeEntries base override) where
  distinct := Datum.distinctKeys_mergeEntries hbase.distinct hoverride.distinct
  sections := Datum.forall_mem_mergeEntries (P := fun _ d => d.isMap = true)
    (fun _ _ _ _ h => h) (fun _ _ _ _ _ => rfl) hbase.sections hoverride.sections

theorem IsLayer.exists_map (h : IsLayer base) {key : Scalar} {d : Datum}
    (hd : lookup? key base = some d) :
    ∃ keys, d = .map keys ∧ (Datum.map keys).distinctKeys = true := by
  obtain ⟨_, -, hmem⟩ := Datum.exists_mem_of_lookup? hd
  have hdistinct := (Datum.distinctKeys_map_iff.1 h.distinct).2 _ hmem
  cases d with
  | scalar s => cases h.sections _ hmem
  | list items => cases h.sections _ hmem
  | map keys => exact ⟨keys, rfl, hdistinct⟩

/-- What two layers say about a key is merged on its own. -/
theorem given?_mergeEntries (k : Setting) (hbase : IsLayer base) (hoverride : IsLayer override) :
    k.given? (mergeEntries base override) = mergeOption (k.given? base) (k.given? override) := by
  have hdistinct := (Datum.distinctKeys_map_iff.1 hoverride.distinct).1
  simp only [Setting.given?, Datum.sectionEntries,
    Datum.lookup?_mergeEntries (.text k.names.1) base hdistinct]
  cases hnew : lookup? (.text k.names.1) override with
  | none => rfl
  | some new =>
    obtain ⟨keys, rfl, hkeys⟩ := hoverride.exists_map hnew
    cases hold : lookup? (.text k.names.1) base with
    | none => exact (Datum.mergeOption_none_left _).symm
    | some old =>
      obtain ⟨keys₀, rfl, -⟩ := hbase.exists_map hold
      exact Datum.lookup?_mergeEntries _ keys₀ (Datum.distinctKeys_map_iff.1 hkeys).1

variable {user project environment arguments : List (Scalar × Datum)} {s : Settings} {P : Platform}

/-- What four places say together. -/
def combine (user project environment arguments : List (Scalar × Datum)) :
    List (Scalar × Datum) :=
  mergeEntries (mergeEntries user project) (mergeEntries environment arguments)

/-- What a layer says about a prefix of module names. -/
def alias? (name : String) (entries : List (Scalar × Datum)) : Option Datum :=
  (Setting.aliases.given? entries).bind (·.get? name)

/-- A layer has aliases that are no mapping. -/
def hidesAliases (entries : List (Scalar × Datum)) : Bool :=
  (Setting.aliases.given? entries).any (!·.isMap)

/-- The layers whose prefixes count, the first ones first. -/
def aliasLayers (user project environment arguments : List (Scalar × Datum)) :
    List (List (Scalar × Datum)) :=
  [arguments, environment, project] ++ if hidesAliases project then [] else [user]

variable {name : String}

theorem IsLayer.distinct_of_given? (h : IsLayer base) {k : Setting} {d : Datum}
    (hd : k.given? base = some d) : d.distinctKeys = true := by
  rw [Setting.given?, Datum.sectionEntries] at hd
  cases hkeys : lookup? (.text k.names.1) base with
  | none =>
    rw [hkeys] at hd
    cases hd
  | some keys =>
    obtain ⟨keys, rfl, hdistinct⟩ := h.exists_map hkeys
    rw [hkeys] at hd
    exact (Datum.distinctKeys_map_iff.1 hdistinct).2 _ (Datum.mem_of_lookup?_text hd)

theorem alias?_mergeEntries (hbase : IsLayer base) (hoverride : IsLayer override)
    (h : hidesAliases override = false) : alias? name (mergeEntries base override) =
      mergeOption (alias? name base) (alias? name override) := by
  simp only [alias?, given?_mergeEntries _ hbase hoverride]
  cases hnew : Setting.aliases.given? override with
  | none => rfl
  | some new =>
    have hdistinct := hoverride.distinct_of_given? hnew
    rw [hidesAliases, hnew] at h
    cases new with
    | scalar s => cases h
    | list items => cases h
    | map entries =>
      have hkeys := (Datum.distinctKeys_map_iff.1 hdistinct).1
      cases Setting.aliases.given? base with
      | none => exact (Datum.mergeOption_none_left _).symm
      | some old =>
        cases old with
        | scalar s => exact (Datum.mergeOption_none_left _).symm
        | list items => exact (Datum.mergeOption_none_left _).symm
        | map old => exact Datum.lookup?_mergeEntries _ old hkeys

theorem alias?_of_hidesAliases (hbase : IsLayer base) (hoverride : IsLayer override)
    (h : hidesAliases override = true) :
    alias? name override = none ∧ alias? name (mergeEntries base override) = none := by
  simp only [alias?, given?_mergeEntries _ hbase hoverride]
  rw [hidesAliases] at h
  cases hnew : Setting.aliases.given? override with
  | none =>
    rw [hnew] at h
    cases h
  | some new =>
    rw [hnew] at h
    cases new with
    | scalar s => exact ⟨rfl, rfl⟩
    | list items => exact ⟨rfl, rfl⟩
    | map entries => cases h

theorem hidesAliases_of_merge (hbase : IsLayer base) (hoverride : IsLayer override)
    (h : hidesAliases (mergeEntries base override) = false) : hidesAliases override = false := by
  rw [hidesAliases, given?_mergeEntries _ hbase hoverride] at h
  rw [hidesAliases]
  cases hnew : Setting.aliases.given? override with
  | none => rfl
  | some new =>
    rw [hnew] at h
    rw [← h]
    simp [mergeOption, Datum.mergeValue_isMap]

theorem sections_of_resolve (hP : P.Lawful)
    (h : P.resolve user project environment arguments = .ok s) :
    P.sections (combine user project environment arguments) = .valid s := by
  rw [Platform.resolve, Platform.mergeFiles] at h
  cases hmerge : P.merge user project with
  | none =>
    rw [hmerge] at h
    cases h
  | some files =>
    rw [hmerge] at h
    obtain ⟨entries, hgather, hsections⟩ := Platform.exists_of_settle h
    rw [hP.gather_eq _ _ hgather, hP.merge_eq _ _ _ hmerge] at hsections
    exact hsections

theorem reads_of_resolve (hP : P.Lawful)
    (h : P.resolve user project environment arguments = .ok s) (k : Setting) :
    k.Reads P.toCoercions (k.given? (combine user project environment arguments)) s :=
  (Coercions.sections_eq_valid_iff.1 (sections_of_resolve hP h) k).2

section Layers

variable (huser : IsLayer user) (hproject : IsLayer project) (henvironment : IsLayer environment)
  (harguments : IsLayer arguments)

include huser hproject henvironment harguments

theorem given?_combine (k : Setting) :
    k.given? (combine user project environment arguments) =
      mergeOption (mergeOption (k.given? user) (k.given? project))
        (mergeOption (k.given? environment) (k.given? arguments)) := by
  rw [combine, given?_mergeEntries k (huser.merge hproject) (henvironment.merge harguments),
    given?_mergeEntries k huser hproject, given?_mergeEntries k henvironment harguments]

/-- The four layers together say about a prefix what the first layer that mentions it says. -/
theorem alias?_combine
    (hmap : hidesAliases (combine user project environment arguments) = false)
    (hplain : ∀ d, alias? name (combine user project environment arguments) = some d →
      d.isMap = false) :
    alias? name (combine user project environment arguments) =
      (aliasLayers user project environment arguments).findSome? (alias? name) := by
  have hover := hidesAliases_of_merge (huser.merge hproject) (henvironment.merge harguments) hmap
  have hargs := hidesAliases_of_merge henvironment harguments hover
  -- The part of the user, as far as the project does not hide it.
  have hfiles : alias? name (mergeEntries user project) = mergeOption
      (if hidesAliases project then none else alias? name user) (alias? name project) := by
    cases hproj : hidesAliases project with
    | false => exact alias?_mergeEntries huser hproject hproj
    | true =>
      obtain ⟨hnone, hmerged⟩ := alias?_of_hidesAliases huser hproject hproj
      rw [hmerged, hnone]
      rfl
  rw [combine, alias?_mergeEntries (huser.merge hproject) (henvironment.merge harguments) hover,
    alias?_mergeEntries henvironment harguments hargs, hfiles] at hplain ⊢
  rw [Datum.mergeOption_eq_first hplain, aliasLayers]
  cases hidesAliases project <;> simp [findSome?_cons_eq_or]

theorem exists_of_combine {k : Setting} {v : Datum}
    (h : k.given? (combine user project environment arguments) = some v) :
    ∃ layer ∈ [arguments, environment, project, user], ∃ w,
      k.given? layer = some w ∧ v.isMap = w.isMap := by
  rw [given?_combine huser hproject henvironment harguments k] at h
  obtain ⟨w, hw | hw, hmap⟩ := Datum.exists_of_mergeOption h
  all_goals obtain ⟨w', hw' | hw', hmap'⟩ := Datum.exists_of_mergeOption hw
  all_goals refine ⟨_, ?_, w', hw', hmap.trans hmap'⟩; simp

theorem given?_combine_ne_none {k : Setting}
    (h : ∃ layer ∈ [arguments, environment, project, user], (k.given? layer).isSome = true) :
    k.given? (combine user project environment arguments) ≠ none := by
  rw [given?_combine huser hproject henvironment harguments k]
  intro hnone
  simp only [Datum.mergeOption_eq_none] at hnone
  obtain ⟨layer, hlayer, hsome⟩ := h
  simp only [List.mem_cons, List.not_mem_nil, or_false] at hlayer
  obtain ⟨⟨hu, hp⟩, he, ha⟩ := hnone
  rcases hlayer with rfl | rfl | rfl | rfl <;> simp_all

end Layers

theorem aliases_of_sections {entries : List (Scalar × Datum)} {d : Datum}
    (hd : Setting.aliases.given? entries = some d)
    (hreads : Check.mapping Check.texts d = .valid s.resolver.aliases) :
    hidesAliases entries = false ∧ ∀ name,
      (alias? name entries).map Check.texts = (s.resolver.aliases.lookup name).map .valid := by
  cases d with
  | scalar x => cases hreads
  | list items => cases hreads
  | map keys =>
    refine ⟨?_, fun name => ?_⟩
    · rw [hidesAliases, hd]
      rfl
    · rw [alias?, hd]
      exact Check.lookup_of_mapping hreads name

def layerOf (sections : List (String × List (String × Datum))) : List (Scalar × Datum) :=
  sections.map fun (name, keys) => (.text name, .record keys)

/-- Layers that all mention the aliases, and of which two mention the number of workers. -/
def sampleUser : List (Scalar × Datum) :=
  layerOf [("engine", [("max_workers", .int 2)]),
    ("resolver", [("index_names", .texts ["main"]),
      ("aliases", .record [("#/", .texts ["shared"]), ("@/", .texts ["lib"])])])]

def sampleProject : List (Scalar × Datum) :=
  layerOf [("resolver", [("aliases", .record [("@/", .texts ["app"])])])]

def sampleEnvironment : List (Scalar × Datum) :=
  layerOf [("resolver", [("aliases", .record [("~/", .texts ["."])])]),
    ("engine", [("max_workers", .text " 0_8 ")])]

def sampleArguments : List (Scalar × Datum) :=
  layerOf [("resolver", [("aliases", .record [("~/", .texts ["home"])])])]

end Configuration

end ContractInference
