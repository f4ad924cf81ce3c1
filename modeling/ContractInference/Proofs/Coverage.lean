import ContractInference.Proofs.Uncached

/-!
# The cache loses nothing

A search that comes back with nothing has run into every file in flight that links to the schema
pass through. So the map of a file that ran into no file above its own has every name that links
lead to from the file, and only such maps are cached.
-/

namespace ContractInference

namespace EngineState

variable {s : EngineState} {path : String}

def inner (s : EngineState) (depth : Nat) : Set String :=
  { q | ∃ n, Table.get? s.inFlight.depths q = some n ∧ depth ≤ n }

def Deep (s : EngineState) : Prop :=
  ∀ q n, Table.get? s.inFlight.depths q = some n → n < s.inFlight.size

theorem size_push (hp : s.inFlight.contains path = false) :
    (s.push path).inFlight.size = s.inFlight.size + 1 := by
  simp [push, InFlight.size, InFlight.depths_add hp]

theorem Deep.push (h : s.Deep) (hp : s.inFlight.contains path = false) : (s.push path).Deep := by
  intro q n hq
  rw [size_push hp]
  rw [EngineState.push, InFlight.get?_depths_add hp] at hq
  split at hq
  · cases hq
    omega
  · have := h q n hq
    omega

theorem Deep.inner_size (h : s.Deep) : s.inner s.inFlight.size = ∅ := by
  ext q
  simp only [inner, Set.mem_ofPred_eq, Set.mem_empty_iff_false, iff_false]
  rintro ⟨n, hn, hle⟩
  have := h q n hn
  omega

theorem inner_push (hp : s.inFlight.contains path = false) {depth : Nat}
    (hd : depth ≤ s.inFlight.size) : (s.push path).inner depth = insert path (s.inner depth) := by
  ext q
  simp only [inner, push, InFlight.get?_depths_add hp, Set.mem_ofPred_eq, Set.mem_insert_iff]
  by_cases h : path = q
  · simp [h, hd]
  · simp [h, Ne.symm h]

end EngineState

theorem Kept.inner {p : Project} {s s' : EngineState} (h : Kept p s s') (depth : Nat) :
    s'.inner depth = s.inner depth := by
  simp only [EngineState.inner, h.depths]

/-- The map of a file has every name that links lead to from the file and that avoid a set. -/
def Covers (p : Project) (G : Set String) (path : String) (m : SchemaMap) : Prop :=
  ∃ e schemas, p.Says path e ∧ m = e.toMap path schemas ∧
    ∀ key, Holds p G path e key → Table.hasKey schemas key = true

theorem Covers.mono {p : Project} {G H : Set String} {path : String} {m : SchemaMap}
    (h : Covers p G path m) (hGH : G ⊆ H) : Covers p H path m := by
  obtain ⟨e, schemas, he, hm, hall⟩ := h
  exact ⟨e, schemas, he, hm, fun key hkey => hall key (hkey.antitone hGH)⟩

/-- The cached maps have every name that links lead to. -/
structure Complete (p : Project) (s : EngineState) : Prop where
  deep : s.Deep
  cached : ∀ {path m}, s.cache.get? path = some m → Covers p {path} path m

namespace Complete

variable {p : Project} {s s' : EngineState} {path : String}

theorem congr (h : Complete p s) (hd : s'.inFlight.depths = s.inFlight.depths)
    (hc : s'.cache = s.cache) : Complete p s' := by
  refine ⟨fun q n hq => ?_, fun hm => h.cached (by rwa [hc] at hm)⟩
  rw [InFlight.size, hd]
  exact h.deep q n (by rwa [hd] at hq)

theorem push (h : Complete p s) (hp : s.inFlight.contains path = false) :
    Complete p (s.push path) :=
  ⟨h.deep.push hp, h.cached⟩

theorem pop {s₁ : EngineState} (h : Complete p s) (hp : s.inFlight.contains path = false)
    (hk : Kept p (s.push path) s₁) (h₁ : Complete p s₁) : Complete p (s₁.pop path) := by
  refine ⟨fun q n hq => ?_, h₁.cached⟩
  rw [InFlight.size, hk.depths_pop hp]
  rw [hk.depths_pop hp] at hq
  exact h.deep q n hq

theorem store (h : Complete p s) {m : SchemaMap} (hm : Covers p {path} path m) :
    Complete p { s with cache := (s.cache.putIfAbsent path m).2 } := by
  refine ⟨h.deep, fun {q m'} hq => ?_⟩
  rw [Cache.get?_putIfAbsent] at hq
  split at hq
  · subst q
    cases hp : s.cache.get? path with
    | some kept =>
      rw [hp] at hq
      cases hq
      exact h.cached hp
    | none =>
      rw [hp] at hq
      cases hq
      exact hm
  · exact h.cached hq

end Complete

namespace Engine

variable {α : Type} {p : Project}

/-- A search that runs into no file above a depth finds what links lead to that avoid the files in
flight from that depth on. -/
def Exhausts (p : Project) (search : Search) : Prop :=
  ∀ ⦃name modulePath fromFile s found s'⦄, Complete p s →
    (search name modulePath fromFile).call p s = (.ok found, s') →
      Complete p s' ∧ ∀ depth ≤ s.inFlight.size, ¬ Reaches s'.inFlight.floor depth →
        Finds p (s.inner depth) name modulePath fromFile → found ≠ none

theorem none_of_firstFound {P : EngineState → Prop} {place : α → Engine (Option Schema)}
    (hk : ∀ a, Keeps p (place a))
    (hP : ∀ a ⦃s found s'⦄, P s → (place a).call p s = (.ok found, s') → P s') {as : List α}
    {s s' : EngineState} {found : Option Schema} (hs : P s)
    (hc : (firstFound place as).call p s = (.ok found, s')) :
    P s' ∧ (found = none → ∀ a ∈ as, ∃ s₁ s₂, Kept p s s₁ ∧ P s₁ ∧
      (place a).call p s₁ = (.ok none, s₂) ∧ Kept p s₂ s') := by
  induction as generalizing s with
  | nil =>
    cases hc
    exact ⟨hs, fun _ a ha => nomatch ha⟩
  | cons a as ih =>
    rw [call_firstFound_cons] at hc
    rcases ha : (place a).call p s with ⟨_ | _ | schema, s₁⟩
    · rw [ha] at hc
      cases hc
    · rw [ha] at hc
      have hk₁ : Kept p s s₁ := (hk a).of_call ha
      obtain ⟨hs', hall⟩ := ih (hP a hs ha) hc
      refine ⟨hs', fun hnone b hb => ?_⟩
      rcases List.mem_cons.1 hb with rfl | hb
      · exact ⟨s, s₁, .refl p s, hs, ha, (keeps_firstFound hk as).of_call hc⟩
      · obtain ⟨s₂, s₃, hk₂, hs₂, hcall, hk₃⟩ := hall hnone b hb
        exact ⟨s₂, s₃, hk₁.trans hk₂, hs₂, hcall, hk₃⟩
    · rw [ha] at hc
      cases hc
      exact ⟨hP a hs ha, fun hnone => nomatch hnone⟩

section

variable {search : Search}
  (hk : ∀ name modulePath fromFile, Keeps p (search name modulePath fromFile))
  (hs : Exhausts p search)
include hs

theorem complete_addImport {e : Extraction} {path : String} {schemas schemas' : Table String Schema}
    {b : ImportBinding} {s s' : EngineState} (h : Complete p s)
    (hc : (addImport search e path schemas b).call p s = (.ok schemas', s')) :
    Complete p s' ∧
      (∀ key, Table.hasKey schemas key = true → Table.hasKey schemas' key = true) ∧
      ∀ depth ≤ s.inFlight.size, ¬ Reaches s'.inFlight.floor depth → e.Follows b →
        Finds p (s.inner depth) b.exportedName b.modulePath path →
          Table.hasKey schemas' b.localName = true := by
  cases call_addImport_ok_iff.1 hc with
  | passed hw =>
    -- An import that is not looked for has a schema already.
    refine ⟨h, fun _ hkey => hkey, fun _ _ _ hb _ => ?_⟩
    obtain ⟨-, htype, hval⟩ := hb
    simpa [isWanted, htype, hval] using hw
  | found _ hq =>
    refine ⟨(hs h hq).1, fun key hkey => ?_, fun _ _ _ _ _ => ?_⟩
    · rw [Table.hasKey_put, hkey, Bool.or_true]
    · rw [Table.hasKey_put, decide_eq_true rfl, Bool.true_or]
  | missed _ hq =>
    obtain ⟨h₁, hall⟩ := hs h hq
    refine ⟨h₁.congr rfl rfl, fun _ hkey => hkey, fun depth hd hr _ hfinds => ?_⟩
    exact absurd rfl (hall depth hd hr hfinds)

theorem complete_follow (name path : String) (r : ReExport) ⦃s : EngineState⦄
    ⦃found : Option Schema⦄ ⦃s' : EngineState⦄ (h : Complete p s)
    (hc : (match r.forwards name with
      | some source => search source r.modulePath path
      | none => return none : Engine (Option Schema)).call p s = (.ok found, s')) :
    Complete p s' := by
  cases hf : r.forwards name with
  | some source =>
    rw [hf] at hc
    exact (hs h hc).1
  | none =>
    rw [hf] at hc
    cases hc
    exact h

include hk

theorem complete_foldlM {e : Extraction} {path : String} {bs : List ImportBinding}
    {schemas schemas' : Table String Schema} {s s' : EngineState} (h : Complete p s)
    (hc : (bs.foldlM (addImport search e path) schemas).call p s = (.ok schemas', s')) :
    Complete p s' ∧
      (∀ key, Table.hasKey schemas key = true → Table.hasKey schemas' key = true) ∧
      ∀ depth ≤ s.inFlight.size, ¬ Reaches s'.inFlight.floor depth → ∀ b ∈ bs, e.Follows b →
        Finds p (s.inner depth) b.exportedName b.modulePath path →
          Table.hasKey schemas' b.localName = true := by
  induction bs generalizing schemas s with
  | nil =>
    cases hc
    exact ⟨h, fun _ hkey => hkey, fun _ _ _ b hb => nomatch hb⟩
  | cons b bs ih =>
    rw [List.foldlM_cons] at hc
    obtain ⟨schemas₁, s₁, h₁, h₂⟩ := call_bind_ok p hc
    have hk₁ : Kept p s s₁ := (keeps_addImport hk e path schemas b).of_call h₁
    have hk₂ : Kept p s₁ s' := (keeps_foldlM (keeps_addImport hk e path) bs schemas₁).of_call h₂
    obtain ⟨hc₁, hkeys₁, hb₁⟩ := complete_addImport hs h h₁
    obtain ⟨hc₂, hkeys₂, hbs⟩ := ih hc₁ h₂
    refine ⟨hc₂, fun key hkey => hkeys₂ key (hkeys₁ key hkey), ?_⟩
    intro depth hd hr b' hb' hf hfinds
    have hd₁ : depth ≤ s₁.inFlight.size := by rwa [hk₁.size]
    rcases List.mem_cons.1 hb' with rfl | hb'
    · have hr₁ : ¬ Reaches s₁.inFlight.floor depth := fun hr₁ => hr (hk₂.reaches hd₁ hr₁)
      exact hkeys₂ _ (hb₁ depth hd hr₁ hf hfinds)
    · rw [← hk₁.inner] at hfinds
      exact hbs depth hd₁ hr b' hb' hf hfinds

/-- A derivation that runs into no file above a depth misses no name that links lead to and that
avoid the files in flight from that depth on. -/
theorem covers_derive {text path : String} {m : SchemaMap} {s s' : EngineState} (h : Complete p s)
    (ht : p.files.readText path = .ok text)
    (hc : (derive search text path).call p s = (.ok m, s')) :
    Complete p s' ∧ ∀ depth ≤ s.inFlight.size, ¬ Reaches s'.inFlight.floor depth →
      Covers p (s.inner depth) path m := by
  obtain ⟨e, schemas, he, rfl, hf⟩ := call_derive_ok_iff.1 hc
  have hk₀ : Kept p s (s.parsed p text path) := .parsed p s text path
  have h₀ : Complete p (s.parsed p text path) := h.congr hk₀.depths (by simp)
  obtain ⟨hc₁, hkeys, hbs⟩ := complete_foldlM hk hs h₀ hf
  refine ⟨hc₁, fun depth hd hr => ⟨e, schemas, ⟨text, ht, he⟩, rfl, ?_⟩⟩
  rintro key (hkey | ⟨b, hb, rfl, hfinds⟩)
  · exact hkeys key hkey
  · rw [← hk₀.inner] at hfinds
    exact hbs depth (by rwa [hk₀.size]) hr b hb.1 hb hfinds

theorem covers_load {path : String} {found : Option SchemaMap} {s s' : EngineState}
    (h : Complete p s) (hp : s.inFlight.contains path = false)
    (hc : (load search path).call p (s.push path) = (.ok found, s')) :
    Complete p s' ∧ (found = none → ∃ e, p.files.readText path = .error e) ∧
      ∀ m, found = some m → ∀ depth ≤ s.inFlight.size, ¬ Reaches s'.inFlight.floor depth →
        Covers p (insert path (s.inner depth)) path m := by
  have hself : ∀ depth, ({path} : Set String) ⊆ insert path (s.inner depth) := fun depth =>
    Set.singleton_subset_iff.2 (Set.mem_insert path _)
  have h₀ : Complete p (s.push path) := h.push hp
  have henter : Complete p ((s.push path).enter path) := h₀.congr rfl rfl
  have hderive : ∀ {text m s₁}, p.files.readText path = .ok text →
      (derive search text path).call p ((s.push path).enter path) = (.ok m, s₁) →
      Complete p s₁ ∧ ∀ depth ≤ s.inFlight.size, ¬ Reaches s₁.inFlight.floor depth →
        Covers p (insert path (s.inner depth)) path m := by
    intro text m s₁ ht hd
    obtain ⟨hc₁, hall⟩ := covers_derive hk hs henter ht hd
    refine ⟨hc₁, fun depth hle hr => ?_⟩
    have hle₀ : depth ≤ ((s.push path).enter path).inFlight.size :=
      Nat.le_trans hle ((EngineState.size_push hp).symm ▸ Nat.le_succ _)
    rw [← EngineState.inner_push hp hle]
    exact hall depth hle₀ hr
  cases call_load_ok_iff.1 hc with
  | hit hm =>
    refine ⟨h₀.congr rfl rfl, (nomatch ·), ?_⟩
    rintro m' ⟨⟩ depth _ _
    exact (h₀.cached hm).mono (hself depth)
  | unreadable _ ht => exact ⟨h₀.congr rfl rfl, fun _ => ⟨_, ht⟩, fun _ hsome => nomatch hsome⟩
  | skipped _ ht hd _ =>
    obtain ⟨hc₁, hcov⟩ := hderive ht hd
    refine ⟨hc₁.congr rfl rfl, (nomatch ·), ?_⟩
    rintro m' ⟨⟩ depth hle hr
    exact hcov depth hle fun hr₁ => hr ((reaches_shallower _ _ _).2 (.inr hr₁))
  | @stored text m s₁ _ ht hd hcut =>
    obtain ⟨hc₁, hcov⟩ := hderive ht hd
    -- Only the file itself lies at its depth or below.
    have hwhole : Covers p {path} path m := by
      have hcov₀ := hcov s.inFlight.size (Nat.le_refl _) (by
        rw [← EngineState.frame_depth hp, ← InFlight.cutShort_eq_true_iff, hcut]
        exact Bool.false_ne_true)
      rwa [h.deep.inner_size, insert_empty_eq] at hcov₀
    have hexit : Complete p (s₁.exit ((s.push path).frame path)) := hc₁.congr rfl rfl
    refine ⟨hexit.store hwhole, (nomatch ·), ?_⟩
    rintro m' ⟨⟩ depth _ _
    rw [Cache.putIfAbsent_fst]
    cases hkept : s₁.cache.get? path with
    | none => exact hwhole.mono (hself depth)
    | some kept => exact (hc₁.cached hkept).mono (hself depth)

theorem exhausts_searchMap {name path : String} {found : Option Schema} {s s' : EngineState}
    (h : Complete p s) (hp : s.inFlight.contains path = false)
    (hc : (searchMapBy (load search) search name path).call p (s.push path) = (.ok found, s')) :
    Complete p s' ∧ ∀ depth ≤ s.inFlight.size, ¬ Reaches s'.inFlight.floor depth → ∀ e,
      p.Says path e → Offers p (insert path (s.inner depth)) path e name → found ≠ none := by
  cases call_searchMapBy_ok_iff.1 hc with
  | unreadable hl =>
    obtain ⟨hc₁, hnone, -⟩ := covers_load hk hs h hp hl
    obtain ⟨reason, hread⟩ := hnone rfl
    refine ⟨hc₁, fun depth _ _ e he _ => ?_⟩
    obtain ⟨text, ht, -⟩ := he
    rw [hread] at ht
    cases ht
  | found hl _ =>
    obtain ⟨hc₁, -⟩ := covers_load hk hs h hp hl
    exact ⟨hc₁, fun _ _ _ _ _ _ => Option.some_ne_none _⟩
  | @followed m _ s₁ _ hl hget hf =>
    obtain ⟨hc₁, -, hcov⟩ := covers_load hk hs h hp hl
    obtain ⟨hc', hall⟩ := none_of_firstFound (keeps_follow hk name m.path)
      (complete_follow hs name m.path) hc₁ hf
    refine ⟨hc', fun depth hd hr e he hoff hnone => ?_⟩
    have hk₁ : Kept p (s.push path) s₁ := (keeps_load hk path).of_call hl
    have hd₁ : depth ≤ s₁.inFlight.size := by
      rw [hk₁.size, EngineState.size_push hp]
      omega
    have hr₁ : ¬ Reaches s₁.inFlight.floor depth := fun hr₁ =>
      hr (((keeps_followReExports hk m name).of_call hf).reaches hd₁ hr₁)
    obtain ⟨e', schemas, he', rfl, hkeys⟩ := hcov m rfl depth hd hr₁
    obtain rfl := he'.unique he
    rcases hoff with hkey | ⟨r, hmem, source, hsource, hfinds⟩
    · rw [Extraction.get?_toMap] at hget
      have hhas := hkeys _ hkey
      rw [Table.hasKey_eq_isSome, hget] at hhas
      cases hhas
    · obtain ⟨s₂, s₃, hk₂, hc₂, hcall, hk₃⟩ := hall hnone r hmem
      rw [hsource] at hcall
      have hk₂₃ : Kept p s₂ s₃ := (hk source r.modulePath path).of_call hcall
      have hd₂ : depth ≤ s₂.inFlight.size := by rwa [hk₂.size]
      have hr₃ : ¬ Reaches s₃.inFlight.floor depth := fun hr₃ =>
        hr (hk₃.reaches (by rwa [hk₂₃.size]) hr₃)
      rw [← EngineState.inner_push hp hd, ← hk₁.inner, ← hk₂.inner] at hfinds
      exact (hs hc₂ hcall).2 depth hd₂ hr₃ hfinds rfl

theorem exhausts_searchFile {name fromFile path : String} {found : Option Schema}
    {s s' : EngineState} (h : Complete p s)
    (hc : (searchFile search name fromFile path).call p s = (.ok found, s')) :
    Complete p s' ∧ ∀ depth ≤ s.inFlight.size, ¬ Reaches s'.inFlight.floor depth →
      path ∉ s.inner depth → ∀ e, p.Says path e →
        Offers p (insert path (s.inner depth)) path e name → found ≠ none := by
  cases call_searchFileBy_ok_iff.1 hc with
  | met hin =>
    refine ⟨h.congr rfl rfl, fun depth _ hr hmem => ?_⟩
    -- A file in flight that need not be avoided lies above the depth, so it was run into there.
    rw [InFlight.contains_eq_isSome] at hin
    obtain ⟨n, hn⟩ := Option.isSome_iff_exists.1 hin
    have hlt : n < depth := Nat.lt_of_not_le fun hle => hmem ⟨n, hn, hle⟩
    exact absurd ((reaches_shallower _ _ _).2 (.inr ⟨n, hn, hlt⟩)) hr
  | absent _ hf =>
    refine ⟨h, fun _ _ _ _ e he _ => ?_⟩
    obtain ⟨text, ht, -⟩ := he
    rw [Project.isFile_of_readText ht] at hf
    cases hf
  | opened hp _ hm =>
    have hk₁ := (keeps_searchMapBy hk (keeps_load hk) name path).of_call hm
    obtain ⟨hc₁, hall⟩ := exhausts_searchMap hk hs h hp hm
    refine ⟨h.pop hp hk₁ hc₁, fun depth hd hr _ e he hoff => hall depth hd ?_ e he hoff⟩
    rwa [hk₁.reaches_pop hp hd] at hr

theorem exhausts_searchCandidates : Exhausts p (searchCandidates search) := by
  intro name modulePath fromFile s found s' h hc
  obtain ⟨candidates, hcs, hf⟩ := call_searchCandidates_ok_iff.1 hc
  obtain ⟨hc', hall⟩ := none_of_firstFound (keeps_searchFile hk name fromFile)
    (fun _ _ _ _ h₁ hcall => (exhausts_searchFile hk hs h₁ hcall).1) h hf
  refine ⟨hc', fun depth hd hr hfinds hnone => ?_⟩
  obtain ⟨c, e, ⟨candidates', hcs', hmem, -⟩, hG, he, hoff⟩ := finds_iff.1 hfinds
  rw [hcs] at hcs'
  cases hcs'
  obtain ⟨s₁, s₂, hk₁, hc₁, hcall, hk₂⟩ := hall hnone c hmem
  have hk₁₂ : Kept p s₁ s₂ := (keeps_searchFile hk name fromFile c).of_call hcall
  have hd₁ : depth ≤ s₁.inFlight.size := by rwa [hk₁.size]
  have hr₂ : ¬ Reaches s₂.inFlight.floor depth := fun hr₂ =>
    hr (hk₂.reaches (by rwa [hk₁₂.size]) hr₂)
  rw [← hk₁.inner] at hG hoff
  exact (exhausts_searchFile hk hs hc₁ hcall).2 depth hd₁ hr₂ hG e he hoff rfl

end

theorem exhausts_searchTo (depth : Nat) : Exhausts p (searchTo depth) := by
  induction depth with
  | zero =>
    intro name modulePath fromFile s found s' _ hc
    cases hc
  | succ depth ih => exact exhausts_searchCandidates (keeps_searchTo depth) ih

theorem exhausts_search : Exhausts p search := by
  intro name modulePath fromFile s found s' h hc
  rw [call_search] at hc
  exact exhausts_searchTo _ h hc

theorem inner_idle {s : EngineState} (hs : s.Idle) (depth : Nat) : s.inner depth = ∅ := by
  simp only [EngineState.inner, show s.inFlight.depths = [] from hs]
  ext q
  simp [Table.get?]

/-- A scan gives every name that links lead to from the file and do not come back to it. -/
theorem covers_scanFile {text path : String} {m : SchemaMap} {s s' : EngineState} (hs : s.Idle)
    (h : Complete p s) (hd : p.files.readText (Path.key path) = .ok text)
    (hc : (scanFile text path).call p s = (.ok m, s')) :
    Complete p s' ∧ Covers p {Path.key path} (Path.key path) m := by
  obtain ⟨s₁, h₁, rfl⟩ := call_scanFile_ok hc
  have hp : s.inFlight.contains (Path.key path) = false := hs.contains _
  have hk := (keeps_derive keeps_search text (Path.key path)).of_call h₁
  obtain ⟨hc₁, hall⟩ := covers_derive keeps_search exhausts_search (h.push hp) hd h₁
  have hcov := hall 0 (Nat.zero_le _) (by simp [Reaches])
  rw [EngineState.inner_push hp (Nat.zero_le _), inner_idle hs, insert_empty_eq] at hcov
  exact ⟨(h.pop hp hk hc₁).store hcov, hcov⟩

theorem complete_serve {r : Request} (hd : r.FromDisk p) {s s' : EngineState} {a : Reply}
    (hs : s.Idle ∧ Complete p s) (hc : r.serve.call p s = (.ok a, s')) :
    s'.Idle ∧ Complete p s' := by
  obtain ⟨hidle, h⟩ := hs
  cases r with
  | scan text path =>
    obtain ⟨m, hm, -⟩ := call_map_ok hc
    exact ⟨idle_scanFile hidle hm, (covers_scanFile hidle h hd hm).1⟩
  | resolve name modulePath fromFile =>
    obtain ⟨found, hf, -⟩ := call_map_ok hc
    obtain ⟨s₁, f, new, h₁, rfl, -⟩ := call_resolveSchema_ok hf
    exact ⟨idle_resolveSchema hidle hf, (exhausts_search h h₁).1.congr rfl rfl⟩

/-- Whatever an engine was asked before, it misses no schema that an engine without a cache
finds. -/
theorem session_covers_uncached {requests : List Request} (hd : ∀ r ∈ requests, r.FromDisk p)
    {replies : List Reply} {s : EngineState} (hc : (session requests).call p {} = (.ok replies, s))
    {t : EngineState} (ht : t.Idle) :
    (∀ {text path m s' u t'}, p.files.readText (Path.key path) = .ok text →
      (scanFile text path).call p s = (.ok m, s') →
      (Uncached.scanFile text path).call p t = (.ok u, t') → u.names ⊆ m.names) ∧
    (∀ {name modulePath fromFile found s' schema t'},
      (resolveSchema name modulePath fromFile).call p s = (.ok found, s') →
      (Uncached.resolveSchema name modulePath fromFile).call p t = (.ok (some schema), t') →
        found ≠ none) := by
  have hstart : ({} : EngineState).Idle ∧ Complete p {} :=
    ⟨rfl, fun _ _ hq => (nomatch hq), (nomatch ·)⟩
  obtain ⟨⟨hidle, h⟩, -⟩ := session_induction (Q := fun _ _ => True)
    (fun r hmem _ _ _ hs hserve => ⟨trivial, complete_serve (hd r hmem) hs hserve⟩) hstart hc
  constructor
  · intro text path m s' u t' hread hm hu
    obtain ⟨e, schemas, ⟨text', ht', he⟩, rfl, hkeys⟩ := (covers_scanFile hidle h hread hm).2
    obtain ⟨e', he', hold⟩ := Uncached.holds_scanFile ht hu
    rw [hread] at ht'
    cases ht'
    rw [he] at he'
    cases he'
    intro name hname
    have hhas := hkeys name (hold name hname)
    simpa [SchemaMap.names, Table.keys, Table.hasKey, Extraction.toMap] using hhas
  · intro name modulePath fromFile found s' schema t' hf hu
    obtain ⟨s₁, f, new, h₁, -, -⟩ := call_resolveSchema_ok hf
    have hfinds := Uncached.finds_resolveSchema ht hu
    rw [← inner_idle hidle 0] at hfinds
    exact (exhausts_search h h₁).2 0 (Nat.zero_le _) (by simp [Reaches]) hfinds

theorem session_covers_uncached_ring :
    ∃ replies s m s' u t',
      (session [.scan Project.ringText "/app/h.ts"]).call .ring {} = (.ok replies, s) ∧
      (scanFile Project.ringText "/app/h.ts").call .ring s = (.ok m, s') ∧
      (Uncached.scanFile Project.ringText "/app/h.ts").call .ring {} = (.ok u, t') ∧
      u.names = ["Y"] ∧ u.names ⊆ m.names := by
  have hdisk : (Request.scan Project.ringText "/app/h.ts").FromDisk .ring := by
    decide +kernel
  have hl : ((session [.scan Project.ringText "/app/h.ts"]).call .ring {}).1.toOption.isSome ∧
      ((scanFile Project.ringText "/app/h.ts").call .ring
        ((session [.scan Project.ringText "/app/h.ts"]).call .ring {}).2).1.toOption.isSome ∧
      ((Uncached.scanFile Project.ringText "/app/h.ts").call .ring {}).1.toOption.map (·.names) =
        some ["Y"] := by
    decide +kernel
  obtain ⟨hsession, hscan, huncached⟩ := hl
  rcases hs : (session [.scan Project.ringText "/app/h.ts"]).call .ring {} with ⟨_ | replies, s⟩
  · rw [hs] at hsession
    cases hsession
  rw [hs] at hscan
  rcases hm : (scanFile Project.ringText "/app/h.ts").call .ring s with ⟨_ | m, s'⟩
  · rw [hm] at hscan
    cases hscan
  rcases hu : (Uncached.scanFile Project.ringText "/app/h.ts").call .ring {} with ⟨_ | u, t'⟩
  · rw [hu] at huncached
    cases huncached
  rw [hu] at huncached
  have hcovers := (session_covers_uncached (by simpa using hdisk) hs (t := {}) rfl).1 hdisk hm hu
  exact ⟨replies, s, m, s', u, t', rfl, hm, rfl, Option.some.inj huncached, hcovers⟩

end Engine

end ContractInference
