import ContractInference.Proofs.Mirror
import ContractInference.Proofs.Session

/-!
# Derivations that were not cut short

A derivation that ran into no file above its own does not depend on the files above: started alone
from the same cache it gives the same map and adds the same entries. So the maps that are cached
are the ones that scans give.
-/

namespace ContractInference

theorem Table.get?_zipIdx (files : List String) (start : Nat) (q : String) :
    Table.get? (files.zipIdx start) q = (files.idxOf? q).map (· + start) := by
  induction files generalizing start with
  | nil => rfl
  | cons a files ih =>
    simp only [Table.get?] at ih
    by_cases h : a = q
    · simp [Table.get?, List.zipIdx_cons, List.idxOf?_cons, h]
    · have hadd : ∀ n, n + (start + 1) = n + 1 + start := by omega
      simp [Table.get?, List.zipIdx_cons, List.idxOf?_cons, h, ih, Function.comp_def, hadd]

theorem idxOf?_append (above files : List String) (q : String) :
    (above ++ files).idxOf? q =
      (above.idxOf? q).or ((files.idxOf? q).map (· + above.length)) :=
  List.findIdx?_append

theorem reaches_get?_zipIdx (above files : List String) (q : String) :
    Reaches (Table.get? (above ++ files).zipIdx q) above.length ↔ q ∈ above := by
  rw [Table.get?_zipIdx, idxOf?_append]
  cases h : above.idxOf? q with
  | some n =>
    have hmem : q ∈ above := by
      by_contra hn
      rw [List.idxOf?_eq_none_iff.2 hn] at h
      cases h
    have hlt : n < above.length := (List.findIdx?_eq_some_iff_findIdx_eq.1 h).1
    simp [hmem, hlt]
  | none =>
    have hmem : q ∉ above := List.idxOf?_eq_none_iff.1 h
    cases files.idxOf? q <;> simp [hmem]

theorem get?_zipIdx_of_notMem {above : List String} {q : String} (h : q ∉ above)
    (files : List String) :
    Table.get? (above ++ files).zipIdx q =
      (Table.get? files.zipIdx q).map (· + above.length) := by
  rw [Table.get?_zipIdx, Table.get?_zipIdx, idxOf?_append, List.idxOf?_eq_none_iff.2 h]
  cases files.idxOf? q <;> rfl

theorem shallower_map_add (a b : Option Nat) (n : Nat) :
    shallower (a.map (· + n)) (b.map (· + n)) = (shallower a b).map (· + n) := by
  cases a <;> cases b <;> simp [shallower]

theorem reaches_map_add (a : Option Nat) (n depth : Nat) :
    Reaches (a.map (· + n)) (depth + n) ↔ Reaches a depth := by
  cases a <;> simp

/-- The second state has the same cache, and the chain of the first one without some files on
top. -/
structure Below (above : List String) (s t : EngineState) : Prop where
  cache : t.cache = s.cache
  chain : ∃ files, files ≠ [] ∧ s.inFlight.depths = (above ++ files).zipIdx ∧
    t.inFlight.depths = files.zipIdx
  floor : s.inFlight.floor = t.inFlight.floor.map (· + above.length)

namespace Below

variable {above : List String} {p : Project} {s t s₁ t₁ : EngineState} {path : String}

theorem size (h : Below above s t) : s.inFlight.size = t.inFlight.size + above.length := by
  obtain ⟨files, -, hs, ht⟩ := h.chain
  simp [InFlight.size, hs, ht, Nat.add_comm]

theorem length_le (h : Below above s t) : above.length ≤ s.inFlight.size := by
  rw [h.size]
  exact Nat.le_add_left _ _

theorem absent (h : Below above s t) (hp : s.inFlight.contains path = false) :
    t.inFlight.contains path = false := by
  obtain ⟨files, -, hs, ht⟩ := h.chain
  rw [InFlight.contains_eq_isSome] at hp ⊢
  rw [hs, Table.get?_zipIdx, idxOf?_append] at hp
  rw [ht, Table.get?_zipIdx]
  cases above.idxOf? path <;> cases hf : files.idxOf? path <;> simp_all

theorem push (h : Below above s t) (hp : s.inFlight.contains path = false) :
    Below above (s.push path) (t.push path) := by
  obtain ⟨files, -, hs, ht⟩ := h.chain
  refine ⟨h.cache, ⟨files ++ [path], by simp, ?_, ?_⟩, h.floor⟩
  · rw [EngineState.push, InFlight.depths_add hp, InFlight.size, hs]
    simp [List.zipIdx_append]
  · rw [EngineState.push, InFlight.depths_add (h.absent hp), InFlight.size, ht]
    simp [List.zipIdx_append]

theorem pop (h : Below above s t) (hp : s.inFlight.contains path = false)
    (hs : Kept p (s.push path) s₁) (ht : Kept p (t.push path) t₁) (h₁ : Below above s₁ t₁) :
    Below above (s₁.pop path) (t₁.pop path) := by
  obtain ⟨files, hne, hsd, htd⟩ := h.chain
  have hsd₁ : (s₁.pop path).inFlight.depths = (above ++ files).zipIdx :=
    (hs.pop hp).depths.trans hsd
  have htd₁ : (t₁.pop path).inFlight.depths = files.zipIdx :=
    (ht.pop (h.absent hp)).depths.trans htd
  refine ⟨h₁.cache, ⟨files, hne, hsd₁, htd₁⟩, ?_⟩
  rw [EngineState.floor_pop (by simp [hsd₁, hne]), EngineState.floor_pop (by simp [htd₁, hne])]
  exact h₁.floor

theorem meet (h : Below above s t) (hp : s.inFlight.contains path = true) {name fromFile : String}
    (hg : ¬ Reaches (s.meet path name fromFile).inFlight.floor above.length) :
    t.inFlight.contains path = true ∧
      Below above (s.meet path name fromFile) (t.meet path name fromFile) := by
  obtain ⟨files, hne, hs, ht⟩ := h.chain
  have hmem : path ∉ above := by
    intro hmem
    refine hg ((reaches_shallower _ _ _).2 (.inr ?_))
    rw [hs]
    exact (reaches_get?_zipIdx above files path).2 hmem
  have hget : Table.get? s.inFlight.depths path =
      (Table.get? t.inFlight.depths path).map (· + above.length) := by
    rw [hs, ht]
    exact get?_zipIdx_of_notMem hmem files
  refine ⟨?_, h.cache, ⟨files, hne, hs, ht⟩, ?_⟩
  · rw [InFlight.contains_eq_isSome] at hp ⊢
    rwa [hget, Option.isSome_map] at hp
  · simp only [EngineState.meet, EngineState.note, InFlight.noteCycle, hget, h.floor]
    exact shallower_map_add _ _ _

theorem cutShort_eq (h : Below above s t) (hp : s.inFlight.contains path = false)
    (h₁ : Below above s₁ t₁) :
    s₁.inFlight.cutShort ((s.push path).frame path) =
      t₁.inFlight.cutShort ((t.push path).frame path) := by
  have hs : ((s.push path).frame path).depth = t.inFlight.size + above.length := by
    rw [EngineState.frame_depth hp, h.size]
  have ht : ((t.push path).frame path).depth = t.inFlight.size :=
    EngineState.frame_depth (h.absent hp)
  rw [Bool.eq_iff_iff, InFlight.cutShort_eq_true_iff, InFlight.cutShort_eq_true_iff, hs, ht,
    h₁.floor]
  exact reaches_map_add _ _ _

theorem note (h : Below above s t) (f : Stats → Stats) (new : List Event) (g : Stats → Stats)
    (new' : List Event) : Below above (s.note f new) (t.note g new') :=
  ⟨h.cache, h.chain, h.floor⟩

theorem enter (h : Below above s t) (path : String) : Below above (s.enter path) (t.enter path) :=
  ⟨h.cache, h.chain, rfl⟩

theorem exit (h : Below above s t) (path : String) (h₁ : Below above s₁ t₁) :
    Below above (s₁.exit (s.frame path)) (t₁.exit (t.frame path)) := by
  refine ⟨h₁.cache, h₁.chain, ?_⟩
  simp only [EngineState.exit, EngineState.frame, InFlight.exit, InFlight.enter, h.floor, h₁.floor]
  exact shallower_map_add _ _ _

theorem store (h : Below above s t) (path : String) (m : SchemaMap) :
    Below above { s with cache := (s.cache.putIfAbsent path m).2 }
      { t with cache := (t.cache.putIfAbsent path m).2 } := by
  refine ⟨?_, h.chain, h.floor⟩
  simp only [h.cache]

open Engine

theorem load {search search' : Search} {found : Option SchemaMap} {s' : EngineState}
    (hd : ∀ text path, Mirrors p (fun _ : Unit => Below above)
      (fun s => ¬ Reaches s.inFlight.floor above.length) (derive search text path)
      (derive search' text path))
    (h : Below above s t) (hp : s.inFlight.contains path = false)
    (hc : (load search path).call p (s.push path) = (.ok found, s'))
    (hg : ¬ Reaches s'.inFlight.floor above.length) :
    ∃ t', (load search' path).call p (t.push path) = (.ok found, t') ∧ Below above s' t' := by
  have h₀ : Below above (s.push path) (t.push path) := h.push hp
  have hcache : (t.push path).cache.get? path = (s.push path).cache.get? path := by rw [h₀.cache]
  have hderive : ∀ {text m s₁},
      (derive search text path).call p ((s.push path).enter path) = (.ok m, s₁) →
      s'.inFlight.floor = shallower s.inFlight.floor s₁.inFlight.floor →
      ∃ t₁, (derive search' text path).call p ((t.push path).enter path) = (.ok m, t₁) ∧
        Below above s₁ t₁ := by
    intro text m s₁ hs₁ hfloor
    refine hd text path (i := ()) (h₀.enter path) hs₁ fun hr => hg ?_
    rw [hfloor, reaches_shallower]
    exact .inr hr
  cases call_load_ok_iff.1 hc with
  | hit hm => exact ⟨_, call_load_ok_iff.2 (.hit (hcache.trans hm)), h₀.note _ _ _ _⟩
  | unreadable hm hr =>
    exact ⟨_, call_load_ok_iff.2 (.unreadable (hcache.trans hm) hr), h₀.note _ _ _ _⟩
  | skipped hm hr hs₁ hcut =>
    obtain ⟨t₁, ht₁, h₁⟩ := hderive hs₁ rfl
    rw [h.cutShort_eq hp h₁] at hcut
    exact ⟨_, call_load_ok_iff.2 (.skipped (hcache.trans hm) hr ht₁ hcut),
      (h₀.exit path h₁).note _ _ _ _⟩
  | @stored text m s₁ hm hr hs₁ hcut =>
    obtain ⟨t₁, ht₁, h₁⟩ := hderive hs₁ rfl
    rw [h.cutShort_eq hp h₁] at hcut
    rw [← h₁.cache]
    refine ⟨_, call_load_ok_iff.2 (.stored (hcache.trans hm) hr ht₁ hcut), ?_⟩
    rw [h₁.cache]
    simpa [EngineState.exit, h₁.cache] using (h₀.exit path h₁).store path m

theorem mirror (p : Project) (above : List String) :
    Mirror p (fun _ : Unit => Below above) fun s => ¬ Reaches s.inFlight.floor above.length where
  good h hk hk₁ hg hr := hg (hk₁.reaches (by rw [hk.size]; exact h.length_le) hr)
  good_pop h hp hk hg hr := by
    refine hg ?_
    obtain ⟨files, hne, hs, -⟩ := h.chain
    rwa [EngineState.floor_pop (by rw [(hk.pop hp).depths, hs]; simp [hne])]
  note h := h.note
  meet h hp hg := h.meet hp hg
  absent h hp := h.absent hp
  push h hp := h.push hp
  pop h hp hs ht h₁ := h.pop hp hs ht h₁
  load _ hd _ _ _ _ _ _ h hp hc hg := load hd h hp hc hg

end Below

namespace Engine

variable {p : Project} {above : List String} {path : String} {s s' : EngineState} {depth : Nat}

/-- A derivation that was not cut short, started alone. -/
theorem derive_alone (hs : s.inFlight.depths = (above ++ [path]).zipIdx)
    (hd : depth ≤ p.files.length + 1) {text : String} {m : SchemaMap}
    (hc : (derive (searchTo depth) text path).call p (s.enter path) = (.ok m, s'))
    (hg : ¬ Reaches s'.inFlight.floor above.length) {t : EngineState} (ht : t.inFlight = {})
    (hcache : t.cache = s.cache) :
    ∃ t', (derive search text path).call p (t.push path) = (.ok m, t') ∧ t'.cache = s'.cache := by
  have h : Below above (s.enter path) (t.push path) := by
    refine ⟨hcache, ⟨[path], by simp, hs, ?_⟩, ?_⟩
    · simp [EngineState.push, ht, InFlight.add, Table.putNew, Table.hasKey, InFlight.size]
    · simp [EngineState.push, ht, InFlight.add, EngineState.enter, InFlight.enter]
  have M := Below.mirror p above
  obtain ⟨t', ht', h'⟩ := M.derive (keeps_searchTo depth) (M.search hd) text path (i := ()) h hc hg
  exact ⟨t', ht', h'.cache⟩

theorem derive_reaches_iff (hs : s.inFlight.depths = (above ++ [path]).zipIdx) {text : String}
    {r : Except Failure SchemaMap}
    (hc : (derive (searchTo depth) text path).call p (s.enter path) = (r, s')) :
    ∃ new, s'.events = s.events ++ new ∧
      (Reaches s'.inFlight.floor above.length ↔ ∃ q ∈ new.filterMap Event.met?, q ∈ above) := by
  obtain ⟨new, hn, hf⟩ := ((keeps_derive (keeps_searchTo depth) text path).of_call hc).trail
  have hle : above.length ≤ (s.enter path).inFlight.size := by
    simp [EngineState.enter, InFlight.enter, InFlight.size, hs]
  refine ⟨new, hn, ?_⟩
  rw [hf above.length hle]
  simp [EngineState.enter, InFlight.enter, hs, reaches_get?_zipIdx]

theorem get?_top (hs : s.inFlight.depths = (above ++ [path]).zipIdx) (hp : path ∉ above) :
    Table.get? s.inFlight.depths path = some above.length := by
  rw [hs, get?_zipIdx_of_notMem hp]
  simp [Table.get?]

theorem cutShort_top (hs : s.inFlight.depths = (above ++ [path]).zipIdx) (hp : path ∉ above)
    (s₁ : EngineState) :
    s₁.inFlight.cutShort (s.frame path) = true ↔ Reaches s₁.inFlight.floor above.length := by
  rw [InFlight.cutShort_eq_true_iff]
  simp [EngineState.frame, InFlight.enter, get?_top hs hp]

/-- What a search stores for a file is derived from its text and was not cut short. -/
theorem derive_of_stored (hs : s.inFlight.depths = (above ++ [path]).zipIdx) (hp : path ∉ above)
    {found : Option SchemaMap} {m : SchemaMap}
    (hc : (load (searchTo depth) path).call p s = (.ok found, s'))
    (hnone : s.cache.get? path = none) (hsome : s'.cache.get? path = some m) :
    found = some m ∧ ∃ text s₁, p.files.readText path = .ok text ∧
      (derive (searchTo depth) text path).call p (s.enter path) = (.ok m, s₁) ∧
      ¬ Reaches s₁.inFlight.floor above.length ∧
      s'.cache = (s₁.cache.putIfAbsent path m).2 := by
  have hin : (s.enter path).inFlight.contains path = true := by
    rw [InFlight.contains_eq_isSome]
    exact Option.isSome_of_eq_some (get?_top hs hp)
  -- The file itself is in flight, so nothing below can have stored it.
  have hspared : ∀ {text r s₁},
      (derive (searchTo depth) text path).call p (s.enter path) = (r, s₁) →
        s₁.cache.get? path = none := fun {text _ _} h₁ =>
    ((spares_derive (keeps_searchTo depth) (spares_searchTo depth) text path).of_call hin h₁).trans
      hnone
  cases call_load_ok_iff.1 hc with
  | hit hm =>
    rw [hnone] at hm
    cases hm
  | unreadable _ _ =>
    rw [EngineState.note_cache, hnone] at hsome
    cases hsome
  | @skipped _ _ s₁ _ _ h₁ _ =>
    change s₁.cache.get? path = some m at hsome
    rw [hspared h₁] at hsome
    cases hsome
  | @stored text _ s₁ _ hr h₁ hcut =>
    rw [Cache.get?_putIfAbsent, if_pos rfl, hspared h₁] at hsome
    cases hsome
    rw [Cache.putIfAbsent_fst, hspared h₁]
    refine ⟨rfl, text, s₁, hr, h₁, fun hreach => ?_, rfl⟩
    rw [(cutShort_top hs hp s₁).2 hreach] at hcut
    cases hcut

/-- The flag of a derivation says whether a file above it was run into. If none was, a derivation
of the same text alone, from the same cache, gives the same map and adds the same entries; so what
a search stores is what scans give. -/
theorem cutShort_sound (hs : s.inFlight.depths = (above ++ [path]).zipIdx) (hp : path ∉ above)
    (hd : depth ≤ p.files.length + 1) :
    (∀ {text m cut s'},
      (tracked path (derive (searchTo depth) text path)).call p s = (.ok (m, cut), s') →
        (∃ new, s'.events = s.events ++ new ∧
          (cut = true ↔ ∃ q ∈ new.filterMap Event.met?, q ∈ above)) ∧
        (cut = false → ∀ {t : EngineState}, t.inFlight = {} → t.cache = s.cache →
          ∃ t', (inFlight path (derive search text path)).call p t = (.ok m, t') ∧
            t'.cache = s'.cache)) ∧
    (∀ {found m s'}, (load (searchTo depth) path).call p s = (.ok found, s') →
      s.cache.get? path = none → s'.cache.get? path = some m →
        found = some m ∧ ∃ text, p.files.readText path = .ok text ∧
          ∀ {raw : String} {t : EngineState}, Path.key raw = path → t.inFlight = {} →
            t.cache = s.cache →
              ∃ t', (scanFile text raw).call p t = (.ok m, t') ∧ t'.cache = s'.cache) := by
  constructor
  · intro text m cut s' hc
    rw [call_tracked] at hc
    rcases h₁ : (derive (searchTo depth) text path).call p (s.enter path) with ⟨_ | m₁, s₁⟩
    · rw [h₁] at hc
      cases hc
    · rw [h₁] at hc
      cases hc
      have hcut := cutShort_top hs hp s₁
      constructor
      · obtain ⟨new, hn, hr⟩ := derive_reaches_iff hs h₁
        exact ⟨new, hn, hcut.trans hr⟩
      · intro hfalse t ht hcache
        have hg : ¬ Reaches s₁.inFlight.floor above.length := by
          rw [← hcut, hfalse]
          exact Bool.false_ne_true
        obtain ⟨t₁, ht₁, hc₁⟩ := derive_alone hs hd h₁ hg ht hcache
        refine ⟨t₁.pop path, ?_, hc₁⟩
        rw [call_inFlight, ht₁]
  · intro found m s' hc hnone hsome
    obtain ⟨hfound, text, s₁, hr, h₁, hg, hcache'⟩ := derive_of_stored hs hp hc hnone hsome
    refine ⟨hfound, text, hr, ?_⟩
    rintro raw t rfl ht hcache
    obtain ⟨t₁, ht₁, hc₁⟩ := derive_alone hs hd h₁ hg ht hcache
    rw [call_scanFile, call_inFlight, ht₁]
    refine ⟨_, rfl, ?_⟩
    simp only [EngineState.pop, hc₁, hcache']

/-- The file of the ring is read on behalf of another one. It runs into itself, but not into the
other one. -/
def ringState : EngineState :=
  { inFlight := { depths := [("/app/f.ts", 0), ("/app/h.ts", 1)] } }

theorem cutShort_sound_ring :
    ∃ m s' t', (load (searchTo 3) "/app/h.ts").call .ring ringState = (.ok (some m), s') ∧
      m.schemas.keys = ["Y"] ∧ s'.cache.keys = ["/app/b.ts", "/app/h.ts"] ∧
      s'.events.filterMap Event.met? = ["/app/h.ts"] ∧
      (scanFile Project.ringText "/app/h.ts").call
        .ring {} = (.ok m, t') ∧ t'.cache = s'.cache := by
  have hl : ((load (searchTo 3) "/app/h.ts").call .ring ringState).1.toOption.map
        (·.map (·.schemas.keys)) = some (some ["Y"]) ∧
      ((load (searchTo 3) "/app/h.ts").call .ring ringState).2.cache.keys =
        ["/app/b.ts", "/app/h.ts"] ∧
      ((load (searchTo 3) "/app/h.ts").call .ring ringState).2.events.filterMap Event.met? =
        ["/app/h.ts"] ∧
      (((load (searchTo 3) "/app/h.ts").call .ring ringState).2.cache.get? "/app/h.ts").isSome := by
    decide +kernel
  have hchain : ringState.inFlight.depths = (["/app/f.ts"] ++ ["/app/h.ts"]).zipIdx := rfl
  have hkey : Path.key "/app/h.ts" = "/app/h.ts" := by
    decide +kernel
  have hdisk : (Request.scan Project.ringText
      "/app/h.ts").FromDisk .ring := by
    decide +kernel
  rw [Request.FromDisk, hkey] at hdisk
  rcases hc : (load (searchTo 3) "/app/h.ts").call .ring ringState with ⟨_ | _ | m, s'⟩
  · rw [hc] at hl
    cases hl.1
  · rw [hc] at hl
    cases hl.1
  · rw [hc] at hl
    obtain ⟨hnames, hkeys, hmet, hcached⟩ := hl
    obtain ⟨m', hm'⟩ := Option.isSome_iff_exists.1 hcached
    obtain ⟨hfound, text, hr, hscan⟩ := (cutShort_sound hchain (by decide) (by decide)).2 hc rfl hm'
    cases hfound
    rw [hdisk] at hr
    cases hr
    obtain ⟨t', ht', hcache⟩ := hscan (t := {}) hkey rfl rfl
    exact ⟨m, s', t', rfl, Option.some.inj (Option.some.inj hnames), hkeys, hmet, ht', hcache⟩

end Engine

end ContractInference
