import ContractInference.Proofs.Mirror
import ContractInference.Proofs.Session

/-!
# Scanning a file again

The second scan of a file finds in the cache what the first one stored. It gives the same map if
no file that the first scan left out of the cache was stored later in the same scan; otherwise it
may find schemas that the first scan missed.
-/

namespace ContractInference

def Event.skipped? : Event → Option String
  | .cacheSkipped path => some path
  | _ => none

/-- A scan that is not over when it is done by the first run, next to the same scan from the cache
of its end. Up to some depth the two have run into the same files. -/
structure Rescans (after : EngineState) (depth : Nat) (s t : EngineState) : Prop where
  depths : t.inFlight.depths = s.inFlight.depths
  floor : ∀ j ≤ depth, (Reaches s.inFlight.floor j ↔ Reaches t.inFlight.floor j)
  depth_lt : depth < s.inFlight.size
  cache : t.cache = after.cache

/-- A state on the way to a later one. -/
structure Before (after s : EngineState) : Prop where
  events : ∀ e ∈ s.events, e ∈ after.events
  cached : ∀ {path m}, s.cache.get? path = some m → after.cache.get? path = some m

theorem Cache.putIfAbsent_putIfAbsent (c : Cache) (path : String) (m : SchemaMap) :
    ((c.putIfAbsent path m).2.putIfAbsent path m).2 = (c.putIfAbsent path m).2 := by
  have h : ((c.putIfAbsent path m).2.get? path).isSome := by
    rw [get?_putIfAbsent, if_pos rfl]
    cases c.get? path <;> rfl
  obtain ⟨kept, hk⟩ := Option.isSome_iff_exists.1 h
  rw [Cache.putIfAbsent, hk]

theorem Before.of_kept {p : Project} {after s s' : EngineState} (hk : Kept p s s')
    (h : Before after s') : Before after s :=
  ⟨fun e he => h.events e (hk.event_mem he), fun hm => h.cached (hk.cached hm)⟩

namespace Rescans

variable {p : Project} {after s t s₁ t₁ : EngineState} {depth : Nat} {path : String}

theorem contains (h : Rescans after depth s t) (path : String) :
    t.inFlight.contains path = s.inFlight.contains path := by
  simp only [InFlight.contains, h.depths]

theorem note (h : Rescans after depth s t) (f : Stats → Stats) (new : List Event)
    (g : Stats → Stats) (new' : List Event) :
    Rescans after depth (s.note f new) (t.note g new') :=
  ⟨h.depths, h.floor, h.depth_lt, h.cache⟩

theorem meet (h : Rescans after depth s t) (path name fromFile : String) :
    Rescans after depth (s.meet path name fromFile) (t.meet path name fromFile) := by
  refine ⟨h.depths, fun j hj => ?_, h.depth_lt, h.cache⟩
  simp only [EngineState.meet, EngineState.note, InFlight.noteCycle, reaches_shallower, h.depths,
    h.floor j hj]

theorem push (h : Rescans after depth s t) (hp : s.inFlight.contains path = false) :
    Rescans after depth (s.push path) (t.push path) := by
  refine ⟨?_, h.floor, ?_, h.cache⟩
  · simp only [EngineState.push, InFlight.add, InFlight.size, h.depths]
  · have := h.depth_lt
    simp only [EngineState.push, InFlight.size, InFlight.depths_add hp, List.length_append,
      List.length_singleton] at this ⊢
    omega

theorem pop (h : Rescans after depth s t) (hp : s.inFlight.contains path = false)
    (hs : Kept p (s.push path) s₁) (ht : Kept p (t.push path) t₁) (h₁ : Rescans after depth s₁ t₁) :
    Rescans after depth (s₁.pop path) (t₁.pop path) := by
  have hsd : (s₁.pop path).inFlight.depths = s.inFlight.depths := (hs.pop hp).depths
  have htd : (t₁.pop path).inFlight.depths = s.inFlight.depths :=
    (ht.pop ((h.contains path).trans hp)).depths.trans h.depths
  have hne : s.inFlight.depths ≠ [] :=
    List.ne_nil_of_length_pos (Nat.lt_of_le_of_lt (Nat.zero_le depth) h.depth_lt)
  refine ⟨htd.trans hsd.symm, fun j hj => ?_, ?_, h₁.cache⟩
  · rw [EngineState.floor_pop (by rwa [hsd]), EngineState.floor_pop (by rwa [htd])]
    exact h₁.floor j hj
  · rw [InFlight.size, hsd]
    exact h.depth_lt

theorem enter (h : Rescans after depth s t) (hp : s.inFlight.contains path = false) :
    Rescans after s.inFlight.size ((s.push path).enter path) ((t.push path).enter path) := by
  refine ⟨(h.push hp).depths, fun j _ => by rfl, ?_, h.cache⟩
  simp [EngineState.enter, EngineState.push, InFlight.enter, InFlight.size, InFlight.depths_add hp]

theorem exit (h : Rescans after depth s t) (h₁ : Rescans after s.inFlight.size s₁ t₁) :
    Rescans after depth (s₁.exit ((s.push path).frame path))
      (t₁.exit ((t.push path).frame path)) := by
  refine ⟨h₁.depths, fun j hj => ?_, Nat.lt_trans h.depth_lt h₁.depth_lt, h₁.cache⟩
  have hj₁ : j ≤ s.inFlight.size := Nat.le_trans hj (Nat.le_of_lt h.depth_lt)
  have hs := h.floor j hj
  have hs₁ := h₁.floor j hj₁
  simp only [EngineState.exit, EngineState.frame, EngineState.push, InFlight.exit, InFlight.enter,
    InFlight.add, reaches_shallower, hs, hs₁]

theorem exit_left (h : Rescans after depth s t) (hp : s.inFlight.contains path = false)
    (hk : Kept p ((s.push path).enter path) s₁)
    (hcut : ¬ Reaches s₁.inFlight.floor s.inFlight.size) :
    Rescans after depth (s₁.exit ((s.push path).frame path)) (t.push path) := by
  have h₀ := h.push hp
  refine ⟨h₀.depths.trans hk.depths.symm, fun j hj => ?_, ?_, h₀.cache⟩
  · have hnot : ¬ Reaches s₁.inFlight.floor j := fun hr =>
      hcut (hr.mono (Nat.le_trans hj (Nat.le_of_lt h.depth_lt)))
    have hs := h.floor j hj
    simp only [EngineState.exit, EngineState.frame, EngineState.push, InFlight.exit, InFlight.enter,
      InFlight.add, reaches_shallower, hs, hnot, or_false]
  · rw [EngineState.exit, InFlight.exit, InFlight.size, hk.depths]
    exact h₀.depth_lt

open Engine

theorem load {search search' : Search} {found : Option SchemaMap} {s' : EngineState}
    (hw : ∀ q ∈ after.events.filterMap Event.skipped?, after.cache.get? q = none)
    (hread : ∀ {q m}, after.cache.get? q = some m → ∃ text, p.files.readText q = .ok text)
    (hk : ∀ name modulePath fromFile, Keeps p (search name modulePath fromFile))
    (hd : ∀ text path, Mirrors p (Rescans after) (Before after) (derive search text path)
      (derive search' text path))
    (h : Rescans after depth s t) (hp : s.inFlight.contains path = false)
    (hc : (load search path).call p (s.push path) = (.ok found, s')) (hg : Before after s') :
    ∃ t', (load search' path).call p (t.push path) = (.ok found, t') ∧
      Rescans after depth s' t' := by
  have h₀ : Rescans after depth (s.push path) (t.push path) := h.push hp
  have hcache : (t.push path).cache.get? path = after.cache.get? path := by rw [h₀.cache]
  cases call_load_ok_iff.1 hc with
  | hit hm =>
    exact ⟨_, call_load_ok_iff.2 (.hit (hcache.trans (hg.cached hm))), h₀.note _ _ _ _⟩
  | unreadable _ hr =>
    have hnone : after.cache.get? path = none := by
      rw [Option.eq_none_iff_forall_ne_some]
      intro m ha
      obtain ⟨text, ht⟩ := hread ha
      rw [hr] at ht
      cases ht
    exact ⟨_, call_load_ok_iff.2 (.unreadable (hcache.trans hnone) hr), h₀.note _ _ _ _⟩
  | @skipped text m s₁ _ hr hs₁ hcut =>
    -- The file is not in the cache at the end, so the second run derives it again.
    have hskip : .cacheSkipped path ∈ after.events :=
      hg.events _ (List.mem_append_right _ (List.mem_singleton_self _))
    have hnone : after.cache.get? path = none := hw path (List.mem_filterMap.2 ⟨_, hskip, rfl⟩)
    have hg₁ : Before after s₁ :=
      ⟨fun e he => hg.events e (List.mem_append_left _ he), hg.cached⟩
    obtain ⟨t₁, ht₁, h₁⟩ := hd text path (h.enter hp) hs₁ hg₁
    have hcut' : t₁.inFlight.cutShort ((t.push path).frame path) = true := by
      rw [InFlight.cutShort_eq_true_iff, EngineState.frame_depth hp] at hcut
      rw [InFlight.cutShort_eq_true_iff, EngineState.frame_depth ((h.contains path).trans hp),
        InFlight.size, h.depths]
      exact (h₁.floor _ (Nat.le_refl _)).1 hcut
    exact ⟨_, call_load_ok_iff.2 (.skipped (hcache.trans hnone) hr ht₁ hcut'),
      (h.exit h₁).note _ _ _ _⟩
  | @stored text m s₁ _ _ hs₁ hcut =>
    -- The file is in the cache from now on, so the second run finds it.
    have hsome : after.cache.get? path = some (s₁.cache.putIfAbsent path m).1 := by
      refine hg.cached ?_
      rw [Cache.get?_putIfAbsent, if_pos rfl, Cache.putIfAbsent_fst]
      cases s₁.cache.get? path <;> rfl
    have hnot : ¬ Reaches s₁.inFlight.floor s.inFlight.size := by
      rw [← EngineState.frame_depth hp, ← InFlight.cutShort_eq_true_iff, hcut]
      exact Bool.false_ne_true
    have h₁ := h.exit_left hp ((keeps_derive hk text path).of_call hs₁) hnot
    exact ⟨_, call_load_ok_iff.2 (.hit (hcache.trans hsome)), h₁.depths, h₁.floor, h₁.depth_lt,
      h₁.cache⟩

theorem mirror (hw : ∀ q ∈ after.events.filterMap Event.skipped?, after.cache.get? q = none)
    (hread : ∀ {q m}, after.cache.get? q = some m → ∃ text, p.files.readText q = .ok text) :
    Mirror p (Rescans after) (Before after) where
  good _ _ hk hg := hg.of_kept hk
  good_pop _ _ _ hg := ⟨hg.events, hg.cached⟩
  note h := h.note
  meet h hp _ := ⟨(h.contains _).trans hp, h.meet _ _ _⟩
  absent h hp := (h.contains _).trans hp
  push h hp := h.push hp
  pop h hp hs ht h₁ := h.pop hp hs ht h₁
  load hk hd _ _ _ _ _ _ h hp hc hg := load hw hread hk hd h hp hc hg

end Rescans

namespace Engine

variable {p : Project}

/-- A fresh engine that has scanned a file gives the same map when it scans it again, if each file
that was once left out of the cache is not in it at the end. -/
theorem rescan_eq {text path : String} (hd : p.files.readText (Path.key path) = .ok text)
    {m : SchemaMap} {s : EngineState} (hc : (scanFile text path).call p {} = (.ok m, s))
    (hw : ∀ q ∈ s.events.filterMap Event.skipped?, s.cache.get? q = none) :
    ∃ s', (scanFile text path).call p s = (.ok m, s') ∧ s'.cache = s.cache := by
  obtain ⟨s₁, h₁, hs⟩ := call_scanFile_ok hc
  have hcache : s.cache = (s₁.cache.putIfAbsent (Path.key path) m).2 := by
    rw [hs]
  have hread : ∀ {q m'}, s.cache.get? q = some m' → ∃ text, p.files.readText q = .ok text := by
    intro q m' hq
    rw [hcache, Cache.get?_putIfAbsent] at hq
    split at hq
    · subst q
      exact ⟨text, hd⟩
    · rcases ((keeps_derive keeps_search text (Path.key path)).of_call h₁).stored hq with hq | hr
      · cases hq
      · exact hr
  have hbefore : Before s s₁ := by
    constructor
    · intro e he
      rw [hs]
      exact he
    · intro q m' hm
      rw [hcache, Cache.get?_putIfAbsent, hm]
      simp
  have hidle : s.inFlight.depths = [] := idle_scanFile (rfl : ({} : EngineState).Idle) hc
  have hstart : Rescans s 0 (({} : EngineState).push (Path.key path)) (s.push (Path.key path)) := by
    refine ⟨?_, fun j hj => ?_, ?_, rfl⟩
    · simp [EngineState.push, InFlight.add, InFlight.size, hidle]
    · obtain rfl : j = 0 := by omega
      simp [Reaches]
    · simp [EngineState.push, InFlight.add, InFlight.size, Table.putNew, Table.hasKey]
  have M := Rescans.mirror hw hread
  obtain ⟨t₁, ht₁, hr⟩ := M.derive keeps_search M.search_self text (Path.key path) hstart h₁ hbefore
  rw [call_scanFile, call_inFlight, ht₁]
  refine ⟨_, rfl, ?_⟩
  change (t₁.cache.putIfAbsent (Path.key path) m).2 = s.cache
  rw [hr.cache, hcache]
  exact Cache.putIfAbsent_putIfAbsent _ _ _

def pairText : String := "import {B} from './b';B.parse(1);export const A=z.object({})"

/-- Two files that import each other. -/
def pair : Project :=
  .ofTexts [("/app/a.ts", pairText),
    ("/app/b.ts", "import {A} from './a';A.parse(1);export const B=z.object({})")]

theorem rescan_eq_pair :
    ∃ m s s', (scanFile pairText "/app/a.ts").call pair {} = (.ok m, s) ∧
      m.schemas.keys = ["A", "B"] ∧ s.events.filterMap Event.skipped? = ["/app/b.ts"] ∧
      (scanFile pairText "/app/a.ts").call pair s = (.ok m, s') := by
  have hd : (Request.scan pairText "/app/a.ts").FromDisk pair := by
    decide +kernel
  have hl : ((scanFile pairText "/app/a.ts").call pair {}).1.toOption.map (·.schemas.keys) =
        some ["A", "B"] ∧
      ((scanFile pairText "/app/a.ts").call pair {}).2.events.filterMap Event.skipped? =
        ["/app/b.ts"] ∧
      ((scanFile pairText "/app/a.ts").call pair {}).2.cache.get? "/app/b.ts" = none := by
    decide +kernel
  rcases hc : (scanFile pairText "/app/a.ts").call pair {} with ⟨_ | m, s⟩
  · rw [hc] at hl
    cases hl.1
  · rw [hc] at hl
    obtain ⟨hnames, hskip, hnone⟩ := hl
    obtain ⟨s', hs', -⟩ := rescan_eq hd hc (by simpa [hskip] using hnone)
    exact ⟨m, s, s', rfl, Option.some.inj hnames, hskip, hs'⟩

def knotText : String := "import {X} from './b';import {Y} from './h';X.parse(1);Y.parse(1);"

/-- A barrel with a schema of its own, and a file that the barrel forwards and that takes this
schema from it. -/
def knot : Project :=
  .ofTexts [("/app/f.ts", knotText),
    ("/app/b.ts", "export const Z=z.object({});export * from './h';"),
    ("/app/h.ts", "import {Z as X} from './b';export const Y=z.object({});X.parse(1)")]

/-- The first scan meets the forwarded file below the barrel, where it lacks the barrel's schema,
and then once more on its own, where it is whole and is stored. The second scan finds it whole. -/
theorem scanFile_knot_twice :
    (Request.scan knotText "/app/f.ts").FromDisk knot ∧
      ((session [.scan knotText "/app/f.ts", .scan knotText "/app/f.ts"]).call knot
        {}).1.toOption.map (·.map Reply.names) = some [["Y"], ["X", "Y"]] := by
  decide +kernel

end Engine

end ContractInference
