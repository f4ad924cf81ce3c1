import ContractInference.Proofs.ParseOnce

/-!
# Maps written once

What the cache and the books of an engine say after any operations, failed ones among them: a map
that is kept stays, it is the map of the file it is kept for, and a text was parsed for it. When all
operations returned and no cycle was met, the number of texts parsed for a file is known exactly.
-/

namespace ContractInference

open Engine

/-- A map that is kept is that of its file, for which a text was parsed. -/
def EngineState.Filed (s : EngineState) : Prop :=
  ∀ ⦃path m⦄, s.cache.get? path = some m → m.path = path ∧ 1 ≤ s.parses path

namespace Engine

variable {p : Project} {search : Search}

theorem filed_store (hk : ∀ name modulePath fromFile, Keeps p (search name modulePath fromFile))
    (hp : ∀ q n name modulePath fromFile,
      Sustains p (n ≤ ·.parses q) (search name modulePath fromFile))
    {text path : String} {m : SchemaMap} {s s₁ : EngineState}
    (hd : (derive search text path).call p s = (.ok m, s₁)) (h : s₁.Filed) :
    EngineState.Filed { s₁ with cache := (s₁.cache.putIfAbsent path m).2 } := by
  intro q m' hm
  rw [Cache.get?_putIfAbsent] at hm
  split at hm
  · subst q
    rcases Option.or_eq_some_iff.1 hm with hm | ⟨-, ⟨⟩⟩
    · exact h hm
    · obtain ⟨e, schemas, -, rfl, -⟩ := call_derive_ok_iff.1 hd
      refine ⟨rfl, ?_⟩
      have hparsed : 1 ≤ (s.parsed p text path).parses path := by
        rw [EngineState.parses_parsed, if_pos rfl]
        omega
      have hderive := (invariant_parses path 1 hk (hp path 1)).derive_of_parsed hparsed
      rw [hd] at hderive
      exact hderive
  · exact h hm

theorem invariant_filed (hk : ∀ name modulePath fromFile, Keeps p (search name modulePath fromFile))
    (hp : ∀ q n name modulePath fromFile,
      Sustains p (n ≤ ·.parses q) (search name modulePath fromFile))
    (hs : ∀ name modulePath fromFile,
      Sustains p EngineState.Filed (search name modulePath fromFile)) :
    Invariant p search EngineState.Filed where
  keeps := hk
  sustains := hs
  congr {s s'} h _ hcache hcounts := by
    intro path m hm
    rw [EngineState.parses, hcounts]
    exact h (hcache ▸ hm)
  parsed {s text path} h := by
    intro q m hm
    rw [EngineState.parsed_cache] at hm
    obtain ⟨hpath, hparses⟩ := h hm
    refine ⟨hpath, ?_⟩
    rw [EngineState.parses_parsed]
    omega
  push _ h := h
  pop _ _ _ h := h
  store _ _ _ _ hd _ h := filed_store hk hp hd h

theorem sustains_filed (name modulePath fromFile : String) :
    Sustains p EngineState.Filed (Engine.search name modulePath fromFile) := by
  refine sustains_search (fun depth => ?_) name modulePath fromFile
  induction depth with
  | zero => exact sustains_searchTo_zero
  | succ depth ih =>
    exact (invariant_filed (keeps_searchTo depth) (fun q n => sustains_parses q n depth)
      ih).searchCandidates

end Engine

/-- What is in the cache stays, and what was reported stays reported. -/
structure EngineState.Grown (s s' : EngineState) : Prop where
  cached : ∀ {path m}, s.cache.get? path = some m → s'.cache.get? path = some m
  events : ∃ new, s'.events = s.events ++ new

theorem Kept.grown {p : Project} {s s' : EngineState} (h : Kept p s s') : s.Grown s' := by
  obtain ⟨new, he, -⟩ := h.trail
  exact ⟨h.cached, new, he⟩

namespace EngineState.Grown

variable {s s₁ s₂ : EngineState}

theorem trans (h : s.Grown s₁) (h₁ : s₁.Grown s₂) : s.Grown s₂ := by
  obtain ⟨new, he⟩ := h.events
  obtain ⟨new₁, he₁⟩ := h₁.events
  exact ⟨fun hm => h₁.cached (h.cached hm), new ++ new₁, by rw [he₁, he, List.append_assoc]⟩

theorem entries_le (h : s.Grown s₁) (path : String) :
    s.cache.entries path ≤ s₁.cache.entries path := by
  cases hm : s.cache.get? path with
  | none =>
    rw [Cache.entries_eq_zero_iff.2 hm]
    exact Nat.zero_le _
  | some m => simp [Cache.entries, hm, h.cached hm]

theorem calm (h : s.Grown s₁) (hc : s₁.Calm) : s.Calm := by
  obtain ⟨new, he⟩ := h.events
  rw [Calm, he, List.filterMap_append] at hc
  exact (List.append_eq_nil_iff.1 hc).1

end EngineState.Grown

namespace Operation

variable {p : Project} {s s' : EngineState} {q : String}

def scanned? : Operation → Option String
  | .scan _ path | .document _ path | .bind _ path => some (Path.key path)
  | .resolve .. => none

/-- The file that an operation is given a text for, if a map is kept of it. -/
def stored? : Operation → Option String
  | .scan _ path | .bind _ path => some (Path.key path)
  | .document .. | .resolve .. => none

theorem scanned?_of_stored? {op : Operation} (h : op.stored? = some q) : op.scanned? = some q := by
  cases op with
  | scan text path => exact h
  | bind text path => exact h
  | document text path => cases h
  | resolve name modulePath fromFile => cases h

/-- The file is read and derived in the course of the operation. -/
def Reads (p : Project) (s : EngineState) (op : Operation) (path : String) : Prop :=
  ∃ text t, op.Performs p s ⟨.load path, t⟩ ∧
    Inside p ⟨.load path, t⟩ ⟨.derive text path, t.enter path⟩

theorem grown (op : Operation) : s.Grown (op.run.call p s).2 := by
  refine state_cases (fun text path => ?_) (fun name modulePath fromFile => ?_)
    (fun _ _ hnew => (Kept.note p s _ hnew).grown) op
  · have hk := keeps_derive (p := p) keeps_search text (Path.key path) (s.push (Path.key path))
    rw [call_scanFile, call_inFlight]
    rcases hd : (Engine.derive search text (Path.key path)).call p (s.push (Path.key path))
      with ⟨_ | m, s₁⟩
    · rw [hd] at hk
      exact ⟨hk.cached, hk.grown.events⟩
    · rw [hd] at hk
      refine ⟨fun {path m} hm => ?_, hk.grown.events⟩
      dsimp only [EngineState.pop]
      rw [Cache.get?_putIfAbsent, hk.cached hm]
      simp
  · exact (keeps_searchOrReport keeps_search name modulePath (Path.key fromFile) s).grown

theorem filed (op : Operation) (h : s.Filed) : (op.run.call p s).2.Filed := by
  have hparses : ∀ q n name modulePath fromFile,
      Sustains p (n ≤ ·.parses q) (search name modulePath fromFile) := fun q n =>
    sustains_search (sustains_parses q n)
  have hinv : Invariant p search EngineState.Filed :=
    invariant_filed keeps_search hparses sustains_filed
  refine state_cases (fun text path => ?_) (fun name modulePath fromFile => ?_)
    (fun path new _ => ?_) op
  · have hderive := hinv.derive text (Path.key path) (s := s.push (Path.key path)) h
    rw [call_scanFile, call_inFlight]
    rcases hd : (Engine.derive search text (Path.key path)).call p (s.push (Path.key path))
      with ⟨_ | m, s₁⟩
    · rw [hd] at hderive
      exact hderive
    · rw [hd] at hderive
      have hstored := filed_store keeps_search hparses hd hderive
      exact hstored
  · exact sustains_searchOrReport sustains_filed hinv.congr name modulePath (Path.key fromFile) h
  · intro q m hm
    obtain ⟨hpath, hq⟩ := h hm
    refine ⟨hpath, ?_⟩
    rw [EngineState.parses_note_counted]
    omega

theorem parses_root {op : Operation} {root : Activation} (h : op.root? s = some root) (q : String) :
    root.start.parses q = s.parses q ∧ (root.stop p).parses q = (op.run.call p s).2.parses q := by
  have hscan : ∀ text path, (Activation.stop p ⟨.derive text (Path.key path),
      s.push (Path.key path)⟩).parses q = ((Operation.scan text path).run.call p s).2.parses q := by
    intro text path
    rw [Activation.stop, Activation.call, Task.run, run, call_map_state, call_map_state,
      call_scanFile, call_inFlight]
    rcases (Engine.derive search text (Path.key path)).call p (s.push (Path.key path))
      with ⟨_ | _, _⟩ <;> rfl
  cases op with
  | scan text path =>
    cases h
    exact ⟨rfl, hscan text path⟩
  | bind text path =>
    cases h
    rw [call_bind]
    exact ⟨rfl, hscan text path⟩
  | resolve name modulePath fromFile =>
    cases h
    refine ⟨rfl, ?_⟩
    rw [Activation.stop, Activation.call, Task.run, run, call_map_state, call_map_state,
      resolveSchema, call_searchOrReport]
    rcases (search name modulePath (Path.key fromFile)).call p s with ⟨_ | _ | _, _⟩ <;> rfl
  | document text path => cases h

theorem Reads.parses_lt {op : Operation} (h : op.Reads p s q) :
    s.parses q < (op.run.call p s).2.parses q := by
  obtain ⟨text, t, ⟨root, hroot, hload⟩, hin⟩ := h
  have hlt := Inside.parses_lt (hload.tail hin)
  obtain ⟨hstart, hstop⟩ := parses_root (p := p) hroot q
  omega

theorem reads_of_parses {op : Operation} (hne : op.scanned? ≠ some q)
    (h : (op.run.call p s).2.parses q ≠ s.parses q) : op.Reads p s q := by
  cases hroot : op.root? s with
  | none =>
    cases op with
    | scan text path => cases hroot
    | bind text path => cases hroot
    | resolve name modulePath fromFile => cases hroot
    | document text path =>
      obtain ⟨new, hc, -⟩ := call_scanDocument p s text path
      rw [run, call_map_state, hc, EngineState.parses_note_counted,
        if_neg fun hq => hne (congrArg some hq)] at h
      exact absurd rfl h
  | some root =>
    obtain ⟨hstart, hstop⟩ := parses_root (p := p) hroot q
    have hparses : root.Parses p q := by rwa [Activation.Parses, hstart, hstop]
    obtain ⟨text, t, ht⟩ := Inside.exists_derive hparses
    rcases ht.cases_tail with heq | ⟨b, hb, hin⟩
    · -- Only the file that a text is given for is derived without being loaded.
      subst heq
      cases op with
      | scan text path =>
        cases hroot
        exact absurd rfl hne
      | bind text path =>
        cases hroot
        exact absurd rfl hne
      | resolve name modulePath fromFile => cases hroot
      | document text path => cases hroot
    · cases hin with
      | derived hm hr => exact ⟨text, _, ⟨root, hroot, hb⟩, .derived hm hr⟩

/-- A scan that returns parses the text that it is given, and a map of the file is kept then. -/
theorem parses_scan_self {text path : String} {m : SchemaMap}
    (hc : (scanFile text path).call p s = (.ok m, s')) (hcalm : s'.Calm) :
    s'.parses (Path.key path) = s.parses (Path.key path) + 1 ∧
      s'.cache.entries (Path.key path) = 1 := by
  obtain ⟨s₁, hd, rfl⟩ := call_scanFile_ok hc
  have hin : (s.push (Path.key path)).inFlight.contains (Path.key path) = true := by
    simp [EngineState.push, InFlight.contains_add]
  have hspared := (spares_derive keeps_search spares_search text (Path.key path)).of_call hin hd
  have hentries : s₁.cache.entries (Path.key path) = s.cache.entries (Path.key path) := by
    rw [Cache.entries, hspared]
    rfl
  have hparses := parses_derive (q := Path.key path) keeps_search balanced_search hd hcalm
  rw [if_pos rfl, hentries] at hparses
  change s₁.parses _ + s.cache.entries _ = s.parses _ + _ + 1 at hparses
  refine ⟨?_, ?_⟩
  · change s₁.parses _ = _
    omega
  · rw [Cache.entries_putIfAbsent, if_pos rfl]

theorem parses_scan_of_ne {text path : String} {m : SchemaMap} (hne : Path.key path ≠ q)
    (hc : (scanFile text path).call p s = (.ok m, s')) (hcalm : s'.Calm) :
    s'.parses q + s.cache.entries q = s.parses q + s'.cache.entries q := by
  obtain ⟨s₁, hd, rfl⟩ := call_scanFile_ok hc
  have hparses := parses_derive (q := q) keeps_search balanced_search hd hcalm
  rw [if_neg hne] at hparses
  rw [Cache.entries_putIfAbsent, if_neg hne]
  exact hparses

theorem parses_of_stored {op : Operation} (h : op.stored? = some q)
    (hc : op.run.call p s = (.ok (), s')) (hcalm : s'.Calm) :
    s'.parses q = s.parses q + 1 ∧ s'.cache.entries q = 1 := by
  cases op with
  | scan text path =>
    cases h
    obtain ⟨m, hm, -⟩ := call_map_ok hc
    exact parses_scan_self hm hcalm
  | bind text path =>
    cases h
    rw [call_bind] at hc
    obtain ⟨m, hm, -⟩ := call_map_ok hc
    exact parses_scan_self hm hcalm
  | resolve name modulePath fromFile => cases h
  | document text path => cases h

/-- What an operation parses of a file beyond the text that it is given, it stores. -/
theorem parses_of_not_stored {op : Operation} (h : op.stored? ≠ some q)
    (hc : op.run.call p s = (.ok (), s')) (hcalm : s'.Calm) :
    s'.parses q + s.cache.entries q =
      s.parses q + s'.cache.entries q + if op.scanned? = some q then 1 else 0 := by
  cases op with
  | scan text path =>
    obtain ⟨m, hm, -⟩ := call_map_ok hc
    rw [if_neg (by exact h), Nat.add_zero]
    exact parses_scan_of_ne (fun hq => h (congrArg some hq)) hm hcalm
  | bind text path =>
    rw [call_bind] at hc
    obtain ⟨m, hm, -⟩ := call_map_ok hc
    rw [if_neg (by exact h), Nat.add_zero]
    exact parses_scan_of_ne (fun hq => h (congrArg some hq)) hm hcalm
  | resolve name modulePath fromFile =>
    obtain ⟨found, hf, -⟩ := call_map_ok hc
    exact balanced_searchOrReport balanced_search name modulePath (Path.key fromFile) hf hcalm
  | document text path =>
    obtain ⟨new, hd, -⟩ := call_scanDocument p s text path
    rw [run, call_map, hd] at hc
    cases hc
    rw [EngineState.parses_note_counted, EngineState.note_cache]
    simp only [scanned?, Option.some.injEq]
    omega

theorem reads_iff {op : Operation} (h : op.stored? ≠ some q) (hc : op.run.call p s = (.ok (), s'))
    (hcalm : s'.Calm) : op.Reads p s q ↔ s.cache.entries q < s'.cache.entries q := by
  have hbalance := parses_of_not_stored h hc hcalm
  by_cases hscanned : op.scanned? = some q
  · cases op with
    | scan text path => exact absurd hscanned h
    | bind text path => exact absurd hscanned h
    | resolve name modulePath fromFile => cases hscanned
    | document text path =>
      obtain ⟨new, hd, -⟩ := call_scanDocument p s text path
      rw [run, call_map, hd] at hc
      cases hc
      constructor
      · rintro ⟨_, _, ⟨_, hroot, _⟩, _⟩
        cases hroot
      · exact fun hlt => absurd hlt (Nat.lt_irrefl _)
  · rw [if_neg hscanned] at hbalance
    constructor
    · intro hreads
      have hlt := hreads.parses_lt
      rw [hc] at hlt
      dsimp only at hlt
      omega
    · intro hlt
      refine reads_of_parses hscanned ?_
      rw [hc]
      dsimp only
      omega

/-- The state after operations, also when some of them failed. -/
def after (p : Project) (s : EngineState) (ops : List Operation) : EngineState :=
  ops.foldl (fun s op => (op.run.call p s).2) s

def AllReturn (p : Project) : EngineState → List Operation → Prop
  | _, [] => True
  | s, op :: ops => (op.run.call p s).1 = .ok () ∧ AllReturn p (op.run.call p s).2 ops

instance (p : Project) (s : EngineState) (op : Operation) :
    Decidable ((op.run.call p s).1 = .ok ()) :=
  match (op.run.call p s).1 with
  | .ok () => isTrue rfl
  | .error _ => isFalse nofun

instance decidableAllReturn (p : Project) : ∀ s ops, Decidable (AllReturn p s ops)
  | _, [] => isTrue trivial
  | s, op :: ops =>
    have := decidableAllReturn p (op.run.call p s).2 ops
    inferInstanceAs (Decidable (_ ∧ _))

/-- The file is read in the course of an operation, and neither this one nor one before was given
a text of it to keep a map of. -/
def ReadFirst (p : Project) (path : String) : EngineState → List Operation → Prop
  | _, [] => False
  | s, op :: ops =>
    op.stored? ≠ some path ∧ (op.Reads p s path ∨ ReadFirst p path (op.run.call p s).2 ops)

theorem after_induction {I : EngineState → Prop}
    (step : ∀ {s} (op : Operation), I s → I (op.run.call p s).2) (ops : List Operation) (h : I s) :
    I (after p s ops) := by
  induction ops generalizing s with
  | nil => exact h
  | cons op ops ih => exact ih (step op h)

theorem grown_after (ops : List Operation) : s.Grown (after p s ops) := by
  refine after_induction (I := s.Grown) (fun op h => h.trans op.grown) ops ?_
  exact ⟨id, [], by rw [List.append_nil]⟩

theorem not_readFirst (hs : s.inFlight = {}) (h : s.cache.entries q ≠ 0) (ops : List Operation) :
    ¬ ReadFirst p q s ops := by
  rw [ne_eq, Cache.entries_eq_zero_iff, ← ne_eq, Option.ne_none_iff_exists'] at h
  obtain ⟨m, hm⟩ := h
  induction ops generalizing s with
  | nil => exact id
  | cons op ops ih =>
    rintro ⟨-, ⟨text, t, hload, hin⟩ | hlater⟩
    · have hgrown : t.cache.get? q = some m := (orderly hs hload).grown hm
      cases hin with
      | derived hnone _ =>
        rw [hgrown] at hnone
        cases hnone
    · exact ih (op.inFlight_eq hs) (op.grown.cached hm) hlater

/-- The texts that are parsed for a file are those that were given for it, and one more if the file
was read before. -/
theorem parses_after {ops : List Operation} (hs : s.inFlight = {}) (hr : AllReturn p s ops)
    (hc : (after p s ops).Calm) (q : String) :
    (ReadFirst p q s ops →
      (after p s ops).parses q = s.parses q + ops.countP (·.scanned? = some q) + 1) ∧
    (¬ ReadFirst p q s ops →
      (after p s ops).parses q = s.parses q + ops.countP (·.scanned? = some q)) := by
  induction ops generalizing s with
  | nil => exact ⟨False.elim, fun _ => rfl⟩
  | cons op ops ih =>
    obtain ⟨hop, hr⟩ := hr
    have hs₁ : (op.run.call p s).2.inFlight = {} := op.inFlight_eq hs
    have hgrown : s.Grown (op.run.call p s).2 := op.grown
    rw [ReadFirst]
    change ((after p (op.run.call p s).2 ops).Calm) at hc
    change (_ → (after p (op.run.call p s).2 ops).parses q = _) ∧
      (_ → (after p (op.run.call p s).2 ops).parses q = _)
    rcases hrun : op.run.call p s with ⟨_, s₁⟩
    rw [hrun] at hop hr hs₁ hgrown hc
    cases hop
    dsimp only at hr hs₁ hgrown hc ⊢
    have hcalm : s₁.Calm := (grown_after ops).calm hc
    obtain ⟨ihread, ihgiven⟩ := ih hs₁ hr hc
    simp only [List.countP_cons, decide_eq_true_eq]
    by_cases hstored : op.stored? = some q
    · obtain ⟨hparses, hentries⟩ := parses_of_stored hstored hrun hcalm
      have hlater := ihgiven (not_readFirst hs₁ (by omega) ops)
      rw [if_pos (scanned?_of_stored? hstored)]
      exact ⟨fun hread => absurd hstored hread.1, fun _ => by omega⟩
    · have hbalance := parses_of_not_stored hstored hrun hcalm
      have hreads := reads_iff hstored hrun hcalm
      have hmono := hgrown.entries_le q
      by_cases hkept : s₁.cache.entries q = 0
      · -- The file has not been read yet.
        refine ⟨?_, fun hnot => ?_⟩
        · rintro ⟨-, hread | hlater⟩
          · have hlt := hreads.1 hread
            omega
          · have := ihread hlater
            omega
        · have := ihgiven fun hlater => hnot ⟨hstored, .inr hlater⟩
          omega
      · -- It will not be read any more.
        have hlater := not_readFirst (p := p) hs₁ hkept ops
        have hle := s₁.cache.entries_le_one q
        have hgiven := ihgiven hlater
        refine ⟨?_, fun hnot => ?_⟩
        · rintro ⟨-, hread | hread⟩
          · have hlt := hreads.1 hread
            omega
          · exact absurd hread hlater
        · have hlt : ¬ s.cache.entries q < s₁.cache.entries q := fun hlt =>
            hnot ⟨hstored, .inl (hreads.2 hlt)⟩
          omega

/-- After any operations of a fresh engine, failed ones among them, a map that is kept stays kept,
is that of the file it is kept for, and a text was parsed for it; the counts of parsed texts add up,
and no more texts were refused than there were. If no operation failed and no cycle was broken, a
file has had parsed the texts that were given for it, and one more if and only if it was read before
a text was given whose map is kept. -/
theorem parses_accounted (p : Project) (ops : List Operation) :
    (∀ {later path m}, (after p {} ops).cache.get? path = some m →
      (after p {} (ops ++ later)).cache.get? path = some m) ∧
    (∀ {path m}, (after p {} ops).cache.get? path = some m →
      m.path = path ∧ 1 ≤ (after p {} ops).parses path) ∧
    (after p {} ops).stats.filesParsed =
      (Table.values (after p {} ops).stats.parseCounts).sum ∧
    (after p {} ops).stats.parseFailures ≤ (after p {} ops).stats.filesParsed ∧
    (AllReturn p {} ops → (after p {} ops).stats.cyclesBroken = 0 → ∀ path,
      (ReadFirst p path {} ops →
        (after p {} ops).parses path = ops.countP (·.scanned? = some path) + 1) ∧
      (¬ ReadFirst p path {} ops →
        (after p {} ops).parses path = ops.countP (·.scanned? = some path))) := by
  have hbooked : (after p {} ops).Booked :=
    after_induction (fun op h => (ledger_booked p).run op h) ops EngineState.booked_fresh
  have hfiled : (after p {} ops).Filed := after_induction (fun op => op.filed) ops nofun
  refine ⟨?_, fun hm => hfiled hm, hbooked.total, hbooked.refused, ?_⟩
  · intro later path m hm
    rw [after, List.foldl_append]
    exact (grown_after later).cached hm
  · intro hreturn hcycles path
    have hcalm : (after p {} ops).Calm := by
      rw [hbooked.cycles] at hcycles
      exact List.eq_nil_of_length_eq_zero hcycles
    have hparses := parses_after rfl hreturn hcalm path
    rwa [show ({} : EngineState).parses path = 0 from rfl, Nat.zero_add] at hparses

def sharedText : String := "export const B=z.object(\x7b\x7d)"

def shared : Project := .ofTexts [("/app/b.ts", sharedText)]

/-- Two files import a third one, which is given itself at last. -/
def sharedOperations : List Operation :=
  [.scan brittleText "/app/a.ts", .scan brittleText "/app/c.ts", .document "" "/app/d.gql",
    .resolve "B" "./b" "/app/a.ts", .scan sharedText "/app/b.ts"]

theorem parses_accounted_shared :
    AllReturn shared {} sharedOperations ∧
    (after shared {} sharedOperations).stats.cyclesBroken = 0 ∧
    ReadFirst shared "/app/b.ts" {} sharedOperations ∧
    (after shared {} sharedOperations).parses "/app/b.ts" = 1 + 1 ∧
    ¬ ReadFirst shared "/app/a.ts" {} sharedOperations ∧
    (after shared {} sharedOperations).parses "/app/a.ts" = 1 := by
  have hrun : AllReturn shared {} sharedOperations ∧
      (after shared {} sharedOperations).stats.cyclesBroken = 0 ∧
      (after shared {} sharedOperations).parses "/app/b.ts" = 2 ∧
      (after shared {} sharedOperations).parses "/app/a.ts" = 1 ∧
      sharedOperations.countP (·.scanned? = some "/app/b.ts") = 1 ∧
      sharedOperations.countP (·.scanned? = some "/app/a.ts") = 1 := by
    decide +kernel
  obtain ⟨hreturn, hcycles, hb, ha, hgivenb, hgivena⟩ := hrun
  obtain ⟨-, -, -, -, hparses⟩ := parses_accounted shared sharedOperations
  obtain ⟨-, hbnot⟩ := hparses hreturn hcycles "/app/b.ts"
  obtain ⟨haread, -⟩ := hparses hreturn hcycles "/app/a.ts"
  refine ⟨hreturn, hcycles, ?_, hb, fun hread => ?_, ha⟩
  · by_contra hnot
    have := hbnot hnot
    omega
  · have := haread hread
    omega

end Operation

end ContractInference
