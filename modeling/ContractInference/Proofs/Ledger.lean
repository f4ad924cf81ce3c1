import ContractInference.Proofs.Activation

/-!
# Books

The counters and the events of an engine are its books. What is true of them and is kept by each
entry that is made is true after any operation, also after one that failed: the texts that were
parsed add up, no more of them were refused than there were, and each cycle that was broken was
reported.
-/

namespace ContractInference

/-- The counters of what was parsed and of what was run into are the same. -/
def Stats.SameWork (t t' : Stats) : Prop :=
  t'.filesParsed = t.filesParsed ∧ t'.parseFailures = t.parseFailures ∧
    t'.parseCounts = t.parseCounts ∧ t'.cyclesBroken = t.cyclesBroken

namespace Engine

/-- A condition that looks at the books alone and that each entry keeps. -/
structure Ledger (p : Project) (I : EngineState → Prop) : Prop where
  congr : ∀ {s s'}, I s → s'.stats = s.stats → s'.events = s.events → I s'
  note : ∀ {s f e}, I s → (∀ t, Stats.SameWork t (f t)) → Event.met? e = none → I (s.note f [e])
  meet : ∀ {s path name fromFile}, I s → I (s.meet path name fromFile)
  counted : ∀ {s path new}, I s → new.filterMap Event.met? = [] → I (s.note (·.counted path) new)
  parsed : ∀ {s text path}, I s → I (s.parsed p text path)

namespace Ledger

variable {p : Project} {I : EngineState → Prop}

section

variable {search : Search} (h : Ledger p I)
  (hs : ∀ name modulePath fromFile, Sustains p I (search name modulePath fromFile))
include h hs

theorem searchOrReport (name modulePath fromFile : String) :
    Sustains p I (searchOrReport search name modulePath fromFile) := by
  intro s hI
  have hq := hs name modulePath fromFile
  rw [call_searchOrReport]
  rcases hc : (search name modulePath fromFile).call p s with ⟨_ | _ | _, s₁⟩
  · exact hq.of_call hI hc
  · dsimp only
    exact h.note (hq.of_call hI hc) (fun _ => ⟨rfl, rfl, rfl, rfl⟩) rfl
  · exact hq.of_call hI hc

theorem addImport (e : Extraction) (path : String) (schemas : Table String Schema)
    (b : ImportBinding) : Sustains p I (addImport search e path schemas b) := by
  unfold Engine.addImport
  split
  · refine (h.searchOrReport hs _ _ _).bind fun found => ?_
    cases found <;> exact sustains_pure _
  · exact sustains_pure _

theorem derive (text path : String) : Sustains p I (derive search text path) := by
  intro s hI
  have hp : I (s.parsed p text path) := h.parsed hI
  rw [call_derive]
  cases p.extract text path with
  | error e =>
    dsimp only
    exact hp
  | ok e =>
    have hf := sustains_foldlM (h.addImport hs e path) e.bindings e.schemas
    dsimp only
    rcases hc : (e.bindings.foldlM (Engine.addImport search e path) e.schemas).call p _
      with ⟨_ | _, s₁⟩
    · exact hf.of_call hp hc
    · exact hf.of_call hp hc

theorem load (path : String) : Sustains p I (load search path) := by
  intro s hI
  rw [call_load]
  cases s.cache.get? path with
  | some m =>
    dsimp only
    exact h.note hI (fun _ => ⟨rfl, rfl, rfl, rfl⟩) rfl
  | none =>
    dsimp only
    cases p.files.readText path with
    | error reason =>
      dsimp only
      exact h.note hI (fun _ => ⟨rfl, rfl, rfl, rfl⟩) rfl
    | ok text =>
      have hd := h.derive hs text path
      have henter : I (s.enter path) := h.congr hI rfl rfl
      dsimp only
      rcases hc : (Engine.derive search text path).call p (s.enter path) with ⟨_ | m, s₁⟩
      · exact h.congr (hd.of_call henter hc) rfl rfl
      · have hexit : I (s₁.exit (s.frame path)) := h.congr (hd.of_call henter hc) rfl rfl
        dsimp only
        split
        · exact h.note hexit (fun _ => ⟨rfl, rfl, rfl, rfl⟩) rfl
        · exact h.congr hexit rfl rfl

theorem searchMap (name path : String) :
    Sustains p I (searchMapBy (Engine.load search) search name path) := by
  refine (h.load hs path).bind fun found => ?_
  cases found with
  | none => exact sustains_pure none
  | some m =>
    dsimp only
    cases m.get? name with
    | some schema => exact sustains_pure _
    | none =>
      refine sustains_firstFound (fun r => ?_) m.reexports
      cases r.forwards name with
      | some source => exact hs source r.modulePath m.path
      | none => exact sustains_pure none

theorem searchFile (name fromFile path : String) :
    Sustains p I (searchFile search name fromFile path) := by
  intro s hI
  rw [searchFile_eq, call_searchFileBy]
  split
  · exact h.meet hI
  · split
    · have hpush : I (s.push path) := h.congr hI rfl rfl
      rw [call_inFlight]
      exact h.congr (h.searchMap hs name path hpush) rfl rfl
    · exact hI

theorem searchCandidates (name modulePath fromFile : String) :
    Sustains p I (searchCandidates search name modulePath fromFile) := by
  intro s hI
  rw [call_searchCandidates]
  cases Candidates.paths p.settings.resolver modulePath fromFile name p.root with
  | error e => exact hI
  | ok candidates => exact sustains_firstFound (h.searchFile hs name fromFile) candidates hI

end

variable (h : Ledger p I)
include h

theorem search (name modulePath fromFile : String) :
    Sustains p I (search name modulePath fromFile) := by
  refine sustains_search (fun depth => ?_) name modulePath fromFile
  induction depth with
  | zero => exact sustains_searchTo_zero
  | succ depth ih => exact h.searchCandidates ih

theorem scanFile (text path : String) : Sustains p I (scanFile text path) := by
  intro s hI
  have hd := h.derive h.search text (Path.key path)
  have hpush : I (s.push (Path.key path)) := h.congr hI rfl rfl
  rw [call_scanFile, call_inFlight]
  rcases hc : (Engine.derive Engine.search text (Path.key path)).call p (s.push (Path.key path))
    with ⟨_ | m, s₁⟩
  · exact h.congr (hd.of_call hpush hc) rfl rfl
  · exact h.congr (hd.of_call hpush hc) rfl rfl

/-- What every entry of the books keeps, an operation keeps, whatever its outcome. -/
theorem run (op : Operation) : Sustains p I op.run := by
  intro s hI
  exact op.state_cases (fun text path => h.scanFile text path hI)
    (fun name modulePath fromFile =>
      h.searchOrReport h.search name modulePath (Path.key fromFile) hI)
    (fun _ _ hnew => h.counted hI hnew)

end Ledger

end Engine

theorem Table.sum_values_put {κ : Type} [DecidableEq κ] (t : Table κ Nat) (key : κ) :
    (values (put t key ((get? t key).getD 0 + 1))).sum = (values t).sum + 1 := by
  induction t with
  | nil => rfl
  | cons e rest ih =>
    obtain ⟨k, n⟩ := e
    by_cases h : k = key
    · subst h
      simp only [put, get?, values, if_pos, List.find?_cons_of_pos, decide_true, List.map_cons,
        List.sum_cons, Option.map_some, Option.getD_some]
      omega
    · have hget : get? ((k, n) :: rest) key = get? rest key := by simp [get?, h]
      have hput : ∀ v, values (put ((k, n) :: rest) key v) = n :: values (put rest key v) := by
        simp [put, values, h]
      rw [hget, hput, List.sum_cons, ih]
      simp only [values, List.map_cons, List.sum_cons]
      omega

/-- The counts of parsed texts add up to the number of all of them, no more were refused, and the
broken cycles are those that were reported. -/
structure EngineState.Booked (s : EngineState) : Prop where
  total : s.stats.filesParsed = (Table.values s.stats.parseCounts).sum
  refused : s.stats.parseFailures ≤ s.stats.filesParsed
  cycles : s.stats.cyclesBroken = (s.events.filterMap Event.met?).length

namespace EngineState

variable {s : EngineState}

theorem parses_note_counted (path q : String) (new : List Event) :
    (s.note (·.counted path) new).parses q = s.parses q + if path = q then 1 else 0 := by
  simp only [parses, note, Stats.counted, Table.get?_put]
  split
  · subst q
    rfl
  · rfl

theorem booked_fresh : Booked {} := ⟨rfl, Nat.le_refl 0, rfl⟩

theorem Booked.counted (h : s.Booked) (path : String) {new : List Event}
    (hnew : new.filterMap Event.met? = []) : (s.note (·.counted path) new).Booked := by
  refine ⟨?_, Nat.le_succ_of_le h.refused, ?_⟩
  · simp only [note, Stats.counted, Table.sum_values_put, h.total]
  · simp only [note, List.filterMap_append, hnew, List.append_nil]
    exact h.cycles

theorem Booked.parsed (h : s.Booked) (p : Project) (text path : String) :
    (s.parsed p text path).Booked := by
  unfold EngineState.parsed
  split
  · rename_i fault _
    have hc : (s.note (·.counted path) [.parseFailed path fault]).Booked := h.counted path rfl
    exact ⟨hc.total, Nat.succ_le_succ h.refused, hc.cycles⟩
  · have hc : (s.note (·.counted path) []).Booked := h.counted path rfl
    simpa only [note, List.append_nil] using hc

end EngineState

theorem Engine.ledger_booked (p : Project) : Ledger p EngineState.Booked where
  congr h hstats hevents := by
    refine ⟨?_, ?_, ?_⟩
    · rw [hstats, h.total]
    · rw [hstats]
      exact h.refused
    · rw [hstats, hevents, h.cycles]
  note {s f e} h hf he := by
    obtain ⟨hparsed, hrefused, hcounts, hcycles⟩ := hf s.stats
    refine ⟨?_, ?_, ?_⟩
    · simp only [EngineState.note, hparsed, hcounts, h.total]
    · simp only [EngineState.note, hparsed, hrefused, h.refused]
    · simp [EngineState.note, hcycles, he, h.cycles]
  meet h := by
    refine ⟨h.total, h.refused, ?_⟩
    simp [EngineState.meet, EngineState.note, Event.met?, h.cycles]
  counted {s path new} h hnew := h.counted path hnew
  parsed {s text path} h := h.parsed _ text path

end ContractInference
