import ContractInference.Proofs.Kept

/-!
# Invariants

What the steps of a search keep, the search keeps, also when it fails. As an example, the counts of
parsed texts never fall.
-/

namespace ContractInference

namespace Engine

variable {α β : Type} {p : Project} {I : EngineState → Prop}

/-- A condition on states that a call keeps, whatever its outcome. -/
def Sustains (p : Project) (I : EngineState → Prop) (x : Engine α) : Prop :=
  ∀ ⦃s⦄, I s → I (x.call p s).2

theorem Sustains.of_call {x : Engine α} (h : Sustains p I x) {s s' : EngineState}
    {r : Except Failure α} (hs : I s) (hc : x.call p s = (r, s')) : I s' := by
  have := h hs
  rwa [hc] at this

theorem sustains_pure (a : α) : Sustains p I (pure a : Engine α) := fun _ hs => hs

theorem Sustains.bind {x : Engine α} {f : α → Engine β} (hx : Sustains p I x)
    (hf : ∀ a, Sustains p I (f a)) : Sustains p I (x >>= f) := by
  intro s hs
  rw [call_bind]
  rcases hc : x.call p s with ⟨_ | a, s₁⟩
  · exact hx.of_call hs hc
  · exact hf a (hx.of_call hs hc)

theorem sustains_foldlM {f : β → α → Engine β} (hf : ∀ b a, Sustains p I (f b a)) (as : List α)
    (b : β) : Sustains p I (as.foldlM f b) := by
  induction as generalizing b with
  | nil => exact sustains_pure b
  | cons a as ih =>
    rw [List.foldlM_cons]
    exact (hf b a).bind ih

theorem sustains_firstFound {place : α → Engine (Option Schema)} (h : ∀ a, Sustains p I (place a))
    (as : List α) : Sustains p I (firstFound place as) := by
  induction as with
  | nil => exact sustains_pure none
  | cons a as ih =>
    refine (h a).bind fun found => ?_
    cases found with
    | some schema => exact sustains_pure _
    | none => exact ih

theorem found_of_firstFound {place : α → Engine (Option Schema)} (h : ∀ a, Sustains p I (place a))
    {as : List α} {s s' : EngineState} {schema : Schema} (hs : I s)
    (hc : (firstFound place as).call p s = (.ok (some schema), s')) :
    ∃ a ∈ as, ∃ s₁, I s₁ ∧ (place a).call p s₁ = (.ok (some schema), s') := by
  induction as generalizing s with
  | nil => cases hc
  | cons a as ih =>
    rw [call_firstFound_cons] at hc
    rcases ha : (place a).call p s with ⟨_ | _ | found, s₁⟩
    · rw [ha] at hc
      cases hc
    · rw [ha] at hc
      obtain ⟨a', hmem, h'⟩ := ih ((h a).of_call hs ha) hc
      exact ⟨a', List.mem_cons_of_mem a hmem, h'⟩
    · rw [ha] at hc
      cases hc
      exact ⟨a, List.mem_cons_self, s, hs, ha⟩

section

variable {search : Search}
  (hs : ∀ name modulePath fromFile, Sustains p I (search name modulePath fromFile))
  (hcongr : ∀ {s s'}, I s → s'.inFlight.depths = s.inFlight.depths → s'.cache = s.cache →
    s'.stats.parseCounts = s.stats.parseCounts → I s')
include hs hcongr

theorem sustains_searchOrReport (name modulePath fromFile : String) :
    Sustains p I (searchOrReport search name modulePath fromFile) := by
  intro s h
  have hq := hs name modulePath fromFile
  rw [call_searchOrReport]
  rcases hc : (search name modulePath fromFile).call p s with ⟨_ | _ | _, s₁⟩
  · exact hq.of_call h hc
  · dsimp only
    exact hcongr (hq.of_call h hc) rfl rfl rfl
  · exact hq.of_call h hc

theorem sustains_addImport (e : Extraction) (path : String) (schemas : Table String Schema)
    (b : ImportBinding) : Sustains p I (addImport search e path schemas b) := by
  unfold addImport
  split
  · refine (sustains_searchOrReport hs hcongr _ _ _).bind fun found => ?_
    cases found <;> exact sustains_pure _
  · exact sustains_pure _

end

/-- A condition that looks at the chain, the cache and the counts of parsed texts, and that the
steps of a search keep. -/
structure Invariant (p : Project) (search : Search) (I : EngineState → Prop) : Prop where
  keeps : ∀ name modulePath fromFile, Keeps p (search name modulePath fromFile)
  sustains : ∀ name modulePath fromFile, Sustains p I (search name modulePath fromFile)
  congr : ∀ {s s'}, I s → s'.inFlight.depths = s.inFlight.depths → s'.cache = s.cache →
    s'.stats.parseCounts = s.stats.parseCounts → I s'
  parsed : ∀ {s text path}, I s → I (s.parsed p text path)
  push : ∀ {s path}, s.inFlight.contains path = false → I s → I (s.push path)
  pop : ∀ {s path s₁}, s.inFlight.contains path = false → I s → Kept p (s.push path) s₁ → I s₁ →
    I (s₁.pop path)
  store : ∀ {s path text m s₁}, s.inFlight.contains path = false → I s →
    s.cache.get? path = none → p.files.readText path = .ok text →
    (derive search text path).call p ((s.push path).enter path) = (.ok m, s₁) →
    s₁.inFlight.cutShort ((s.push path).frame path) = false → I s₁ →
    I { s₁ with cache := (s₁.cache.putIfAbsent path m).2 }

namespace Invariant

variable {search : Search} (h : Invariant p search I)
include h

theorem derive_of_parsed {s : EngineState} {text path : String} (hs : I (s.parsed p text path)) :
    I ((derive search text path).call p s).2 := by
  rw [call_derive]
  cases p.extract text path with
  | error e =>
    dsimp only
    exact hs
  | ok e =>
    have hf := sustains_foldlM (sustains_addImport h.sustains h.congr e path) e.bindings e.schemas
    dsimp only
    rcases hc : (e.bindings.foldlM (addImport search e path) e.schemas).call p _ with ⟨_ | _, s₁⟩
    · exact hf.of_call hs hc
    · exact hf.of_call hs hc

theorem derive (text path : String) : Sustains p I (derive search text path) :=
  fun _ hs => h.derive_of_parsed (h.parsed hs)

theorem load {s : EngineState} {path : String} (hp : s.inFlight.contains path = false) (hs : I s) :
    I ((load search path).call p (s.push path)).2 := by
  have hpush : I (s.push path) := h.push hp hs
  have henter : I ((s.push path).enter path) := h.congr hpush rfl rfl rfl
  rw [call_load]
  cases hm : (s.push path).cache.get? path with
  | some m =>
    dsimp only
    exact h.congr hpush rfl rfl rfl
  | none =>
    dsimp only
    cases hr : p.files.readText path with
    | error reason =>
      dsimp only
      exact h.congr hpush rfl rfl rfl
    | ok text =>
      dsimp only
      rcases hc : (Engine.derive search text path).call p ((s.push path).enter path)
        with ⟨_ | m, s₁⟩
      · dsimp only
        exact h.congr ((h.derive text path).of_call henter hc) rfl rfl rfl
      · have hs₁ := (h.derive text path).of_call henter hc
        dsimp only
        split
        · exact h.congr hs₁ rfl rfl rfl
        · rename_i hcut
          exact h.congr (h.store hp hs hm hr hc (Bool.eq_false_iff.2 hcut) hs₁) rfl rfl rfl

theorem follow (name path : String) (r : ReExport) :
    Sustains p I (match r.forwards name with
      | some source => search source r.modulePath path
      | none => return none) := by
  cases r.forwards name with
  | some source => exact h.sustains source r.modulePath path
  | none => exact sustains_pure none

theorem searchFile (name fromFile path : String) :
    Sustains p I (searchFile search name fromFile path) := by
  intro s hs
  rw [searchFile_eq, call_searchFileBy]
  split
  · exact h.congr hs rfl rfl rfl
  · rename_i hin
    have hp : s.inFlight.contains path = false := Bool.eq_false_iff.2 hin
    split
    · have hk := keeps_searchMapBy h.keeps (keeps_load h.keeps) name path (s.push path)
      rw [call_inFlight]
      refine h.pop hp hs hk ?_
      rw [call_searchMapBy]
      rcases hl : (Engine.load search path).call p (s.push path) with ⟨_ | _ | m, s₁⟩
      · simpa only [hl] using h.load hp hs
      · simpa only [hl] using h.load hp hs
      · have hs₁ : I s₁ := by simpa only [hl] using h.load hp hs
        dsimp only
        cases m.get? name with
        | some schema => exact hs₁
        | none => exact sustains_firstFound (h.follow name m.path) m.reexports hs₁
    · exact hs

theorem searchCandidates (name modulePath fromFile : String) :
    Sustains p I (searchCandidates search name modulePath fromFile) := by
  intro s hs
  rw [call_searchCandidates]
  cases Candidates.paths p.settings.resolver modulePath fromFile name p.root with
  | error e => exact hs
  | ok candidates => exact sustains_firstFound (h.searchFile name fromFile) candidates hs

end Invariant

theorem sustains_searchTo_zero (name modulePath fromFile : String) :
    Sustains p I (searchTo 0 name modulePath fromFile) := fun _ hs => hs

theorem sustains_search
    (h : ∀ depth name modulePath fromFile, Sustains p I (searchTo depth name modulePath fromFile))
    (name modulePath fromFile : String) : Sustains p I (search name modulePath fromFile) := by
  intro s hs
  rw [call_search]
  exact h _ name modulePath fromFile hs

end Engine

namespace EngineState

def parses (s : EngineState) (path : String) : Nat :=
  (Table.get? s.stats.parseCounts path).getD 0

theorem parses_parsed (s : EngineState) (p : Project) (text path q : String) :
    (s.parsed p text path).parses q = s.parses q + if path = q then 1 else 0 := by
  have hcounts : (s.parsed p text path).stats.parseCounts = (s.stats.counted path).parseCounts := by
    unfold parsed
    split <;> rfl
  rw [parses, hcounts, Stats.counted, Table.get?_put]
  split
  · subst q
    rfl
  · rfl

end EngineState

namespace Engine

variable {p : Project}

theorem invariant_parses {search : Search} (q : String) (n : Nat)
    (hk : ∀ name modulePath fromFile, Keeps p (search name modulePath fromFile))
    (hs : ∀ name modulePath fromFile,
      Sustains p (n ≤ ·.parses q) (search name modulePath fromFile)) :
    Invariant p search (n ≤ ·.parses q) where
  keeps := hk
  sustains := hs
  congr h _ _ hc := by
    rw [EngineState.parses, hc]
    exact h
  parsed h := by
    rw [EngineState.parses_parsed]
    omega
  push _ h := h
  pop _ _ _ h := h
  store _ _ _ _ _ _ h := h

theorem sustains_parses (q : String) (n depth : Nat) (name modulePath fromFile : String) :
    Sustains p (n ≤ ·.parses q) (searchTo depth name modulePath fromFile) := by
  induction depth generalizing name modulePath fromFile with
  | zero => exact sustains_searchTo_zero _ _ _
  | succ depth ih => exact (invariant_parses q n (keeps_searchTo depth) ih).searchCandidates _ _ _

end Engine

end ContractInference
