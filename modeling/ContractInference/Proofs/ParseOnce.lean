import ContractInference.Proofs.Ledger

/-!
# Files parsed once

As long as no cycle is met, a file that is read on the way is parsed once: its map is stored, and
whoever comes by later takes the stored one. So the texts that are parsed for a file are those that
were given for it, and one more if the file was read before one was given.
-/

namespace ContractInference

open Engine

namespace EngineState

/-- No file in flight was run into. -/
def Calm (s : EngineState) : Prop := s.events.filterMap Event.met? = []

end EngineState

namespace Cache

def entries (c : Cache) (path : String) : Nat := if (c.get? path).isSome then 1 else 0

theorem entries_eq_zero_iff {c : Cache} {path : String} :
    c.entries path = 0 ↔ c.get? path = none := by
  rw [entries]
  cases c.get? path <;> simp

theorem entries_le_one (c : Cache) (path : String) : c.entries path ≤ 1 := by
  rw [entries]
  split <;> omega

theorem entries_putIfAbsent (c : Cache) (path q : String) (m : SchemaMap) :
    (c.putIfAbsent path m).2.entries q = if path = q then 1 else c.entries q := by
  rw [entries, get?_putIfAbsent]
  split
  · simp
  · rfl

end Cache

namespace Kept

variable {p : Project} {s s₁ : EngineState} {path : String}

theorem calm (h : Kept p s s₁) (hc : s₁.Calm) : s.Calm := by
  obtain ⟨new, he, -⟩ := h.trail
  rw [EngineState.Calm, he, List.filterMap_append] at hc
  exact (List.append_eq_nil_iff.1 hc).1

/-- What was derived without meeting a cycle was not cut short. -/
theorem cutShort_eq_false (hp : s.inFlight.contains path = false)
    (h : Kept p ((s.push path).enter path) s₁) (hc : s₁.Calm) :
    s₁.inFlight.cutShort ((s.push path).frame path) = false := by
  obtain ⟨new, he, hf⟩ := h.trail
  rw [EngineState.Calm, he, List.filterMap_append] at hc
  have hnew : new.filterMap Event.met? = [] := (List.append_eq_nil_iff.1 hc).2
  have hsize : ((s.push path).enter path).inFlight.size = s.inFlight.size + 1 := by
    simp [EngineState.enter, EngineState.push, InFlight.enter, InFlight.size,
      InFlight.depths_add hp]
  rw [Bool.eq_false_iff, ne_eq, InFlight.cutShort_eq_true_iff, EngineState.frame_depth hp,
    hf _ (by omega), hnew]
  simp [EngineState.enter, InFlight.enter]

end Kept

namespace Engine

variable {α β : Type} {p : Project} {q : String}

/-- What a call that returns and meets no cycle parses of a file, it stores. -/
def Balanced (p : Project) (q : String) (x : Engine α) : Prop :=
  ∀ ⦃s a s'⦄, x.call p s = (.ok a, s') → s'.Calm →
    s'.parses q + s.cache.entries q = s.parses q + s'.cache.entries q

theorem balanced_pure (a : α) : Balanced p q (pure a : Engine α) := by
  intro s _ s' h _
  cases h
  rfl

theorem Balanced.bind {x : Engine α} {f : α → Engine β} (hx : Balanced p q x)
    (hf : ∀ a, Balanced p q (f a)) (hk : ∀ a, Keeps p (f a)) : Balanced p q (x >>= f) := by
  intro s b s' h hc
  obtain ⟨a, s₁, h₁, h⟩ := call_bind_ok p h
  have hfirst := hx h₁ (((hk a).of_call h).calm hc)
  have hrest := hf a h hc
  omega

theorem balanced_foldlM {f : β → α → Engine β} (hf : ∀ b a, Balanced p q (f b a))
    (hk : ∀ b a, Keeps p (f b a)) (as : List α) (b : β) : Balanced p q (as.foldlM f b) := by
  induction as generalizing b with
  | nil => exact balanced_pure b
  | cons a as ih =>
    rw [List.foldlM_cons]
    exact (hf b a).bind ih fun b' => keeps_foldlM hk as b'

theorem balanced_firstFound {place : α → Engine (Option Schema)} (h : ∀ a, Balanced p q (place a))
    (hk : ∀ a, Keeps p (place a)) (as : List α) : Balanced p q (firstFound place as) := by
  induction as with
  | nil => exact balanced_pure none
  | cons a as ih =>
    refine (h a).bind (fun found => ?_) fun found => ?_
    · cases found with
      | some schema => exact balanced_pure _
      | none => exact ih
    · cases found with
      | some schema => exact keeps_pure _
      | none => exact keeps_firstFound hk as

section

variable {search : Search}
  (hk : ∀ name modulePath fromFile, Keeps p (search name modulePath fromFile))
  (hq : ∀ name modulePath fromFile, Spares p q (search name modulePath fromFile))
  (hb : ∀ name modulePath fromFile, Balanced p q (search name modulePath fromFile))
include hb

theorem balanced_searchOrReport (name modulePath fromFile : String) :
    Balanced p q (searchOrReport search name modulePath fromFile) := by
  intro s found s' h hc
  rw [call_searchOrReport] at h
  rcases hs : (search name modulePath fromFile).call p s with ⟨_ | _ | schema, s₁⟩
  · rw [hs] at h
    cases h
  · rw [hs] at h
    cases h
    have hsearch := hb _ _ _ hs ((Kept.note p s₁ _ rfl).calm hc)
    exact hsearch
  · rw [hs] at h
    cases h
    exact hb _ _ _ hs hc

theorem balanced_addImport (e : Extraction) (path : String) (schemas : Table String Schema)
    (b : ImportBinding) : Balanced p q (addImport search e path schemas b) := by
  unfold addImport
  split
  · refine (balanced_searchOrReport hb _ _ _).bind (fun found => ?_) fun found => ?_
    · cases found <;> exact balanced_pure _
    · cases found <;> exact keeps_pure _
  · exact balanced_pure _

include hk

/-- A derivation parses one text for its own file that it does not store. -/
theorem parses_derive {text path : String} {m : SchemaMap} {s s' : EngineState}
    (h : (derive search text path).call p s = (.ok m, s')) (hc : s'.Calm) :
    s'.parses q + s.cache.entries q =
      s.parses q + s'.cache.entries q + if path = q then 1 else 0 := by
  obtain ⟨e, schemas, -, -, hf⟩ := call_derive_ok_iff.1 h
  have hfold := balanced_foldlM (balanced_addImport hb e path) (keeps_addImport hk e path)
    e.bindings e.schemas hf hc
  rw [EngineState.parses_parsed, EngineState.parsed_cache] at hfold
  omega

include hq

theorem balanced_load {path : String} {found : Option SchemaMap} {s s' : EngineState}
    (hp : s.inFlight.contains path = false)
    (h : (load search path).call p (s.push path) = (.ok found, s')) (hc : s'.Calm) :
    s'.parses q + s.cache.entries q = s.parses q + s'.cache.entries q := by
  cases call_load_ok_iff.1 h with
  | hit _ => rfl
  | unreadable _ _ => rfl
  | @skipped text m s₁ hm hr hd hcut =>
    have hcalm : s₁.Calm := (Kept.note p (s₁.exit _) id rfl).calm hc
    rw [((keeps_derive hk text path).of_call hd).cutShort_eq_false hp hcalm] at hcut
    cases hcut
  | @stored text m s₁ hm hr hd hcut =>
    have hparses := parses_derive (q := q) hk hb hd hc
    change s₁.parses q + s.cache.entries q = s.parses q + s₁.cache.entries q + _ at hparses
    change s₁.parses q + s.cache.entries q = s.parses q + (s₁.cache.putIfAbsent path m).2.entries q
    rw [Cache.entries_putIfAbsent]
    split
    · subst q
      -- Nothing was stored for the file while it was in flight.
      have hin : ((s.push path).enter path).inFlight.contains path = true := by
        simp [EngineState.enter, InFlight.enter, EngineState.push, InFlight.contains,
          Table.hasKey_eq_isSome, InFlight.get?_depths_add hp]
      have hnone : s₁.cache.get? path = none :=
        ((spares_derive hk hq text path).of_call hin hd).trans hm
      rw [Cache.entries_eq_zero_iff.2 hnone, if_pos rfl] at hparses
      omega
    · rename_i hne
      rw [if_neg hne] at hparses
      exact hparses

theorem balanced_searchFile (name fromFile path : String) :
    Balanced p q (searchFile search name fromFile path) := by
  intro s found s' h hc
  cases call_searchFileBy_ok_iff.1 h with
  | met _ =>
    rw [EngineState.Calm, EngineState.meet, EngineState.note, List.filterMap_append] at hc
    cases (List.append_eq_nil_iff.1 hc).2
  | absent _ _ => rfl
  | @opened _ s₁ hp _ hmap =>
    have hcalm : s₁.Calm := hc
    change s₁.parses q + s.cache.entries q = s.parses q + s₁.cache.entries q
    cases call_searchMapBy_ok_iff.1 hmap with
    | unreadable hl => exact balanced_load hk hq hb hp hl hcalm
    | found hl _ => exact balanced_load hk hq hb hp hl hcalm
    | @followed m _ s₂ _ hl _ hf =>
      have hcalm₂ : s₂.Calm := ((keeps_followReExports hk m name).of_call hf).calm hcalm
      have hload := balanced_load hk hq hb hp hl hcalm₂
      have hrest : s₁.parses q + s₂.cache.entries q = s₂.parses q + s₁.cache.entries q := by
        refine balanced_firstFound (fun r => ?_) (keeps_follow hk name m.path) m.reexports hf hcalm
        cases r.forwards name with
        | some source => exact hb source r.modulePath m.path
        | none => exact balanced_pure none
      omega

end

theorem balanced_search (name modulePath fromFile : String) :
    Balanced p q (search name modulePath fromFile) := by
  have hsearch : ∀ depth name modulePath fromFile,
      Balanced p q (searchTo depth name modulePath fromFile) := by
    intro depth
    induction depth with
    | zero =>
      intro name modulePath fromFile s found s' h
      cases h
    | succ depth ih =>
      intro name modulePath fromFile s found s' h hc
      obtain ⟨candidates, -, h⟩ := call_searchCandidates_ok_iff.1 h
      exact balanced_firstFound (balanced_searchFile (keeps_searchTo depth) (spares_searchTo depth)
        ih name fromFile) (keeps_searchFile (keeps_searchTo depth) name fromFile) candidates h hc
  intro s found s' h
  rw [call_search] at h
  exact hsearch _ _ _ _ h

theorem call_derive_state {search : Search} {text path : String} {e : Extraction} {s : EngineState}
    (h : p.extract text path = .ok e) :
    ((derive search text path).call p s).2 =
      ((e.bindings.foldlM (addImport search e path) e.schemas).call p
        (s.parsed p text path)).2 := by
  rw [call_derive, h]
  dsimp only
  rcases (e.bindings.foldlM (addImport search e path) e.schemas).call p (s.parsed p text path)
    with ⟨_ | _, _⟩ <;> rfl

section

variable {place : α → Engine (Option Schema)} {f : β → α → Engine β} {s : EngineState}

theorem exists_of_parses_firstFound {as : List α}
    (h : ((firstFound place as).call p s).2.parses q ≠ s.parses q) :
    ∃ before a after t, as = before ++ a :: after ∧
      (firstFound place before).call p s = (.ok none, t) ∧
      ((place a).call p t).2.parses q ≠ t.parses q := by
  induction as generalizing s with
  | nil => exact absurd rfl h
  | cons a as ih =>
    by_cases ha : ((place a).call p s).2.parses q = s.parses q
    · rw [call_firstFound_cons] at h
      rcases hc : (place a).call p s with ⟨_ | _ | schema, s₁⟩
      · rw [hc] at h ha
        exact absurd ha h
      · rw [hc] at h ha
        obtain ⟨before, a', after, t, rfl, hbefore, ht⟩ := ih (s := s₁) (by rwa [← ha] at h)
        refine ⟨a :: before, a', after, t, rfl, ?_, ht⟩
        rw [call_firstFound_cons, hc]
        exact hbefore
      · rw [hc] at h ha
        exact absurd ha h
    · exact ⟨[], a, as, s, rfl, rfl, ha⟩

theorem exists_of_parses_foldlM {as : List α} {b : β}
    (h : ((as.foldlM f b).call p s).2.parses q ≠ s.parses q) :
    ∃ before a after b' t, as = before ++ a :: after ∧
      (before.foldlM f b).call p s = (.ok b', t) ∧
      ((f b' a).call p t).2.parses q ≠ t.parses q := by
  induction as generalizing s b with
  | nil => exact absurd rfl h
  | cons a as ih =>
    by_cases ha : ((f b a).call p s).2.parses q = s.parses q
    · rw [List.foldlM_cons, call_bind] at h
      rcases hc : (f b a).call p s with ⟨_ | b₁, s₁⟩
      · rw [hc] at h ha
        exact absurd ha h
      · rw [hc] at h ha
        obtain ⟨before, a', after, b', t, rfl, hbefore, ht⟩ := ih (s := s₁) (by rwa [← ha] at h)
        refine ⟨a :: before, a', after, b', t, rfl, ?_, ht⟩
        rw [List.foldlM_cons, call_bind, hc]
        exact hbefore
    · exact ⟨[], a, as, b, s, rfl, rfl, ha⟩

end

end Engine

namespace Activation

variable {p : Project} {q : String}

def Parses (p : Project) (q : String) (a : Activation) : Prop :=
  (a.stop p).parses q ≠ a.start.parses q

theorem exists_of_parses_search {name modulePath fromFile : String} {s : EngineState}
    (h : Parses p q ⟨.search name modulePath fromFile, s⟩) :
    ∃ b, Inside p ⟨.search name modulePath fromFile, s⟩ b ∧ b.Parses p q := by
  rw [Parses, stop, call, Task.run, call_map_state, ← searchCandidates_search,
    call_searchCandidates] at h
  cases hcs : Candidates.paths p.settings.resolver modulePath fromFile name p.root with
  | error e =>
    rw [hcs] at h
    exact absurd rfl h
  | ok candidates =>
    rw [hcs] at h
    obtain ⟨before, c, after, t, rfl, hbefore, ht⟩ := exists_of_parses_firstFound h
    refine ⟨_, .tried hcs hbefore, ?_⟩
    rwa [Parses, stop, call, Task.run, call_map_state]

theorem exists_of_parses_file {name fromFile path : String} {s : EngineState}
    (h : Parses p q ⟨.file name fromFile path, s⟩) :
    ∃ b, Inside p ⟨.file name fromFile path, s⟩ b ∧ b.Parses p q := by
  rw [Parses, stop, call, Task.run, call_map_state, searchFile_eq, call_searchFileBy] at h
  cases hin : s.inFlight.contains path with
  | true =>
    rw [hin] at h
    exact absurd rfl h
  | false =>
    rw [hin, if_neg Bool.false_ne_true] at h
    cases hf : p.files.isFile path with
    | false =>
      rw [hf] at h
      exact absurd rfl h
    | true =>
      rw [hf, if_pos rfl, call_inFlight, call_searchMapBy] at h
      by_cases hload : Parses p q ⟨.load path, s.push path⟩
      · exact ⟨_, .opened hin hf, hload⟩
      · -- The file was there already, so it is one that the name is forwarded to.
        rw [Parses, stop, call, Task.run, call_map_state, not_not] at hload
        rcases hl : (Engine.load Engine.search path).call p (s.push path) with ⟨_ | _ | m, s₁⟩
        · rw [hl] at h hload
          exact absurd hload h
        · rw [hl] at h hload
          exact absurd hload h
        · rw [hl] at h hload
          dsimp only at h hload
          cases hm : m.get? name with
          | some schema =>
            rw [hm] at h
            exact absurd hload h
          | none =>
            rw [hm] at h
            replace h : ((followReExports Engine.search m name).call p s₁).2.parses q ≠
                s₁.parses q := fun he => h (he.trans hload)
            obtain ⟨before, r, after, t, hr, hbefore, ht⟩ := exists_of_parses_firstFound h
            cases hs : r.forwards name with
            | none =>
              rw [hs] at ht
              exact absurd rfl ht
            | some source =>
              rw [hs] at ht
              refine ⟨_, .forwarded hin hf hl hm hr hbefore hs, ?_⟩
              rwa [Parses, stop, call, Task.run, call_map_state]

theorem exists_of_parses_load {path : String} {s : EngineState} (h : Parses p q ⟨.load path, s⟩) :
    ∃ b, Inside p ⟨.load path, s⟩ b ∧ b.Parses p q := by
  rw [Parses, stop, call, Task.run, call_map_state, call_load] at h
  cases hm : s.cache.get? path with
  | some m =>
    rw [hm] at h
    exact absurd rfl h
  | none =>
    rw [hm] at h
    dsimp only at h
    cases hr : p.files.readText path with
    | error reason =>
      rw [hr] at h
      exact absurd rfl h
    | ok text =>
      rw [hr] at h
      refine ⟨_, .derived hm hr, ?_⟩
      rw [Parses, stop, call, Task.run, call_map_state]
      dsimp only at h ⊢
      rcases hd : (Engine.derive Engine.search text path).call p (s.enter path) with ⟨_ | m, s₁⟩
      · rw [hd] at h
        exact h
      · rw [hd] at h
        dsimp only at h
        split at h
        · exact h
        · exact h

theorem exists_of_parses_derive {text path : String} {s : EngineState} (hne : path ≠ q)
    (h : Parses p q ⟨.derive text path, s⟩) :
    ∃ b, Inside p ⟨.derive text path, s⟩ b ∧ b.Parses p q := by
  have hparsed : (s.parsed p text path).parses q = s.parses q := by
    rw [EngineState.parses_parsed, if_neg hne, Nat.add_zero]
  rw [Parses, stop, call, Task.run, call_map_state, ← hparsed] at h
  cases he : p.extract text path with
  | error e =>
    rw [call_derive, he] at h
    dsimp only at h
    exact absurd rfl h
  | ok e =>
    rw [call_derive_state he] at h
    obtain ⟨before, b, after, schemas, t, hb, hbefore, ht⟩ := exists_of_parses_foldlM h
    rw [call_addImport] at ht
    cases hw : isWanted e schemas b with
    | false =>
      rw [hw] at ht
      exact absurd rfl ht
    | true =>
      refine ⟨_, .imported he hb hbefore hw, ?_⟩
      rw [Parses, stop, call, Task.run, call_map_state]
      rw [hw, if_pos rfl, call_searchOrReport] at ht
      dsimp only
      rcases hc : (Engine.search b.exportedName b.modulePath path).call p t with ⟨_ | _ | _, s₁⟩ <;>
      · rw [hc] at ht
        exact ht

theorem exists_of_parses {a : Activation} (h : a.Parses p q) :
    (∃ text, a.task = .derive text q) ∨ ∃ b, Inside p a b ∧ b.Parses p q := by
  obtain ⟨task, s⟩ := a
  cases task with
  | search name modulePath fromFile => exact .inr (exists_of_parses_search h)
  | file name fromFile path => exact .inr (exists_of_parses_file h)
  | load path => exact .inr (exists_of_parses_load h)
  | derive text path =>
    by_cases hq : path = q
    · subst q
      exact .inl ⟨text, rfl⟩
    · exact .inr (exists_of_parses_derive hq h)

/-- Work is smaller the fewer files are left to open, and among work with the same files left it
goes from loading over deriving and searching to looking into a file. -/
def size (p : Project) (a : Activation) : Nat :=
  5 * p.unread a.start +
    match a.task with
    | .load _ => 4
    | .derive .. => 3
    | .search .. => 2
    | .file .. => 1

end Activation

namespace Inside

variable {p : Project} {q : String} {a b : Activation}

theorem size_lt (h : Inside p a b) : b.size p < a.size p := by
  cases h with
  | tried _ hbefore =>
    have hk := ((keeps_firstFound (keeps_searchFile keeps_search _ _) _).of_call hbefore).unread
    simp only [Activation.size]
    omega
  | opened hin hf =>
    have hlt := Project.unread_push_lt hf hin
    simp only [Activation.size]
    omega
  | forwarded hin hf hl _ _ hbefore _ =>
    have hlt := Project.unread_push_lt hf hin
    have hload := ((keeps_load keeps_search _).of_call hl).unread
    have hk := ((keeps_followReExports keeps_search _ _).of_call hbefore).unread
    simp only [Activation.size]
    omega
  | @derived path _ s _ _ =>
    have henter : p.unread (s.enter path) = p.unread s := rfl
    simp only [Activation.size]
    omega
  | @imported text path e _ _ _ _ s _ _ _ hbefore _ =>
    have hparsed := (Kept.parsed p s text path).unread
    have hk := ((keeps_foldlM (keeps_addImport keeps_search e path) _ _).of_call hbefore).unread
    simp only [Activation.size]
    omega

theorem exists_derive (h : a.Parses p q) :
    ∃ text t, Relation.ReflTransGen (Inside p) a ⟨.derive text q, t⟩ := by
  induction hn : a.size p using Nat.strong_induction_on generalizing a with
  | _ n ih =>
    rcases Activation.exists_of_parses h with ⟨text, htask⟩ | ⟨b, hin, hb⟩
    · refine ⟨text, a.start, ?_⟩
      rw [← htask]
    · obtain ⟨text, t, ht⟩ := ih _ (hn ▸ hin.size_lt) hb rfl
      exact ⟨text, t, .head hin ht⟩

/-- Texts that are parsed in the course of work count as parsed in the course of the work around
it. -/
theorem parses_le (h : Inside p a b) (q : String) :
    a.start.parses q ≤ b.start.parses q ∧ (b.stop p).parses q ≤ (a.stop p).parses q := by
  have hinv : ∀ n, Invariant p Engine.search (n ≤ ·.parses q) := fun n =>
    invariant_parses q n keeps_search (sustains_search (sustains_parses q n))
  cases h with
  | @tried name modulePath fromFile c before after s t hcs hbefore =>
    refine ⟨(sustains_firstFound ((hinv _).searchFile name fromFile) before).of_call
      (Nat.le_refl _) hbefore, ?_⟩
    simp only [Activation.stop, Activation.call, Task.run, call_map_state]
    rw [← searchCandidates_search, call_searchCandidates, hcs]
    dsimp only
    rw [call_firstFound_append hbefore, call_firstFound_cons]
    rcases (searchFile Engine.search name fromFile c).call p t with ⟨_ | _ | _, t₁⟩
    · exact Nat.le_refl _
    · exact sustains_firstFound ((hinv _).searchFile name fromFile) after (Nat.le_refl _)
    · exact Nat.le_refl _
  | @opened name fromFile path s hin hf =>
    refine ⟨Nat.le_refl _, ?_⟩
    simp only [Activation.stop, Activation.call, Task.run, call_map_state]
    rw [searchFile_eq, call_searchFileBy, hin, hf, if_neg Bool.false_ne_true, if_pos rfl,
      call_inFlight, call_searchMapBy]
    rcases (Engine.load Engine.search path).call p (s.push path) with ⟨_ | _ | m, s₁⟩
    · exact Nat.le_refl _
    · exact Nat.le_refl _
    · dsimp only
      cases m.get? name with
      | some schema => exact Nat.le_refl _
      | none =>
        exact sustains_firstFound ((hinv _).follow name m.path) m.reexports (Nat.le_refl _)
  | @forwarded name fromFile path source m r before after s t u hin hf hl hm hr hbefore hs =>
    have hload : s.parses q ≤ t.parses q := by
      simpa only [hl] using (hinv _).load hin (Nat.le_refl (s.parses q))
    refine ⟨(sustains_firstFound ((hinv _).follow name m.path) before).of_call hload hbefore, ?_⟩
    simp only [Activation.stop, Activation.call, Task.run, call_map_state]
    rw [searchFile_eq, call_searchFileBy, hin, hf, if_neg Bool.false_ne_true, if_pos rfl,
      call_inFlight, call_searchMapBy, hl]
    dsimp only
    rw [hm]
    dsimp only [followReExports] at hbefore ⊢
    rw [hr, call_firstFound_append hbefore, call_firstFound_cons, hs]
    rcases (Engine.search source r.modulePath m.path).call p u with ⟨_ | _ | _, u₁⟩
    · exact Nat.le_refl _
    · exact sustains_firstFound ((hinv _).follow name m.path) after (Nat.le_refl _)
    · exact Nat.le_refl _
  | @derived path text s hm hr =>
    refine ⟨Nat.le_refl _, ?_⟩
    simp only [Activation.stop, Activation.call, Task.run, call_map_state]
    rw [call_load, hm]
    dsimp only
    rw [hr]
    dsimp only
    rcases (Engine.derive Engine.search text path).call p (s.enter path) with ⟨_ | m, s₁⟩
    · exact Nat.le_refl _
    · dsimp only
      split <;> exact Nat.le_refl _
  | @imported text path e b before after schemas s t he hbs hbefore hw =>
    have himports : ∀ n, ∀ schemas b, Sustains p (n ≤ ·.parses q)
        (addImport Engine.search e path schemas b) := fun n =>
      sustains_addImport (hinv n).sustains (hinv n).congr e path
    refine ⟨(sustains_foldlM (himports _) before e.schemas).of_call
      ((hinv _).parsed (Nat.le_refl _)) hbefore, ?_⟩
    simp only [Activation.stop, Activation.call, Task.run, call_map_state]
    rw [call_derive_state he, hbs, List.foldlM_append, call_bind, hbefore]
    dsimp only
    rw [List.foldlM_cons, call_bind, call_addImport, hw, if_pos rfl, call_searchOrReport]
    rcases (Engine.search b.exportedName b.modulePath path).call p t with ⟨_ | _ | schema, t₁⟩
    · exact Nat.le_refl _
    · exact sustains_foldlM (himports _) after schemas (Nat.le_refl _)
    · exact sustains_foldlM (himports _) after _ (Nat.le_refl _)

theorem parses_lt {root : Activation} {text : String} {t : EngineState}
    (h : Relation.ReflTransGen (Inside p) root ⟨.derive text q, t⟩) :
    root.start.parses q < (root.stop p).parses q := by
  induction h using Relation.ReflTransGen.head_induction_on with
  | refl =>
    have hinv : Invariant p Engine.search (t.parses q + 1 ≤ ·.parses q) :=
      invariant_parses q _ keeps_search (sustains_search (sustains_parses q _))
    rw [Activation.stop, Activation.call, Task.run, call_map_state]
    refine hinv.derive_of_parsed ?_
    rw [EngineState.parses_parsed, if_pos rfl]
  | head hin _ ih =>
    obtain ⟨hstart, hstop⟩ := hin.parses_le q
    omega

end Inside

end ContractInference
