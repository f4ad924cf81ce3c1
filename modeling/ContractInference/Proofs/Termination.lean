import ContractInference.Proofs.Failing
import ContractInference.Proofs.Session
import Mathlib.Data.Finset.Card

/-!
# Searches end

A file is opened only if it is there and not in flight, and it is in flight while it is read. So
each search inside a search has fewer files left to open, and no chain of searches is longer than
the files are many, plus one. The bound on the depth of the search is never reached: what stood in
its place would not matter.
-/

namespace ContractInference

namespace Project

variable {p : Project} {s : EngineState} {path : String}

def unread (p : Project) (s : EngineState) : Nat :=
  ((Table.keys p.files).toFinset.filter fun q => s.inFlight.contains q = false).card

theorem unread_le (p : Project) (s : EngineState) : p.unread s ≤ p.files.length := by
  calc p.unread s
      ≤ (Table.keys p.files).toFinset.card := Finset.card_filter_le _ _
    _ ≤ (Table.keys p.files).length := List.toFinset_card_le _
    _ = p.files.length := List.length_map _

theorem unread_push_lt (hf : p.files.isFile path = true)
    (hp : s.inFlight.contains path = false) : p.unread (s.push path) < p.unread s := by
  refine Finset.card_lt_card ⟨fun q hq => ?_, fun hsub => ?_⟩
  · simp only [Finset.mem_filter, EngineState.push, InFlight.contains_add,
      Bool.or_eq_false_iff] at hq ⊢
    exact ⟨hq.1, hq.2.2⟩
  · have hmem : path ∈ (Table.keys p.files).toFinset := by
      simpa [Table.keys, Files.isFile, Table.hasKey] using hf
    have hpush := hsub (Finset.mem_filter.2 ⟨hmem, hp⟩)
    simp [EngineState.push, InFlight.contains_add] at hpush

end Project

theorem Kept.unread {p : Project} {s s' : EngineState} (h : Kept p s s') :
    p.unread s' = p.unread s := by
  simp only [Project.unread, h.contains]

namespace Engine

variable {α β : Type} {p : Project}

/-- Two computations do the same where fewer than a number of files are left. -/
def Agree (p : Project) (n : Nat) (x y : Engine α) : Prop :=
  ∀ ⦃s⦄, p.unread s < n → y.call p s = x.call p s

variable {n : Nat}

theorem agree_foldlM {f g : β → α → Engine β} (hk : ∀ b a, Keeps p (f b a))
    (h : ∀ b a, Agree p n (f b a) (g b a)) (as : List α) (b : β) :
    Agree p n (as.foldlM f b) (as.foldlM g b) := by
  induction as generalizing b with
  | nil => exact fun _ _ => rfl
  | cons a as ih =>
    intro s hs
    rw [List.foldlM_cons, List.foldlM_cons, call_bind, call_bind, h b a hs]
    rcases hc : (f b a).call p s with ⟨_ | b₁, s₁⟩
    · rfl
    · exact ih b₁ (by rwa [((hk b a).of_call hc).unread])

theorem agree_firstFound {f g : α → Engine (Option Schema)} (hk : ∀ a, Keeps p (f a))
    (h : ∀ a, Agree p n (f a) (g a)) (as : List α) :
    Agree p n (firstFound f as) (firstFound g as) := by
  induction as with
  | nil => exact fun _ _ => rfl
  | cons a as ih =>
    intro s hs
    rw [call_firstFound_cons, call_firstFound_cons, h a hs]
    rcases hc : (f a).call p s with ⟨_ | _ | _, s₁⟩
    · rfl
    · exact ih (by rwa [((hk a).of_call hc).unread])
    · rfl

section

variable {search other : Search}
  (hk : ∀ name modulePath fromFile, Keeps p (search name modulePath fromFile))
  (h : ∀ name modulePath fromFile,
    Agree p n (search name modulePath fromFile) (other name modulePath fromFile))
include h

theorem agree_addImport (e : Extraction) (path : String) (schemas : Table String Schema)
    (b : ImportBinding) :
    Agree p n (addImport search e path schemas b) (addImport other e path schemas b) := by
  intro s hs
  rw [call_addImport, call_addImport, call_searchOrReport, call_searchOrReport, h _ _ _ hs]

include hk

theorem agree_derive (text path : String) :
    Agree p n (derive search text path) (derive other text path) := by
  intro s hs
  rw [call_derive, call_derive]
  cases p.extract text path with
  | error e => rfl
  | ok e =>
    have hf := agree_foldlM (keeps_addImport hk e path) (agree_addImport h e path) e.bindings
      e.schemas (s := s.parsed p text path) (by rwa [(Kept.parsed p s text path).unread])
    dsimp only
    rw [hf]

theorem agree_load (path : String) : Agree p n (load search path) (load other path) := by
  intro s hs
  rw [call_load, call_load]
  cases s.cache.get? path with
  | some m => rfl
  | none =>
    dsimp only
    cases p.files.readText path with
    | error reason => rfl
    | ok text =>
      dsimp only
      rw [agree_derive hk h text path (s := s.enter path) hs]

theorem agree_followReExports (m : SchemaMap) (name : String) :
    Agree p n (followReExports search m name) (followReExports other m name) := by
  refine agree_firstFound (keeps_follow hk name m.path) (fun r => ?_) m.reexports
  cases r.forwards name with
  | some source => exact h source r.modulePath m.path
  | none => exact fun _ _ => rfl

theorem agree_searchMap (name path : String) :
    Agree p n (searchMapBy (load search) search name path)
      (searchMapBy (load other) other name path) := by
  intro s hs
  rw [call_searchMapBy, call_searchMapBy, agree_load hk h path hs]
  rcases hl : (load search path).call p s with ⟨_ | _ | m, s₁⟩
  · rfl
  · rfl
  · dsimp only
    cases m.get? name with
    | some schema => rfl
    | none =>
      exact agree_followReExports hk h m name (by rwa [((keeps_load hk path).of_call hl).unread])

/-- A file that is opened is in flight from then on, so one file less is left. -/
theorem agree_searchFile (name fromFile path : String) :
    Agree p (n + 1) (searchFile search name fromFile path)
      (searchFile other name fromFile path) := by
  intro s hs
  rw [searchFile_eq, searchFile_eq, call_searchFileBy, call_searchFileBy]
  split
  · rfl
  · rename_i hp
    split
    · rename_i hf
      have hlt := Project.unread_push_lt hf (Bool.eq_false_iff.2 hp)
      rw [call_inFlight, call_inFlight,
        agree_searchMap hk h name path (s := s.push path) (by omega)]
    · rfl

theorem agree_searchCandidates (name modulePath fromFile : String) :
    Agree p (n + 1) (searchCandidates search name modulePath fromFile)
      (searchCandidates other name modulePath fromFile) := by
  intro s hs
  rw [call_searchCandidates, call_searchCandidates]
  cases Candidates.paths p.settings.resolver modulePath fromFile name p.root with
  | error e => rfl
  | ok candidates =>
    exact agree_firstFound (keeps_searchFile hk name fromFile)
      (agree_searchFile hk h name fromFile) candidates hs

end

/-- The search through at most `depth` files in a row, with another search in the place of those
that would go deeper. -/
def searchOver (below : Search) : Nat → Search
  | 0 => below
  | depth + 1 => searchCandidates (searchOver below depth)

theorem agree_searchOver (below : Search) {depth depth' : Nat} (hd : depth ≤ depth')
    (name modulePath fromFile : String) :
    Agree p depth (searchTo depth name modulePath fromFile)
      (searchOver below depth' name modulePath fromFile) := by
  induction depth generalizing depth' name modulePath fromFile with
  | zero => exact fun s hs => absurd hs (Nat.not_lt_zero _)
  | succ depth ih =>
    obtain ⟨k, rfl⟩ : ∃ k, depth' = k + 1 := ⟨depth' - 1, by omega⟩
    exact agree_searchCandidates (keeps_searchTo depth) (ih (by omega)) _ _ _

theorem searchTo_eq_searchOver (depth : Nat) :
    searchTo depth = searchOver (fun _ _ _ => throw .depthExceeded) depth := by
  induction depth with
  | zero => rfl
  | succ depth ih => rw [searchTo, searchOver, ih]

/-- Whatever stands below it, a search that may go deeper than files are left does not get there. -/
theorem searchOver_eq_search (below : Search) {s : EngineState} {depth : Nat}
    (hd : p.unread s < depth) (name modulePath fromFile : String) :
    (searchOver below depth name modulePath fromFile).call p s =
      (search name modulePath fromFile).call p s := by
  have hlen : p.unread s < p.files.length + 1 := Nat.lt_succ_of_le (p.unread_le s)
  rw [call_search, agree_searchOver below (Nat.le_refl depth) _ _ _ hd]
  rcases Nat.le_total depth (p.files.length + 1) with hle | hle
  · rw [searchTo_eq_searchOver (p.files.length + 1)]
    exact (agree_searchOver _ hle _ _ _ hd).symm
  · rw [searchTo_eq_searchOver depth]
    exact agree_searchOver _ hle _ _ _ hlen

/-- The search is the one that calls itself without a bound. -/
theorem searchCandidates_search (s : EngineState) (name modulePath fromFile : String) :
    (searchCandidates search name modulePath fromFile).call p s =
      (search name modulePath fromFile).call p s := by
  have hlen : p.unread s < p.files.length + 2 :=
    Nat.lt_succ_of_le (Nat.le_succ_of_le (p.unread_le s))
  have hagree : Agree p (p.files.length + 2)
      (searchTo (p.files.length + 2) name modulePath fromFile)
      (searchCandidates search name modulePath fromFile) :=
    agree_searchCandidates (keeps_searchTo _) (fun _ _ _ s _ => call_search p s _ _ _) _ _ _
  rw [hagree hlen, searchTo_eq_searchOver]
  exact searchOver_eq_search _ hlen _ _ _

theorem searchCandidates_eq_search {other : Search} {s : EngineState}
    (h : ∀ name modulePath fromFile t, p.unread t < p.unread s →
      (other name modulePath fromFile).call p t = (search name modulePath fromFile).call p t)
    (name modulePath fromFile : String) :
    (searchCandidates other name modulePath fromFile).call p s =
      (search name modulePath fromFile).call p s := by
  rw [← searchCandidates_search]
  exact agree_searchCandidates (n := p.unread s) keeps_search (fun _ _ _ t ht => h _ _ _ t ht) _ _ _
    (Nat.lt_succ_self _)

theorem searchFileBy_eq_searchFile {opened : String → Engine (Option SchemaMap)} {search : Search}
    {name fromFile path : String} {s : EngineState}
    (h : p.files.isFile path = true → s.inFlight.contains path = false →
      (opened path).call p (s.push path) = (load search path).call p (s.push path)) :
    (searchFileBy opened search name fromFile path).call p s =
      (searchFile search name fromFile path).call p s := by
  rw [searchFile_eq, call_searchFileBy, call_searchFileBy]
  split
  · rfl
  · rename_i hp
    split
    · rename_i hf
      rw [call_inFlight, call_inFlight, call_searchMapBy, call_searchMapBy,
        h hf (Bool.eq_false_iff.2 hp)]
    · rfl

theorem fails_search (name modulePath fromFile : String) :
    Fails p p.Raises (search name modulePath fromFile) := by
  have hover : ∀ depth name modulePath fromFile,
      Fails p p.Raises (searchOver (fun _ _ _ => return none) depth name modulePath fromFile) := by
    intro depth
    induction depth with
    | zero => exact fun _ _ _ => fails_pure none
    | succ depth ih => exact fails_searchCandidates ih
  intro s e s' hc
  rw [← searchOver_eq_search (fun _ _ _ => return none) (Nat.lt_succ_of_le (p.unread_le s))] at hc
  exact hover _ _ _ _ hc

theorem fails_resolveSchema (name modulePath fromFile : String) :
    Fails p p.Raises (resolveSchema name modulePath fromFile) :=
  fails_searchOrReport fails_search name modulePath (Path.key fromFile)

theorem fails_scanFile (text path : String) :
    Fails p (fun e => p.extract text (Path.key path) = .error e ∨ p.Raises e)
      (scanFile text path) := by
  have hsearch : ∀ name modulePath fromFile,
      Fails p (fun e => p.extract text (Path.key path) = .error e ∨ p.Raises e)
        (search name modulePath fromFile) := fun _ _ _ _ _ _ hc => .inr (fails_search _ _ _ hc)
  intro s e s' hc
  rw [call_scanFile, call_inFlight] at hc
  rcases hd : (derive search text (Path.key path)).call p (s.push (Path.key path)) with ⟨_ | m, s₁⟩
  · rw [hd] at hc
    cases hc
    exact fails_derive hsearch (fun _ he => .inl he) hd
  · rw [hd] at hc
    cases hc

/-- Searches end. A file is opened only if it is there and not in flight, and then fewer files are
left; the searches inside a search are asked only where fewer files are left; no more searches are
inside each other than files are left, plus one, whatever stands for those that would go deeper;
and a call that fails does so with what a text or a path template raises. -/
theorem search_terminates (p : Project) (s : EngineState) :
    (∀ {opened : String → Engine (Option SchemaMap)} {name fromFile path : String},
      (p.files.isFile path = true → s.inFlight.contains path = false →
        p.unread (s.push path) < p.unread s →
          (opened path).call p (s.push path) = (load search path).call p (s.push path)) →
      (searchFileBy opened search name fromFile path).call p s =
        (searchFile search name fromFile path).call p s) ∧
    (∀ {other : Search} {name modulePath fromFile : String},
      (∀ name modulePath fromFile t, p.unread t < p.unread s →
        (other name modulePath fromFile).call p t = (search name modulePath fromFile).call p t) →
      (searchCandidates other name modulePath fromFile).call p s =
        (search name modulePath fromFile).call p s) ∧
    p.unread s ≤ p.files.length ∧
    (∀ {below : Search} {depth : Nat} {name modulePath fromFile : String}, p.unread s < depth →
      (searchOver below depth name modulePath fromFile).call p s =
        (search name modulePath fromFile).call p s) ∧
    (∀ {text path e s'}, (scanFile text path).call p s = (.error e, s') →
      (p.extract text (Path.key path) = .error e ∨ p.Raises e) ∧ e ≠ .depthExceeded) ∧
    (∀ {name modulePath fromFile e s'},
      (resolveSchema name modulePath fromFile).call p s = (.error e, s') →
        p.Raises e ∧ e ≠ .depthExceeded) := by
  refine ⟨fun h => ?_, fun h => ?_, p.unread_le s, fun hd => ?_, fun hc => ?_, fun hc => ?_⟩
  · exact searchFileBy_eq_searchFile fun hf hp => h hf hp (Project.unread_push_lt hf hp)
  · exact searchCandidates_eq_search h _ _ _
  · exact searchOver_eq_search _ hd _ _ _
  · have hraised := fails_scanFile _ _ hc
    refine ⟨hraised, ?_⟩
    rcases hraised with he | he
    · cases p.tooLong_extract _ _ he
      exact nofun
    · exact he.ne_depthExceeded
  · have hraised := fails_resolveSchema _ _ _ hc
    exact ⟨hraised, hraised.ne_depthExceeded⟩

/-- Two barrels that forward each other, one of which forwards itself too, and a template that
cannot be filled in. -/
def barrels : Project :=
  { Project.ofTexts [("/app/a.ts", "export * from './a';export * from './b'"),
      ("/app/b.ts", "export * from './a'")] with
    settings := { resolver := { fallbackCandidates := ["\x7bkind\x7d"] } } }

def routeText : String := "import {X} from 'lib';X.parse(1)"

/-- A search that refuses to be asked where two files are left. -/
def onceOpened : Search := fun name modulePath fromFile => do
  if (← read).unread (← get) < 2 then search name modulePath fromFile
  else throw .depthExceeded

theorem search_terminates_barrels :
    barrels.unread {} = 2 ∧
      (searchFileBy (load search) search "X" "/app/m.ts" "/app/a.ts").call barrels {} =
        (searchFile search "X" "/app/m.ts" "/app/a.ts").call barrels {} ∧
      (searchCandidates onceOpened "X" "./a" "/app/m.ts").call barrels {} =
        (search "X" "./a" "/app/m.ts").call barrels {} ∧
      (searchOver (fun _ _ _ => throw .depthExceeded) 3 "X" "./a" "/app/m.ts").call barrels {} =
        (search "X" "./a" "/app/m.ts").call barrels {} ∧
      ((search "X" "./a" "/app/m.ts").call barrels {}).1.toOption.map Option.isNone = some true ∧
      ((search "X" "./a" "/app/m.ts").call barrels {}).2.stats.cyclesBroken = 2 ∧
      ∃ e s', (scanFile routeText "/app/m.ts").call barrels {} = (.error e, s') ∧
        e ≠ .depthExceeded := by
  obtain ⟨hopen, hnested, -, hdeep, hscan, -⟩ := search_terminates barrels {}
  have htwo : barrels.unread {} = 2 := by
    decide +kernel
  have hrun : ((search "X" "./a" "/app/m.ts").call barrels {}).1.toOption.map Option.isNone =
        some true ∧
      ((search "X" "./a" "/app/m.ts").call barrels {}).2.stats.cyclesBroken = 2 ∧
      ((scanFile routeText "/app/m.ts").call barrels {}).1.toOption.isNone := by
    decide +kernel
  have honce : ∀ name modulePath fromFile t, barrels.unread t < barrels.unread {} →
      (onceOpened name modulePath fromFile).call barrels t =
        (search name modulePath fromFile).call barrels t := by
    intro name modulePath fromFile t ht
    rw [htwo] at ht
    rw [onceOpened, call_bind, call_read]
    dsimp only
    rw [call_bind, call_get]
    dsimp only
    rw [if_pos ht]
  refine ⟨htwo, hopen fun _ _ _ => rfl, hnested honce, hdeep (by rw [htwo]; decide), hrun.1,
    hrun.2.1, ?_⟩
  rcases hc : (scanFile routeText "/app/m.ts").call barrels {} with ⟨e | _, s'⟩
  · exact ⟨e, s', rfl, (hscan hc).2⟩
  · rw [hc] at hrun
    cases hrun.2.2

end Engine

end ContractInference
