import ContractInference.Proofs.Call

/-!
# What a search leaves as it was

A search gives the chain of files back as it found it and only adds to the cache, also when it
fails; for the files of the chain it adds nothing. How far up the chain it ran into files can be
read from its events.
-/

namespace ContractInference

/-- A depth of the chain that is there and lies above another one. -/
def Reaches (depth? : Option Nat) (depth : Nat) : Prop := ∃ n, depth? = some n ∧ n < depth

@[simp] theorem not_reaches_none (depth : Nat) : ¬ Reaches none depth := by
  simp [Reaches]

@[simp] theorem reaches_some (n depth : Nat) : Reaches (some n) depth ↔ n < depth := by
  simp [Reaches]

theorem Reaches.mono {a : Option Nat} {d e : Nat} (h : Reaches a d) (hle : d ≤ e) :
    Reaches a e := by
  obtain ⟨n, hn, hlt⟩ := h
  exact ⟨n, hn, by omega⟩

theorem reaches_shallower (a b : Option Nat) (depth : Nat) :
    Reaches (shallower a b) depth ↔ Reaches a depth ∨ Reaches b depth := by
  rcases a with _ | m
  · simp [shallower]
  rcases b with _ | n
  · simp [shallower]
  · simp only [shallower, reaches_some]
    omega

namespace InFlight

theorem cutShort_eq_true_iff (f : InFlight) (frame : Frame) :
    f.cutShort frame = true ↔ Reaches f.floor frame.depth := by
  unfold cutShort
  split <;> simp_all

theorem contains_eq_isSome (f : InFlight) (path : String) :
    f.contains path = (Table.get? f.depths path).isSome :=
  Table.hasKey_eq_isSome f.depths path

theorem depths_add {f : InFlight} {path : String} (h : f.contains path = false) :
    (f.add path).depths = f.depths ++ [(path, f.size)] := by
  have hk : Table.hasKey f.depths path = false := h
  simp [add, Table.putNew, hk]

theorem get?_depths_add {f : InFlight} {path : String} (h : f.contains path = false) (q : String) :
    Table.get? (f.add path).depths q =
      if path = q then some f.size else Table.get? f.depths q := by
  rw [contains_eq_isSome] at h
  rw [add, Table.get?_putNew]
  split
  · simp_all
  · rfl

theorem reaches_depth_add {f : InFlight} {path : String} (h : f.contains path = false) (q : String)
    {depth : Nat} (hd : depth ≤ f.size) :
    Reaches (Table.get? (f.add path).depths q) depth ↔ Reaches (Table.get? f.depths q) depth := by
  rw [get?_depths_add h]
  split
  · subst q
    rw [contains_eq_isSome, Option.isSome_eq_false_iff, Option.isNone_iff_eq_none] at h
    simp [h]
    omega
  · rfl

theorem depths_discard_add {f : InFlight} {path : String} (h : f.contains path = false) :
    (f.add path).depths.filter (·.1 ≠ path) = f.depths := by
  rw [depths_add h, List.filter_append, List.filter_eq_self.2]
  · simp
  · intro e he
    simp only [contains, Table.hasKey, List.any_eq_false, decide_eq_true_eq] at h
    simpa using h e he

end InFlight

theorem EngineState.floor_pop {s : EngineState} {path : String}
    (h : (s.pop path).inFlight.depths ≠ []) :
    (s.pop path).inFlight.floor = s.inFlight.floor := by
  simp only [pop, InFlight.discard] at h ⊢
  rw [if_neg (by rwa [List.isEmpty_iff])]

theorem EngineState.frame_depth {s : EngineState} {path : String}
    (h : s.inFlight.contains path = false) :
    ((s.push path).frame path).depth = s.inFlight.size := by
  simp [frame, push, InFlight.enter, InFlight.get?_depths_add h]

/-- The file that an event says was run into. -/
def Event.met? : Event → Option String
  | .cycle path _ _ => some path
  | _ => none

/-- The later state has the same chain, no less cached, and a floor that its new events tell. -/
structure Kept (p : Project) (s s' : EngineState) : Prop where
  depths : s'.inFlight.depths = s.inFlight.depths
  cached : ∀ {path m}, s.cache.get? path = some m → s'.cache.get? path = some m
  stored : ∀ {path m}, s'.cache.get? path = some m →
    s.cache.get? path = some m ∨ ∃ text, p.files.readText path = .ok text
  trail : ∃ new, s'.events = s.events ++ new ∧ ∀ depth ≤ s.inFlight.size,
    (Reaches s'.inFlight.floor depth ↔ Reaches s.inFlight.floor depth ∨
      ∃ path ∈ new.filterMap Event.met?, Reaches (Table.get? s.inFlight.depths path) depth)

namespace Kept

variable {p : Project} {s s₁ s₂ : EngineState} {path : String}

theorem refl (p : Project) (s : EngineState) : Kept p s s :=
  ⟨rfl, id, .inl, [], by simp⟩

theorem size (h : Kept p s s₁) : s₁.inFlight.size = s.inFlight.size :=
  congrArg List.length h.depths

theorem contains (h : Kept p s s₁) (path : String) :
    s₁.inFlight.contains path = s.inFlight.contains path := by
  simp only [InFlight.contains, h.depths]

theorem trans (h : Kept p s s₁) (h₁ : Kept p s₁ s₂) : Kept p s s₂ := by
  obtain ⟨new, he, hf⟩ := h.trail
  obtain ⟨new₁, he₁, hf₁⟩ := h₁.trail
  refine ⟨h₁.depths.trans h.depths, fun hm => h₁.cached (h.cached hm), ?_, new ++ new₁, ?_, ?_⟩
  · intro path m hm
    rcases h₁.stored hm with hm | hr
    · exact h.stored hm
    · exact .inr hr
  · rw [he₁, he, List.append_assoc]
  · intro depth hd
    rw [hf₁ depth (by rw [h.size]; exact hd), hf depth hd, h.depths, List.filterMap_append]
    simp only [List.mem_append]
    constructor
    · rintro ((hr | ⟨q, hq, hr⟩) | ⟨q, hq, hr⟩)
      · exact .inl hr
      · exact .inr ⟨q, .inl hq, hr⟩
      · exact .inr ⟨q, .inr hq, hr⟩
    · rintro (hr | ⟨q, hq | hq, hr⟩)
      · exact .inl (.inl hr)
      · exact .inl (.inr ⟨q, hq, hr⟩)
      · exact .inr ⟨q, hq, hr⟩

theorem reaches (h : Kept p s s₁) {depth : Nat} (hd : depth ≤ s.inFlight.size)
    (hr : Reaches s.inFlight.floor depth) : Reaches s₁.inFlight.floor depth := by
  obtain ⟨new, -, hf⟩ := h.trail
  exact (hf depth hd).2 (.inl hr)

theorem event_mem (h : Kept p s s₁) {e : Event} (he : e ∈ s.events) : e ∈ s₁.events := by
  obtain ⟨new, hn, -⟩ := h.trail
  rw [hn]
  exact List.mem_append_left _ he

theorem note (p : Project) (s : EngineState) (f : Stats → Stats) {new : List Event}
    (h : new.filterMap Event.met? = []) : Kept p s (s.note f new) :=
  ⟨rfl, id, .inl, new, rfl, by simp [h]⟩

theorem parsed (p : Project) (s : EngineState) (text path : String) :
    Kept p s (s.parsed p text path) := by
  obtain ⟨f, new, h, -, rfl | ⟨fault, rfl⟩⟩ := s.parsed_eq_note p text path
  · rw [h]
    exact note p s f rfl
  · rw [h]
    exact note p s f rfl

theorem meet (p : Project) (s : EngineState) (path name fromFile : String) :
    Kept p s (s.meet path name fromFile) := by
  refine ⟨rfl, id, .inl, [.cycle path name fromFile], rfl, fun depth _ => ?_⟩
  simp [EngineState.meet, InFlight.noteCycle, reaches_shallower, Event.met?]

theorem depths_pop (hp : s.inFlight.contains path = false) (h : Kept p (s.push path) s₁) :
    (s₁.pop path).inFlight.depths = s.inFlight.depths := by
  simp only [EngineState.pop, InFlight.discard, h.depths]
  exact InFlight.depths_discard_add hp

/-- Taking a file off forgets nothing, unless the chain is empty then. -/
theorem reaches_pop (hp : s.inFlight.contains path = false) (h : Kept p (s.push path) s₁)
    {depth : Nat} (hle : depth ≤ s.inFlight.size) :
    Reaches (s₁.pop path).inFlight.floor depth ↔ Reaches s₁.inFlight.floor depth := by
  rcases Nat.eq_zero_or_pos depth with rfl | hpos
  · simp [Reaches]
  · have hne : (s₁.pop path).inFlight.depths ≠ [] := by
      rw [h.depths_pop hp]
      exact List.ne_nil_of_length_pos (Nat.lt_of_lt_of_le hpos hle)
    rw [EngineState.floor_pop hne]

theorem pop (hp : s.inFlight.contains path = false) (h : Kept p (s.push path) s₁) :
    Kept p s (s₁.pop path) := by
  obtain ⟨new, he, hf⟩ := h.trail
  have hsize : (s.push path).inFlight.size = s.inFlight.size + 1 := by
    simp [EngineState.push, InFlight.size, InFlight.depths_add hp]
  refine ⟨h.depths_pop hp, h.cached, h.stored, new, he, fun depth hle => ?_⟩
  rw [h.reaches_pop hp hle, hf depth (by omega)]
  simp only [EngineState.push, InFlight.reaches_depth_add hp _ hle]
  rfl

theorem exit (h : Kept p (s.enter path) s₁) : Kept p s (s₁.exit (s.frame path)) := by
  obtain ⟨new, he, hf⟩ := h.trail
  refine ⟨h.depths, h.cached, h.stored, new, he, fun depth hle => ?_⟩
  have hin := hf depth hle
  simp only [EngineState.enter, InFlight.enter, not_reaches_none, false_or] at hin
  simp only [EngineState.exit, EngineState.frame, InFlight.exit, InFlight.enter,
    reaches_shallower, hin]

theorem store (h : Kept p s s₁) {text : String} (hr : p.files.readText path = .ok text)
    (m : SchemaMap) :
    Kept p s { s₁ with cache := (s₁.cache.putIfAbsent path m).2 } := by
  refine ⟨h.depths, fun {q m'} hm => ?_, fun {q m'} hm => ?_, h.trail⟩
  · rw [Cache.get?_putIfAbsent, h.cached hm]
    simp
  · rw [Cache.get?_putIfAbsent] at hm
    split at hm
    · subst q
      exact .inr ⟨text, hr⟩
    · exact h.stored hm

end Kept

namespace Engine

variable {α β : Type} {p : Project}

def Keeps (p : Project) (x : Engine α) : Prop := ∀ s, Kept p s (x.call p s).2

theorem Keeps.of_call {x : Engine α} (h : Keeps p x) {s s' : EngineState} {r : Except Failure α}
    (hc : x.call p s = (r, s')) : Kept p s s' := by
  have := h s
  rwa [hc] at this

theorem keeps_pure (a : α) : Keeps p (pure a : Engine α) := fun s => Kept.refl p s

theorem Keeps.bind {x : Engine α} {f : α → Engine β} (hx : Keeps p x) (hf : ∀ a, Keeps p (f a)) :
    Keeps p (x >>= f) := by
  intro s
  rw [call_bind]
  rcases hc : x.call p s with ⟨_ | a, s₁⟩
  · exact hx.of_call hc
  · exact (hx.of_call hc).trans (hf a s₁)

theorem keeps_foldlM {f : β → α → Engine β} (hf : ∀ b a, Keeps p (f b a)) (as : List α) (b : β) :
    Keeps p (as.foldlM f b) := by
  induction as generalizing b with
  | nil => exact keeps_pure b
  | cons a as ih =>
    rw [List.foldlM_cons]
    exact (hf b a).bind ih

theorem keeps_firstFound {place : α → Engine (Option Schema)} (h : ∀ a, Keeps p (place a))
    (as : List α) : Keeps p (firstFound place as) := by
  induction as with
  | nil => exact keeps_pure none
  | cons a as ih =>
    refine (h a).bind fun found => ?_
    cases found with
    | some schema => exact keeps_pure _
    | none => exact ih

theorem keeps_inFlight {path : String} {x : Engine α} (hx : Keeps p x) {s : EngineState}
    (hp : s.inFlight.contains path = false) : Kept p s ((inFlight path x).call p s).2 := by
  rw [call_inFlight]
  exact (hx (s.push path)).pop hp

section

variable {search : Search}
  (h : ∀ name modulePath fromFile, Keeps p (search name modulePath fromFile))
include h

theorem keeps_searchOrReport (name modulePath fromFile : String) :
    Keeps p (searchOrReport search name modulePath fromFile) := by
  intro s
  rw [call_searchOrReport]
  have hs := h name modulePath fromFile
  rcases hc : (search name modulePath fromFile).call p s with ⟨_ | _ | _, s₁⟩
  · exact hs.of_call hc
  · dsimp only
    exact (hs.of_call hc).trans (.note p s₁ _ rfl)
  · exact hs.of_call hc

theorem keeps_addImport (e : Extraction) (path : String) (schemas : Table String Schema)
    (b : ImportBinding) : Keeps p (addImport search e path schemas b) := by
  unfold addImport
  split
  · refine (keeps_searchOrReport h _ _ _).bind fun found => ?_
    cases found <;> exact keeps_pure _
  · exact keeps_pure _

theorem keeps_derive (text path : String) : Keeps p (derive search text path) := by
  intro s
  rw [call_derive]
  have hs := Kept.parsed p s text path
  cases p.extract text path with
  | error e =>
    dsimp only
    exact hs
  | ok e =>
    have hf := keeps_foldlM (keeps_addImport h e path) e.bindings e.schemas
    dsimp only
    rcases hc : (e.bindings.foldlM (addImport search e path) e.schemas).call p _ with ⟨_ | _, s₁⟩
    · exact hs.trans (hf.of_call hc)
    · exact hs.trans (hf.of_call hc)

theorem keeps_load (path : String) : Keeps p (load search path) := by
  intro s
  rw [call_load]
  cases s.cache.get? path with
  | some m =>
    dsimp only
    exact .note p s _ rfl
  | none =>
    dsimp only
    cases hr : p.files.readText path with
    | error reason =>
      dsimp only
      exact .note p s _ rfl
    | ok text =>
      dsimp only
      rcases hc : (derive search text path).call p (s.enter path) with ⟨_ | m, s₁⟩
      · exact ((keeps_derive h text path).of_call hc).exit
      · have hd := ((keeps_derive h text path).of_call hc).exit
        dsimp only
        split
        · exact hd.trans (.note p _ _ rfl)
        · exact hd.store hr m

theorem keeps_follow (name path : String) (r : ReExport) :
    Keeps p (match r.forwards name with
      | some source => search source r.modulePath path
      | none => return none) := by
  cases r.forwards name with
  | some source => exact h source r.modulePath path
  | none => exact keeps_pure none

theorem keeps_followReExports (m : SchemaMap) (name : String) :
    Keeps p (followReExports search m name) :=
  keeps_firstFound (keeps_follow h name m.path) m.reexports

theorem keeps_searchMapBy {load : String → Engine (Option SchemaMap)}
    (hl : ∀ path, Keeps p (load path)) (name path : String) :
    Keeps p (searchMapBy load search name path) := by
  refine (hl path).bind fun found => ?_
  cases found with
  | none => exact keeps_pure none
  | some m =>
    dsimp only
    cases m.get? name with
    | some schema => exact keeps_pure _
    | none => exact keeps_followReExports h m name

theorem keeps_searchFileBy {load : String → Engine (Option SchemaMap)}
    (hl : ∀ path, Keeps p (load path)) (name fromFile path : String) :
    Keeps p (searchFileBy load search name fromFile path) := by
  intro s
  rw [call_searchFileBy]
  split
  · exact .meet p s path name fromFile
  · rename_i hp
    split
    · exact keeps_inFlight (keeps_searchMapBy h hl name path) (by simpa using hp)
    · exact .refl p s

theorem keeps_searchFile (name fromFile path : String) :
    Keeps p (searchFile search name fromFile path) :=
  keeps_searchFileBy h (keeps_load h) name fromFile path

theorem keeps_searchCandidates (name modulePath fromFile : String) :
    Keeps p (searchCandidates search name modulePath fromFile) := by
  intro s
  rw [call_searchCandidates]
  cases Candidates.paths p.settings.resolver modulePath fromFile name p.root with
  | error e => exact .refl p s
  | ok candidates => exact keeps_firstFound (keeps_searchFile h name fromFile) candidates s

end

theorem keeps_searchTo (depth : Nat) (name modulePath fromFile : String) :
    Keeps p (searchTo depth name modulePath fromFile) := by
  induction depth generalizing name modulePath fromFile with
  | zero => exact fun s => .refl p s
  | succ depth ih => exact keeps_searchCandidates ih name modulePath fromFile

theorem keeps_search (name modulePath fromFile : String) :
    Keeps p (search name modulePath fromFile) := by
  intro s
  rw [call_search]
  exact keeps_searchTo _ name modulePath fromFile s

/-- While a file is in flight, nothing is stored for it. -/
def Spares (p : Project) (q : String) (x : Engine α) : Prop :=
  ∀ s, s.inFlight.contains q = true → (x.call p s).2.cache.get? q = s.cache.get? q

variable {q : String}

theorem Spares.of_call {x : Engine α} (h : Spares p q x) {s s' : EngineState}
    {r : Except Failure α} (hq : s.inFlight.contains q = true) (hc : x.call p s = (r, s')) :
    s'.cache.get? q = s.cache.get? q := by
  have := h s hq
  rwa [hc] at this

theorem spares_pure (a : α) : Spares p q (pure a : Engine α) := fun _ _ => rfl

theorem Spares.bind {x : Engine α} {f : α → Engine β} (hx : Spares p q x) (hk : Keeps p x)
    (hf : ∀ a, Spares p q (f a)) : Spares p q (x >>= f) := by
  intro s hq
  rw [call_bind]
  rcases hc : x.call p s with ⟨_ | a, s₁⟩
  · exact hx.of_call hq hc
  · have hq₁ : s₁.inFlight.contains q = true := by rwa [(hk.of_call hc).contains]
    exact (hf a s₁ hq₁).trans (hx.of_call hq hc)

theorem spares_foldlM {f : β → α → Engine β} (hf : ∀ b a, Spares p q (f b a))
    (hk : ∀ b a, Keeps p (f b a)) (as : List α) (b : β) : Spares p q (as.foldlM f b) := by
  induction as generalizing b with
  | nil => exact spares_pure b
  | cons a as ih =>
    rw [List.foldlM_cons]
    exact (hf b a).bind (hk b a) ih

theorem spares_firstFound {place : α → Engine (Option Schema)} (h : ∀ a, Spares p q (place a))
    (hk : ∀ a, Keeps p (place a)) (as : List α) : Spares p q (firstFound place as) := by
  induction as with
  | nil => exact spares_pure none
  | cons a as ih =>
    refine (h a).bind (hk a) fun found => ?_
    cases found with
    | some schema => exact spares_pure _
    | none => exact ih

section

variable {search : Search}
  (hk : ∀ name modulePath fromFile, Keeps p (search name modulePath fromFile))
  (h : ∀ name modulePath fromFile, Spares p q (search name modulePath fromFile))
include hk h

theorem spares_addImport (e : Extraction) (path : String) (schemas : Table String Schema)
    (b : ImportBinding) : Spares p q (addImport search e path schemas b) := by
  have hr : Spares p q (searchOrReport search b.exportedName b.modulePath path) := by
    intro s hq
    rw [call_searchOrReport]
    have hs := (h b.exportedName b.modulePath path) s hq
    rcases hc : (search b.exportedName b.modulePath path).call p s with ⟨_ | _ | _, s₁⟩ <;>
    · rw [hc] at hs
      exact hs
  unfold addImport
  split
  · refine hr.bind (keeps_searchOrReport hk _ _ _) fun found => ?_
    cases found <;> exact spares_pure _
  · exact spares_pure _

theorem spares_derive (text path : String) : Spares p q (derive search text path) := by
  intro s hq
  rw [call_derive]
  cases p.extract text path with
  | error e =>
    dsimp only
    rw [EngineState.parsed_cache]
  | ok e =>
    have hf := spares_foldlM (spares_addImport hk h e path) (keeps_addImport hk e path) e.bindings
      e.schemas (s.parsed p text path) (by rwa [EngineState.parsed_inFlight])
    rw [EngineState.parsed_cache] at hf
    dsimp only
    rcases hc : (e.bindings.foldlM (addImport search e path) e.schemas).call p _ with ⟨_ | _, s₁⟩
    · rw [hc] at hf
      exact hf
    · rw [hc] at hf
      exact hf

theorem spares_load {path : String} (hne : path ≠ q) : Spares p q (load search path) := by
  intro s hq
  rw [call_load]
  cases s.cache.get? path with
  | some m => rfl
  | none =>
    dsimp only
    cases p.files.readText path with
    | error reason => rfl
    | ok text =>
      have hd := spares_derive hk h text path (s.enter path) hq
      dsimp only
      rcases hc : (derive search text path).call p (s.enter path) with ⟨_ | m, s₁⟩
      · rw [hc] at hd
        exact hd
      · rw [hc] at hd
        dsimp only
        split
        · exact hd
        · dsimp only
          rw [Cache.get?_putIfAbsent, if_neg hne]
          exact hd

theorem spares_searchFile (name fromFile path : String) :
    Spares p q (searchFile search name fromFile path) := by
  intro s hq
  rw [searchFile_eq, call_searchFileBy]
  split
  · rfl
  · rename_i hp
    -- Only a file that is not in flight is opened, so the file that is loaded is another one.
    have hne : path ≠ q := by
      rintro rfl
      exact hp hq
    have hpush : (s.push path).inFlight.contains q = true := by
      rw [EngineState.push, InFlight.contains_add, hq, Bool.or_true]
    have hm : Spares p q (searchMapBy (load search) search name path) := by
      refine (spares_load hk h hne).bind (keeps_load hk path) fun found => ?_
      cases found with
      | none => exact spares_pure none
      | some m =>
        dsimp only
        cases m.get? name with
        | some schema => exact spares_pure _
        | none =>
          refine spares_firstFound (fun r => ?_) (keeps_follow hk name m.path) m.reexports
          cases r.forwards name with
          | some source => exact h source r.modulePath m.path
          | none => exact spares_pure none
    split
    · rw [call_inFlight]
      exact hm (s.push path) hpush
    · rfl

end

theorem spares_searchTo (depth : Nat) (name modulePath fromFile : String) :
    Spares p q (searchTo depth name modulePath fromFile) := by
  induction depth generalizing name modulePath fromFile with
  | zero => exact fun _ _ => rfl
  | succ depth ih =>
    intro s hq
    rw [searchTo, call_searchCandidates]
    cases Candidates.paths p.settings.resolver modulePath fromFile name p.root with
    | error e => rfl
    | ok candidates =>
      exact spares_firstFound (spares_searchFile (keeps_searchTo depth) ih name fromFile)
        (keeps_searchFile (keeps_searchTo depth) name fromFile) candidates s hq

end Engine

end ContractInference
