import ContractInference.Resolution.Engine

/-!
# Calls

What a call of each operation gives, and how it leaves the engine. Later proofs take an operation
apart by its equation here and do not unfold it.
-/

namespace ContractInference

/-- What a text says by itself. A text that does not parse says nothing. -/
def Project.extract (p : Project) (text path : String) : Except Failure Extraction :=
  match SourceTree.parse p.frontEnd p.settings.parsing.maxErrorRatio (Path.ofString path) text with
  | .error _ => .ok {}
  | .ok tree => Extraction.ofTree p.settings tree

/-- The counters after one more text was parsed. -/
def Stats.counted (t : Stats) (path : String) : Stats :=
  { t with
    filesParsed := t.filesParsed + 1
    parseCounts := Table.put t.parseCounts path ((Table.get? t.parseCounts path).getD 0 + 1) }

namespace EngineState

def note (s : EngineState) (f : Stats → Stats) (new : List Event) : EngineState :=
  { s with stats := f s.stats, events := s.events ++ new }

def push (s : EngineState) (path : String) : EngineState :=
  { s with inFlight := s.inFlight.add path }

def pop (s : EngineState) (path : String) : EngineState :=
  { s with inFlight := s.inFlight.discard path }

def enter (s : EngineState) (path : String) : EngineState :=
  { s with inFlight := (s.inFlight.enter path).2 }

def frame (s : EngineState) (path : String) : Frame := (s.inFlight.enter path).1

def exit (s : EngineState) (frame : Frame) : EngineState :=
  { s with inFlight := s.inFlight.exit frame }

def meet (s : EngineState) (path name fromFile : String) : EngineState :=
  { s with inFlight := s.inFlight.noteCycle path }.note
    (fun t => { t with cyclesBroken := t.cyclesBroken + 1 }) [.cycle path name fromFile]

def parsed (s : EngineState) (p : Project) (text path : String) : EngineState :=
  match SourceTree.parse p.frontEnd p.settings.parsing.maxErrorRatio (Path.ofString path) text with
  | .error fault =>
    s.note (fun t => { t.counted path with parseFailures := t.parseFailures + 1 })
      [.parseFailed path fault]
  | .ok _ => { s with stats := s.stats.counted path }

@[simp] theorem note_cache (s : EngineState) (f : Stats → Stats) (new : List Event) :
    (s.note f new).cache = s.cache := rfl

@[simp] theorem note_inFlight (s : EngineState) (f : Stats → Stats) (new : List Event) :
    (s.note f new).inFlight = s.inFlight := rfl

theorem parsed_eq_note (s : EngineState) (p : Project) (text path : String) :
    ∃ f new, s.parsed p text path = s.note f new ∧ (∀ t, (f t).cyclesBroken = t.cyclesBroken) ∧
      (new = [] ∨ ∃ fault, new = [.parseFailed path fault]) := by
  unfold parsed
  split
  · exact ⟨_, _, rfl, fun _ => rfl, .inr ⟨_, rfl⟩⟩
  · exact ⟨(·.counted path), [], by simp [note], fun _ => rfl, .inl rfl⟩

@[simp] theorem parsed_cache (s : EngineState) (p : Project) (text path : String) :
    (s.parsed p text path).cache = s.cache := by
  unfold parsed; split <;> rfl

@[simp] theorem parsed_inFlight (s : EngineState) (p : Project) (text path : String) :
    (s.parsed p text path).inFlight = s.inFlight := by
  unfold parsed; split <;> rfl

end EngineState

namespace Engine

variable {α β : Type} (p : Project) (s : EngineState)

theorem call_bind (x : Engine α) (f : α → Engine β) :
    (x >>= f).call p s =
      match x.call p s with
      | (.ok a, s') => (f a).call p s'
      | (.error e, s') => (.error e, s') := by
  simp only [call, ReaderT.run_bind, ExceptT.run_bind, StateT.run_bind]
  rcases (x.run p).run.run s with ⟨_ | _, _⟩ <;> rfl

theorem call_tryCatch (x : Engine α) (f : Failure → Engine α) :
    (tryCatch x f).call p s =
      match x.call p s with
      | (.ok a, s') => (.ok a, s')
      | (.error e, s') => (f e).call p s' := by
  have h : (tryCatch x f).run p = tryCatch (x.run p) fun e => (f e).run p := rfl
  simp only [call, h, ExceptT.run_tryCatch, StateT.run_bind]
  rcases (x.run p).run.run s with ⟨_ | _, _⟩ <;> rfl

theorem call_bind_ok {x : Engine α} {f : α → Engine β} {b : β} {s' : EngineState} {s}
    (h : (x >>= f).call p s = (.ok b, s')) :
    ∃ a s₁, x.call p s = (.ok a, s₁) ∧ (f a).call p s₁ = (.ok b, s') := by
  rw [call_bind] at h
  rcases hx : x.call p s with ⟨_ | a, s₁⟩
  · simp [hx] at h
  · exact ⟨a, s₁, rfl, by simpa [hx] using h⟩

@[simp] theorem call_read : (read : Engine Project).call p s = (.ok p, s) := rfl

@[simp] theorem call_get : (get : Engine EngineState).call p s = (.ok s, s) := rfl

theorem call_ofExcept (x : Except Failure α) : (ofExcept x).call p s = (x, s) := by
  cases x <;> rfl

theorem call_inFlight (path : String) (x : Engine α) :
    (inFlight path x).call p s =
      ((x.call p (s.push path)).1, (x.call p (s.push path)).2.pop path) := by
  have hp : (updateInFlight (·.add path)).call p s = (.ok (), s.push path) := rfl
  rw [inFlight, call_bind, hp]
  dsimp only
  rw [call_bind, call_tryCatch, call_bind]
  rcases x.call p (s.push path) with ⟨_ | _, _⟩ <;> rfl

theorem call_tracked (path : String) (x : Engine α) :
    (tracked path x).call p s =
      match x.call p (s.enter path) with
      | (.ok a, s₁) =>
        (.ok (a, s₁.inFlight.cutShort (s.frame path)), s₁.exit (s.frame path))
      | (.error e, s₁) => (.error e, s₁.exit (s.frame path)) := by
  have he : (updateInFlight fun _ => (s.inFlight.enter path).2).call p s = (.ok (), s.enter path) :=
    rfl
  rw [tracked, call_bind, call_get]
  dsimp only
  rw [call_bind, he]
  dsimp only
  rw [call_bind, call_tryCatch, call_bind]
  rcases x.call p (s.enter path) with ⟨_ | _, _⟩ <;> rfl

theorem call_searchOrReport (search : Search) (name modulePath fromFile : String) :
    (searchOrReport search name modulePath fromFile).call p s =
      match (search name modulePath fromFile).call p s with
      | (.ok none, s') =>
        (.ok none, s'.note (fun t => { t with unresolved := t.unresolved + 1 })
          [.unresolved name modulePath fromFile])
      | r => r := by
  simp only [searchOrReport, call_bind]
  rcases (search name modulePath fromFile).call p s with ⟨_ | _ | _, _⟩ <;> rfl

theorem call_addImport (search : Search) (e : Extraction) (path : String)
    (schemas : Table String Schema) (b : ImportBinding) :
    (addImport search e path schemas b).call p s =
      if isWanted e schemas b then
        match (searchOrReport search b.exportedName b.modulePath path).call p s with
        | (.ok (some schema), s') => (.ok (Table.put schemas b.localName schema), s')
        | (.ok none, s') => (.ok schemas, s')
        | (.error e, s') => (.error e, s')
      else (.ok schemas, s) := by
  unfold addImport
  split
  · rw [call_bind]
    rcases (searchOrReport search b.exportedName b.modulePath path).call p s with ⟨_ | _ | _, _⟩
      <;> rfl
  · rfl

theorem call_derive (search : Search) (text path : String) :
    (derive search text path).call p s =
      match p.extract text path with
      | .error e => (.error e, s.parsed p text path)
      | .ok e =>
        match (e.bindings.foldlM (addImport search e path) e.schemas).call p
            (s.parsed p text path) with
        | (.ok schemas, s') => (.ok (e.toMap path schemas), s')
        | (.error e, s') => (.error e, s') := by
  have hc : (countParse path).call p s = (.ok (), { s with stats := s.stats.counted path }) := rfl
  rw [derive, call_bind, hc]
  dsimp only
  rw [call_bind, call_read]
  dsimp only [Project.extract, EngineState.parsed]
  cases SourceTree.parse p.frontEnd p.settings.parsing.maxErrorRatio (Path.ofString path) text with
  | error fault => rfl
  | ok tree =>
    dsimp only
    rw [call_bind, call_ofExcept]
    cases Extraction.ofTree p.settings tree with
    | error e => rfl
    | ok e =>
      dsimp only
      rw [call_bind]
      rcases (e.bindings.foldlM (addImport search e path) e.schemas).call p _ with ⟨_ | _, _⟩ <;>
        rfl

-- Unifying two extractions must not set off the parser.
attribute [irreducible] Project.extract

theorem call_load (search : Search) (path : String) :
    (load search path).call p s =
      match s.cache.get? path with
      | some m =>
        (.ok (some m), s.note (fun t => { t with cacheHits := t.cacheHits + 1 }) [.cacheHit path])
      | none =>
        match p.files.readText path with
        | .error reason => (.ok none, s.note id [.readFailed path reason.message])
        | .ok text =>
          match (derive search text path).call p (s.enter path) with
          | (.error e, s₁) => (.error e, s₁.exit (s.frame path))
          | (.ok m, s₁) =>
            if s₁.inFlight.cutShort (s.frame path) then
              (.ok (some m), (s₁.exit (s.frame path)).note id [.cacheSkipped path])
            else
              (.ok (some (s₁.cache.putIfAbsent path m).1),
                { s₁.exit (s.frame path) with cache := (s₁.cache.putIfAbsent path m).2 }) := by
  rw [load, call_bind, call_get]
  dsimp only
  cases s.cache.get? path with
  | some m => rfl
  | none =>
    dsimp only
    rw [call_bind, call_read]
    dsimp only
    cases p.files.readText path with
    | error reason => rfl
    | ok text =>
      dsimp only
      rw [call_bind, call_tracked]
      rcases (derive search text path).call p (s.enter path) with ⟨_ | m, s₁⟩
      · rfl
      · dsimp only
        cases s₁.inFlight.cutShort (s.frame path) <;> rfl

theorem call_firstFound_cons (place : α → Engine (Option Schema)) (a : α) (rest : List α) :
    (firstFound place (a :: rest)).call p s =
      match (place a).call p s with
      | (.ok none, s') => (firstFound place rest).call p s'
      | r => r := by
  rw [firstFound, call_bind]
  rcases (place a).call p s with ⟨_ | _ | _, _⟩ <;> rfl

/-- What is looked for in a file once the file is in flight, for a way to get the file's map. -/
def searchMapBy (load : String → Engine (Option SchemaMap)) (search : Search)
    (name path : String) : Engine (Option Schema) := do
  match ← load path with
  | none => return none
  | some m =>
    match m.get? name with
    | some schema => return some schema
    | none => followReExports search m name

/-- The search in one file, for a way to get the file's map. -/
def searchFileBy (load : String → Engine (Option SchemaMap)) (search : Search)
    (name fromFile path : String) : Engine (Option Schema) := do
  if (← get).inFlight.contains path then
    updateStats fun s => { s with cyclesBroken := s.cyclesBroken + 1 }
    updateInFlight (·.noteCycle path)
    record (.cycle path name fromFile)
    return none
  else if !(← read).files.isFile path then return none
  else inFlight path (searchMapBy load search name path)

theorem call_searchMapBy (load : String → Engine (Option SchemaMap)) (search : Search)
    (name path : String) :
    (searchMapBy load search name path).call p s =
      match (load path).call p s with
      | (.ok none, s') => (.ok none, s')
      | (.ok (some m), s') =>
        match m.get? name with
        | some schema => (.ok (some schema), s')
        | none => (followReExports search m name).call p s'
      | (.error e, s') => (.error e, s') := by
  rw [searchMapBy, call_bind]
  rcases (load path).call p s with ⟨_ | _ | m, s'⟩
  · rfl
  · rfl
  · dsimp only
    cases m.get? name <;> rfl

theorem call_searchFileBy (load : String → Engine (Option SchemaMap)) (search : Search)
    (name fromFile path : String) :
    (searchFileBy load search name fromFile path).call p s =
      if s.inFlight.contains path then (.ok none, s.meet path name fromFile)
      else if p.files.isFile path then
        (inFlight path (searchMapBy load search name path)).call p s
      else (.ok none, s) := by
  rw [searchFileBy, call_bind, call_get]
  dsimp only
  cases s.inFlight.contains path with
  | true => rfl
  | false =>
    simp only [Bool.false_eq_true, if_false]
    rw [call_bind, call_read]
    dsimp only
    cases p.files.isFile path <;> rfl

theorem searchFile_eq (search : Search) : searchFile search = searchFileBy (load search) search :=
  rfl

theorem call_searchCandidates (search : Search) (name modulePath fromFile : String) :
    (searchCandidates search name modulePath fromFile).call p s =
      match Candidates.paths p.settings.resolver modulePath fromFile name p.root with
      | .error e => (.error e, s)
      | .ok candidates => (firstFound (searchFile search name fromFile) candidates).call p s := by
  rw [searchCandidates, call_bind, call_read]
  dsimp only
  rw [call_bind, call_ofExcept]
  cases Candidates.paths p.settings.resolver modulePath fromFile name p.root <;> rfl

theorem call_search (name modulePath fromFile : String) :
    (search name modulePath fromFile).call p s =
      (searchTo (p.files.length + 1) name modulePath fromFile).call p s := by
  rw [search, call_bind, call_read]

theorem call_scanFile (text path : String) :
    (scanFile text path).call p s =
      match (inFlight (Path.key path) (derive search text (Path.key path))).call p s with
      | (.ok m, s') => (.ok m, { s' with cache := (s'.cache.putIfAbsent (Path.key path) m).2 })
      | (.error e, s') => (.error e, s') := by
  rw [scanFile, call_bind]
  rcases (inFlight (Path.key path) (derive search text (Path.key path))).call p s with ⟨_ | _, _⟩
    <;> rfl

end Engine

end ContractInference
