import ContractInference.Proofs.Kept
import ContractInference.Proofs.Returns
import Mathlib.Data.List.Forall2

/-!
# Sessions

One engine answers requests one after the other. Between two requests nothing is in flight.
-/

namespace ContractInference

namespace Project

/-- A project of files with the given texts. -/
def ofTexts (texts : List (String × String)) : Project :=
  { files := texts.map fun (path, text) => (path, .readable text.toUTF8.toList) }

def ringText : String := "import {W} from './b';W.parse(1);export const Y=z.object({})"

/-- A barrel that forwards a file, and the file, which imports from the barrel. -/
def ring : Project := .ofTexts [("/app/b.ts", "export * from './h'"), ("/app/h.ts", ringText)]

/-- What a file that can be read says by itself. -/
def Says (p : Project) (path : String) (e : Extraction) : Prop :=
  ∃ text, p.files.readText path = .ok text ∧ p.extract text path = .ok e

/-- A file that is there and that a module's name can stand for. -/
def IsCandidate (p : Project) (modulePath fromFile name path : String) : Prop :=
  ∃ candidates,
    Candidates.paths p.settings.resolver modulePath fromFile name p.root = .ok candidates ∧
    path ∈ candidates ∧ p.files.isFile path = true

theorem isFile_of_readText {p : Project} {path text : String}
    (h : p.files.readText path = .ok text) : p.files.isFile path = true := by
  cases hg : Table.get? p.files path with
  | some f => simp [Files.isFile, Table.hasKey_eq_isSome, hg]
  | none => simp [Files.readText, Files.contents, Files.bytes, hg, Functor.map, Except.map] at h

theorem Says.unique {p : Project} {path : String} {e e' : Extraction} (h : p.Says path e)
    (h' : p.Says path e') : e = e' := by
  obtain ⟨text, ht, he⟩ := h
  obtain ⟨text', ht', he'⟩ := h'
  rw [ht] at ht'
  cases ht'
  rw [he] at he'
  cases he'
  rfl

end Project

def EngineState.Idle (s : EngineState) : Prop := s.inFlight.depths = []

theorem EngineState.Idle.contains {s : EngineState} (h : s.Idle) (path : String) :
    s.inFlight.contains path = false := by
  rw [InFlight.contains, h]
  rfl

inductive Request where
  | scan (text path : String)
  | resolve (name modulePath fromFile : String)

inductive Reply where
  | map (m : SchemaMap)
  | schema (found : Option Schema)

def Reply.names : Reply → List String
  | .map m => m.names
  | .schema found => (found.bind Schema.name).toList

namespace Request

/-- A text that is to be scanned is the one that its file has. -/
def FromDisk (p : Project) : Request → Prop
  | .scan text path => p.files.readText (Path.key path) = .ok text
  | .resolve .. => True

instance (p : Project) : DecidablePred (FromDisk p)
  | .scan text path =>
    match h : p.files.readText (Path.key path) with
    | .ok t => decidable_of_iff (t = text) (by simp [FromDisk, h])
    | .error e => isFalse (by simp [FromDisk, h])
  | .resolve .. => isTrue trivial

def serve : Request → Engine Reply
  | .scan text path => .map <$> Engine.scanFile text path
  | .resolve name modulePath fromFile => .schema <$> Engine.resolveSchema name modulePath fromFile

end Request

namespace Engine

variable {α β : Type} {p : Project}

/-- Answers requests until one of them fails. -/
def session (requests : List Request) : Engine (List Reply) := requests.mapM Request.serve

theorem call_map (p : Project) (s : EngineState) (f : α → β) (x : Engine α) :
    (f <$> x).call p s =
      match x.call p s with
      | (.ok a, s') => (.ok (f a), s')
      | (.error e, s') => (.error e, s') := by
  rw [← bind_pure_comp, call_bind]
  rcases x.call p s with ⟨_ | _, _⟩ <;> rfl

theorem call_map_ok {s s' : EngineState} {f : α → β} {x : Engine α} {b : β}
    (h : (f <$> x).call p s = (.ok b, s')) : ∃ a, x.call p s = (.ok a, s') ∧ b = f a := by
  rw [call_map] at h
  rcases hx : x.call p s with ⟨_ | a, s₁⟩
  · simp [hx] at h
  · simp only [hx, Prod.mk.injEq, Except.ok.injEq] at h
    exact ⟨a, by rw [h.2], h.1.symm⟩

theorem call_map_state (p : Project) (s : EngineState) (f : α → β) (x : Engine α) :
    ((f <$> x).call p s).2 = (x.call p s).2 := by
  rw [call_map]
  rcases x.call p s with ⟨_ | _, _⟩ <;> rfl

theorem call_ok_of_map {x : Engine α} {f : α → β} {s : EngineState} {b : β}
    (h : (x.call p s).1.toOption.map f = some b) : ∃ a s', x.call p s = (.ok a, s') ∧ f a = b := by
  rcases hx : x.call p s with ⟨_ | a, s'⟩
  · simp [hx, Except.toOption] at h
  · exact ⟨a, s', rfl, by simpa [hx, Except.toOption] using h⟩

/-- What holds of a fresh engine and is kept by every request holds at the end of a session. -/
theorem session_induction {R : EngineState → Prop} {Q : Request → Reply → Prop}
    {requests : List Request}
    (step : ∀ r ∈ requests, ∀ {s s' a}, R s → r.serve.call p s = (.ok a, s') → Q r a ∧ R s')
    {s s' : EngineState} {replies : List Reply} (hs : R s)
    (h : (session requests).call p s = (.ok replies, s')) :
    R s' ∧ List.Forall₂ Q requests replies := by
  unfold session at h
  induction requests generalizing s replies with
  | nil =>
    cases h
    exact ⟨hs, .nil⟩
  | cons r rest ih =>
    rw [List.mapM_cons] at h
    obtain ⟨a, s₁, ha, h⟩ := call_bind_ok p h
    obtain ⟨as, s₂, has, h⟩ := call_bind_ok p h
    cases h
    obtain ⟨hq, hs₁⟩ := step r (by simp) hs ha
    obtain ⟨hr, hall⟩ := ih (fun r' hr' => step r' (by simp [hr'])) hs₁ has
    exact ⟨hr, .cons hq hall⟩

/-- Answers requests, also after one of them has failed. -/
def history (requests : List Request) : Engine (List (Except Failure Reply)) :=
  requests.mapM fun r => outcome r.serve

theorem call_outcome (p : Project) (s : EngineState) (x : Engine α) :
    (outcome x).call p s = (.ok (x.call p s).1, (x.call p s).2) := by
  rw [outcome, call_bind, call_tryCatch, call_bind]
  rcases x.call p s with ⟨_ | _, _⟩ <;> rfl

/-- What holds before any request and is kept by every request, whatever its outcome, holds after
all of them. The condition may speak of the requests so far. -/
theorem history_induction {R : List Request → EngineState → Prop} {requests : List Request}
    (step : ∀ r ∈ requests, ∀ {earlier s}, R earlier s →
      R (earlier ++ [r]) (r.serve.call p s).2)
    {s s' : EngineState} {replies : List (Except Failure Reply)} (hs : R [] s)
    (h : (history requests).call p s = (.ok replies, s')) : R requests s' := by
  suffices hrest : ∀ earlier, R earlier s → R (earlier ++ requests) s' from hrest [] hs
  clear hs
  unfold history at h
  induction requests generalizing s replies with
  | nil =>
    intro earlier hs
    cases h
    rwa [List.append_nil]
  | cons r rest ih =>
    intro earlier hs
    rw [List.mapM_cons] at h
    obtain ⟨a, s₁, ha, h⟩ := call_bind_ok p h
    obtain ⟨as, s₂, has, h⟩ := call_bind_ok p h
    cases h
    rw [call_outcome] at ha
    cases ha
    rw [List.append_cons]
    exact ih (fun r' hr' => step r' (by simp [hr'])) has _ (step r (by simp) hs)

theorem call_scanFile_ok {s s' : EngineState} {text path : String} {m : SchemaMap}
    (h : (scanFile text path).call p s = (.ok m, s')) :
    ∃ s₁, (derive search text (Path.key path)).call p (s.push (Path.key path)) = (.ok m, s₁) ∧
      s' = { s₁.pop (Path.key path) with
        cache := (s₁.cache.putIfAbsent (Path.key path) m).2 } := by
  rw [call_scanFile, call_inFlight] at h
  rcases hd : (derive search text (Path.key path)).call p (s.push (Path.key path)) with ⟨_ | m₁, s₁⟩
  · rw [hd] at h
    cases h
  · rw [hd] at h
    cases h
    exact ⟨s₁, rfl, rfl⟩

theorem call_resolveSchema_ok {s s' : EngineState} {name modulePath fromFile : String}
    {found : Option Schema}
    (h : (resolveSchema name modulePath fromFile).call p s = (.ok found, s')) :
    ∃ s₁ f new, (search name modulePath (Path.key fromFile)).call p s = (.ok found, s₁) ∧
      s' = s₁.note f new ∧ ∀ t, (f t).cyclesBroken = t.cyclesBroken := by
  rw [resolveSchema, call_searchOrReport] at h
  rcases hq : (search name modulePath (Path.key fromFile)).call p s with ⟨_ | _ | schema, s₁⟩
  · rw [hq] at h
    cases h
  · rw [hq] at h
    cases h
    exact ⟨s₁, _, _, rfl, rfl, fun _ => rfl⟩
  · rw [hq] at h
    cases h
    exact ⟨s', id, [], rfl, by simp [EngineState.note], fun _ => rfl⟩

theorem idle_scanFile {s s' : EngineState} {text path : String} {m : SchemaMap} (hs : s.Idle)
    (h : (scanFile text path).call p s = (.ok m, s')) : s'.Idle := by
  obtain ⟨s₁, h₁, rfl⟩ := call_scanFile_ok h
  have hk := ((keeps_derive keeps_search text (Path.key path)).of_call h₁).pop (hs.contains _)
  exact hk.depths.trans hs

theorem idle_resolveSchema {s s' : EngineState} {name modulePath fromFile : String}
    {found : Option Schema} (hs : s.Idle)
    (h : (resolveSchema name modulePath fromFile).call p s = (.ok found, s')) : s'.Idle := by
  obtain ⟨s₁, f, new, h₁, rfl, -⟩ := call_resolveSchema_ok h
  exact ((keeps_search _ _ _).of_call h₁).depths.trans hs

end Engine

end ContractInference
