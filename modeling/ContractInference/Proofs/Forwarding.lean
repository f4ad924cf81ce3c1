import ContractInference.Proofs.Coverage
import ContractInference.Proofs.Invariant
import ContractInference.Proofs.Termination

/-!
# Chains of re-exports

Files forward a name one to the next, and the last of them has a schema for it. If no file comes
twice, the schema is found, whatever cycles the files are part of and whatever the engine was asked
before, failed requests included.
-/

namespace ContractInference

/-- Files that forward a name one to the next, each under the name that the next one knows it by,
to a file whose own text has a schema for it. -/
inductive Forwards (p : Project) : List String → String → String → String → Prop
  | declared {name modulePath fromFile f : String} {e : Extraction} :
    p.IsCandidate modulePath fromFile name f → p.Says f e →
    (e.toMap f e.schemas).get? name ≠ none → Forwards p [f] name modulePath fromFile
  | forwarded {files : List String} {name source modulePath fromFile f : String} {e : Extraction}
    {r : ReExport} :
    p.IsCandidate modulePath fromFile name f → p.Says f e → r ∈ e.reexports →
    r.forwards name = some source → Forwards p files source r.modulePath f →
    Forwards p (f :: files) name modulePath fromFile

namespace Forwards

variable {p : Project} {files : List String} {name modulePath fromFile : String}

/-- Links lead along the files, which avoid the files before them. -/
theorem finds (h : Forwards p files name modulePath fromFile) (hn : files.Nodup) {G : Set String}
    (hG : ∀ f ∈ files, f ∉ G) : Finds p G name modulePath fromFile := by
  induction h generalizing G with
  | @declared name _ _ f e hc he hget =>
    refine .declared hc (hG f (by simp)) he ?_
    rw [Extraction.get?_toMap] at hget
    rw [Table.hasKey_eq_isSome]
    exact Option.isSome_iff_ne_none.2 hget
  | @forwarded files _ _ _ _ f _ _ hc he hr hs _ ih =>
    obtain ⟨hf, hn⟩ := List.nodup_cons.1 hn
    refine .forwarded hc (hG f (by simp)) he hr hs (ih hn fun q hq hmem => ?_)
    rcases Set.mem_insert_iff.1 hmem with rfl | hmem
    · exact hf hq
    · exact hG q (by simp [hq]) hmem

/-- A test of the files, of which each forward is found by trying all of them. -/
def check (p : Project) : List String → String → String → String → Bool
  | [], _, _, _ => false
  | f :: rest, name, modulePath, fromFile =>
    match Candidates.paths p.settings.resolver modulePath fromFile name p.root,
      p.files.readText f with
    | .ok candidates, .ok text =>
      candidates.contains f &&
        match p.extract text f with
        | .error _ => false
        | .ok e =>
          if rest.isEmpty then ((e.toMap f e.schemas).get? name).isSome
          else e.reexports.any fun r =>
            match r.forwards name with
            | some source => check p rest source r.modulePath f
            | none => false
    | _, _ => false

theorem of_check (h : check p files name modulePath fromFile = true) :
    Forwards p files name modulePath fromFile := by
  induction files generalizing name modulePath fromFile with
  | nil => cases h
  | cons f rest ih =>
    unfold check at h
    split at h
    · rename_i candidates text hcs ht
      rw [Bool.and_eq_true, List.contains_iff_mem] at h
      obtain ⟨hmem, h⟩ := h
      have hc : p.IsCandidate modulePath fromFile name f :=
        ⟨candidates, hcs, hmem, Project.isFile_of_readText ht⟩
      split at h
      · cases h
      · rename_i e he
        have hsays : p.Says f e := ⟨text, ht, he⟩
        split at h
        · rename_i hrest
          obtain rfl := List.isEmpty_iff.1 hrest
          exact .declared hc hsays (Option.isSome_iff_ne_none.1 h)
        · obtain ⟨r, hr, h⟩ := List.any_eq_true.1 h
          split at h
          · rename_i source hs
            exact .forwarded hc hsays hr hs (ih h)
          · cases h
    · cases h

end Forwards

namespace Engine

variable {p : Project}

theorem invariant_complete {search : Search}
    (hk : ∀ name modulePath fromFile, Keeps p (search name modulePath fromFile))
    (he : Exhausts p search)
    (hs : ∀ name modulePath fromFile, Sustains p (Complete p) (search name modulePath fromFile)) :
    Invariant p search (Complete p) where
  keeps := hk
  sustains := hs
  congr h hd hc _ := h.congr hd hc
  parsed h := h.congr (Kept.parsed p _ _ _).depths (EngineState.parsed_cache _ _ _ _)
  push hp h := h.push hp
  pop hp h hk h₁ := h.pop hp hk h₁
  store hp h hm ht hd hcut _ :=
    (covers_load hk he h hp (call_load_ok_iff.2 (.stored hm ht hd hcut))).1.congr rfl rfl

theorem sustains_complete (name modulePath fromFile : String) :
    Sustains p (Complete p) (search name modulePath fromFile) := by
  refine sustains_search (fun depth => ?_) name modulePath fromFile
  induction depth with
  | zero => exact sustains_searchTo_zero
  | succ depth ih =>
    exact (invariant_complete (keeps_searchTo depth) (exhausts_searchTo depth) ih).searchCandidates

theorem complete_request {r : Request} (hd : r.FromDisk p) {s : EngineState}
    (hs : s.Idle ∧ Complete p s) :
    (r.serve.call p s).2.Idle ∧ Complete p (r.serve.call p s).2 := by
  rcases hc : r.serve.call p s with ⟨e | a, s'⟩
  · obtain ⟨hidle, h⟩ := hs
    have hinv := invariant_complete (p := p) keeps_search exhausts_search sustains_complete
    cases r with
    | scan text path =>
      have hp : s.inFlight.contains (Path.key path) = false := hidle.contains _
      rw [Request.serve, call_map, call_scanFile, call_inFlight] at hc
      rcases hderive : (derive search text (Path.key path)).call p (s.push (Path.key path))
        with ⟨e | m, s₁⟩
      · rw [hderive] at hc
        cases hc
        have hk := (keeps_derive keeps_search text (Path.key path)).of_call hderive
        have h₁ := (hinv.derive text (Path.key path)).of_call (h.push hp) hderive
        exact ⟨(hk.pop hp).depths.trans hidle, h.pop hp hk h₁⟩
      · rw [hderive] at hc
        cases hc
    | resolve name modulePath fromFile =>
      have hk := keeps_searchOrReport (p := p) keeps_search name modulePath (Path.key fromFile)
      have hsus := sustains_searchOrReport hinv.sustains hinv.congr name modulePath
        (Path.key fromFile)
      rw [Request.serve, call_map] at hc
      rcases hf : (resolveSchema name modulePath fromFile).call p s with ⟨e | found, s₁⟩
      · rw [hf] at hc
        cases hc
        exact ⟨(hk.of_call hf).depths.trans hidle, hsus.of_call h hf⟩
      · rw [hf] at hc
        cases hc
  · exact complete_serve hd hs hc

/-- A schema that files forward one to the next, none of them twice, is found after any requests. A
search for it can only end otherwise if a text or a path template makes it fail. -/
theorem resolveSchema_of_forwards {requests : List Request} (hd : ∀ r ∈ requests, r.FromDisk p)
    {replies : List (Except Failure Reply)} {s : EngineState}
    (hc : (history requests).call p {} = (.ok replies, s)) {files : List String}
    {name modulePath fromFile : String}
    (hf : Forwards p files name modulePath (Path.key fromFile)) (hn : files.Nodup) :
    (∃ schema s', (resolveSchema name modulePath fromFile).call p s = (.ok (some schema), s')) ∨
      ∃ e s', (resolveSchema name modulePath fromFile).call p s = (.error e, s') ∧ p.Raises e := by
  have hstart : ({} : EngineState).Idle ∧ Complete p {} :=
    ⟨rfl, fun _ _ hq => (nomatch hq), (nomatch ·)⟩
  obtain ⟨hidle, h⟩ := history_induction (R := fun _ s => s.Idle ∧ Complete p s)
    (fun r hmem _ _ hs => complete_request (hd r hmem) hs) hstart hc
  rcases hr : (resolveSchema name modulePath fromFile).call p s with ⟨e | _ | schema, s'⟩
  · exact .inr ⟨e, s', rfl, fails_resolveSchema _ _ _ hr⟩
  · -- Nothing is in flight, so that nothing can have been run into above.
    obtain ⟨s₁, f, new, h₁, -, -⟩ := call_resolveSchema_ok hr
    have hfinds := hf.finds hn (G := s.inner 0) (by simp [inner_idle hidle])
    exact absurd rfl ((exhausts_search h h₁).2 0 (Nat.zero_le _) (by simp [Reaches]) hfinds)
  · exact .inl ⟨schema, s', rfl⟩

/-- Two barrels that forward each other, a file with a schema that one of them renames, and a
template that cannot be filled in. -/
def detour : Project :=
  { Project.ofTexts [("/app/a.ts", "export * from './b'"),
      ("/app/b.ts", "export * from './a';export {Z as X} from './c'"),
      ("/app/c.ts", "export const Z=z.object({})")] with
    settings := { resolver := { fallbackCandidates := ["\x7bkind\x7d"] } } }

def detourRequests : List Request :=
  [.scan "export * from './b'" "/app/a.ts", .resolve "X" "lib" "/app/m.ts"]

theorem resolveSchema_of_forwards_detour :
    ∃ replies s schema s', (history detourRequests).call detour {} = (.ok replies, s) ∧
      replies.map (·.toOption.isSome) = [true, false] ∧
      (resolveSchema "X" "./a" "/app/m.ts").call detour s = (.ok (some schema), s') := by
  have hd : ∀ r ∈ detourRequests, r.FromDisk detour := by
    decide +kernel
  have hf : Forwards detour ["/app/a.ts", "/app/b.ts", "/app/c.ts"] "X" "./a"
      (Path.key "/app/m.ts") := .of_check (by decide +kernel)
  have hl : ((history detourRequests).call detour {}).1.toOption.map
        (·.map (·.toOption.isSome)) = some [true, false] ∧
      ((resolveSchema "X" "./a" "/app/m.ts").call detour
        ((history detourRequests).call detour {}).2).1.toOption.isSome := by
    decide +kernel
  obtain ⟨replies, s, hc, hreplies⟩ := call_ok_of_map hl.1
  rw [hc] at hl
  rcases resolveSchema_of_forwards hd hc hf (by decide) with ⟨schema, s', hfound⟩ | ⟨e, s', he, -⟩
  · exact ⟨replies, s, schema, s', hc, hreplies, hfound⟩
  · rw [he] at hl
    cases hl.2

end Engine

end ContractInference
