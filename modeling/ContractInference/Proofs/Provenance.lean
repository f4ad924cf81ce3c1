import ContractInference.Proofs.Isolation
import ContractInference.Proofs.Uncached

/-!
# Where schemas come from

Each entry of a map that the engine gives or keeps is one that the file's own text declares, or one
that an import of the file stands for. In the second case links lead from the file to a text that
declares the schema, and every text on the way was parsed.
-/

namespace ContractInference

/-- The text that comes with a request, for the path of its file. -/
def Request.given? : Request → Option (String × String)
  | .scan text path => some (Path.key path, text)
  | .resolve .. => none

/-- A text that was parsed for a file: it came with a request, or it is the text that the file has
and the file was parsed more often than texts for it came with requests. -/
def Project.Parsed (p : Project) (given : List (String × String)) (s : EngineState)
    (path text : String) : Prop :=
  (path, text) ∈ given ∨
    p.files.readText path = .ok text ∧ given.countP (·.1 = path) < s.parses path

theorem Project.Parsed.mono {p : Project} {given : List (String × String)} {s s' : EngineState}
    (hle : ∀ path, s.parses path ≤ s'.parses path) {path text : String}
    (h : p.Parsed given s path text) : p.Parsed given s' path text :=
  h.imp_right fun ⟨hr, hlt⟩ => ⟨hr, Nat.lt_of_lt_of_le hlt (hle path)⟩

section

variable (p : Project) (T : String → String → Prop)

/-- Links lead from a file to a text that declares a schema. The files on the way are there, and
what they say is what texts of them say that meet a condition. -/
inductive Supplies : String → String → String → Schema → Prop
  | declared {name modulePath fromFile c text : String} {e : Extraction} {schema : Schema} :
    p.IsCandidate modulePath fromFile name c → T c text → p.extract text c = .ok e →
    (e.keyOf name, schema) ∈ e.schemas → Supplies name modulePath fromFile schema
  | imported {name modulePath fromFile c text : String} {e : Extraction} {schema : Schema}
    {b : ImportBinding} :
    p.IsCandidate modulePath fromFile name c → T c text → p.extract text c = .ok e →
    e.Follows b → b.localName = e.keyOf name →
    Supplies b.exportedName b.modulePath c schema → Supplies name modulePath fromFile schema
  | forwarded {name modulePath fromFile c text source : String} {e : Extraction} {schema : Schema}
    {r : ReExport} :
    p.IsCandidate modulePath fromFile name c → T c text → p.extract text c = .ok e →
    r ∈ e.reexports → r.forwards name = some source →
    Supplies source r.modulePath c schema → Supplies name modulePath fromFile schema

/-- Why a file's map has an entry: the file declares it, or a validated import that is more than a
type stands for it and the file does not declare the name. -/
inductive Origin (path : String) (e : Extraction) (name : String) (schema : Schema) : Prop
  | own : (name, schema) ∈ e.schemas → Origin path e name schema
  | imported {b : ImportBinding} : e.Follows b → b.localName = name →
    Table.hasKey e.schemas name = false → Supplies p T b.exportedName b.modulePath path schema →
    Origin path e name schema

/-- The map of a file is one of a text of the file, and all its entries have an origin. -/
def FromText (path text : String) (m : SchemaMap) : Prop :=
  ∃ e schemas, p.extract text path = .ok e ∧ m = e.toMap path schemas ∧
    ∀ name schema, (name, schema) ∈ schemas → Origin p T path e name schema

end

section

variable {p : Project} {T T' : String → String → Prop} (hT : ∀ {c text}, T c text → T' c text)
include hT

theorem Supplies.mono {name modulePath fromFile : String} {schema : Schema}
    (h : Supplies p T name modulePath fromFile schema) :
    Supplies p T' name modulePath fromFile schema := by
  induction h with
  | declared hc ht he hmem => exact .declared hc (hT ht) he hmem
  | imported hc ht he hb hkey _ ih => exact .imported hc (hT ht) he hb hkey ih
  | forwarded hc ht he hr hs _ ih => exact .forwarded hc (hT ht) he hr hs ih

theorem FromText.mono {path text : String} {m : SchemaMap} (h : FromText p T path text m) :
    FromText p T' path text m := by
  obtain ⟨e, schemas, he, hm, hall⟩ := h
  refine ⟨e, schemas, he, hm, fun name schema hmem => ?_⟩
  cases hall name schema hmem with
  | own hown => exact .own hown
  | imported hb hname hkey hs => exact .imported hb hname hkey (hs.mono hT)

end

theorem Origin.supplies {p : Project} {T : String → String → Prop}
    {name modulePath fromFile c text : String} {e : Extraction} {schema : Schema}
    (h : Origin p T c e (e.keyOf name) schema) (hc : p.IsCandidate modulePath fromFile name c)
    (ht : T c text) (he : p.extract text c = .ok e) :
    Supplies p T name modulePath fromFile schema := by
  cases h with
  | own hmem => exact .declared hc ht he hmem
  | imported hb hname _ hs => exact .imported hc ht he hb hname hs

/-- All maps in the cache come from texts that were parsed, and the texts of requests were. -/
structure Sourced (p : Project) (given : List (String × String)) (s : EngineState) : Prop where
  counted : ∀ path, given.countP (·.1 = path) ≤ s.parses path
  cached : ∀ {path m}, s.cache.get? path = some m → ∃ text, p.Parsed given s path text ∧
    FromText p (p.Parsed given s) path text m

namespace Sourced

variable {p : Project} {given : List (String × String)} {s s' : EngineState}

theorem mono (h : Sourced p given s) (hle : ∀ path, s.parses path ≤ s'.parses path)
    (hcache : s'.cache = s.cache) : Sourced p given s' where
  counted path := (h.counted path).trans (hle path)
  cached hm := by
    rw [hcache] at hm
    obtain ⟨text, ht, hfrom⟩ := h.cached hm
    exact ⟨text, ht.mono hle, hfrom.mono (.mono hle)⟩

theorem congr (h : Sourced p given s) (hcache : s'.cache = s.cache)
    (hcounts : s'.stats.parseCounts = s.stats.parseCounts) : Sourced p given s' :=
  h.mono (fun path => by rw [EngineState.parses, EngineState.parses, hcounts]) hcache

theorem parsed (h : Sourced p given s) (text path : String) :
    Sourced p given (s.parsed p text path) := by
  refine h.mono (fun q => ?_) (EngineState.parsed_cache s p text path)
  rw [EngineState.parses_parsed]
  exact Nat.le_add_right _ _

theorem store (h : Sourced p given s) {path text : String} {m : SchemaMap}
    (ht : p.Parsed given s path text) (hm : FromText p (p.Parsed given s) path text m) :
    Sourced p given { s with cache := (s.cache.putIfAbsent path m).2 } where
  counted := h.counted
  cached {q kept} hq := by
    rw [Cache.get?_putIfAbsent] at hq
    split at hq
    · subst q
      cases hc : s.cache.get? path with
      | some m₀ =>
        rw [hc] at hq
        cases hq
        exact h.cached hc
      | none =>
        rw [hc] at hq
        cases hq
        exact ⟨text, ht, hm⟩
    · exact h.cached hq

theorem scanned (h : Sourced p given s) (text path : String) :
    Sourced p (given ++ [(path, text)]) (s.parsed p text path) := by
  have hcount : ∀ q, (given ++ [(path, text)]).countP (·.1 = q) =
      given.countP (·.1 = q) + if path = q then 1 else 0 := by
    intro q
    simp [List.countP_append, List.countP_cons]
  have hparsed : ∀ {c t}, p.Parsed given s c t →
      p.Parsed (given ++ [(path, text)]) (s.parsed p text path) c t := by
    intro c t ht
    rcases ht with ht | ⟨hr, hlt⟩
    · exact .inl (List.mem_append_left _ ht)
    · refine .inr ⟨hr, ?_⟩
      rw [hcount, EngineState.parses_parsed]
      omega
  refine ⟨fun q => ?_, fun hm => ?_⟩
  · rw [hcount, EngineState.parses_parsed]
    have := h.counted q
    omega
  · rw [EngineState.parsed_cache] at hm
    obtain ⟨t, ht, hfrom⟩ := h.cached hm
    exact ⟨t, hparsed ht, hfrom.mono hparsed⟩

end Sourced

namespace Engine

variable {α : Type} {p : Project} {given : List (String × String)} {search : Search}

/-- A search that keeps the cache sourced and finds what links lead to. -/
structure Traces (p : Project) (given : List (String × String)) (search : Search) : Prop where
  keeps : ∀ name modulePath fromFile, Keeps p (search name modulePath fromFile)
  counts : ∀ q n name modulePath fromFile,
    Sustains p (n ≤ ·.parses q) (search name modulePath fromFile)
  sourced : ∀ name modulePath fromFile,
    Sustains p (Sourced p given) (search name modulePath fromFile)
  supplies : ∀ {name modulePath fromFile s schema s'}, Sourced p given s →
    (search name modulePath fromFile).call p s = (.ok (some schema), s') →
    Supplies p (p.Parsed given s') name modulePath fromFile schema

theorem sustains_of_parses {x : Engine α} (hx : ∀ q n, Sustains p (n ≤ ·.parses q) x)
    {J : EngineState → Prop}
    (hJ : ∀ {s s'}, (∀ q, s.parses q ≤ s'.parses q) → J s → J s') : Sustains p J x :=
  fun _ hs => hJ (fun q => hx q _ Nat.le.refl) hs

namespace Traces

variable (h : Traces p given search)
include h

theorem invariant_counts (q : String) (n : Nat) : Invariant p search (n ≤ ·.parses q) :=
  invariant_parses q n h.keeps (h.counts q n)

theorem fromText_derive {text path : String} {m : SchemaMap} {s s' : EngineState}
    (hs : Sourced p given (s.parsed p text path))
    (hc : (derive search text path).call p s = (.ok m, s')) :
    FromText p (p.Parsed given s') path text m := by
  obtain ⟨e, schemas, he, rfl, hf⟩ := call_derive_ok_iff.1 hc
  have hcounts : ∀ schemas b q n, Sustains p (n ≤ ·.parses q) (addImport search e path schemas b) :=
    fun schemas b q n =>
      sustains_addImport (h.counts q n) (h.invariant_counts q n).congr e path schemas b
  obtain ⟨extra, rfl, -, hextra⟩ := foldlM_addImport_append (I := Sourced p given)
    (F := fun b schema s => Supplies p (p.Parsed given s) b.exportedName b.modulePath path schema)
    (sustains_addImport h.sourced (fun hs _ => hs.congr) e path)
    (fun _ _ schemas b =>
      sustains_of_parses (hcounts schemas b) fun hle hsup => hsup.mono (.mono hle))
    h.supplies hs hf
  refine ⟨e, _, he, rfl, fun name schema hmem => ?_⟩
  rcases List.mem_append.1 hmem with hown | hmem
  · exact .own hown
  · obtain ⟨b, hb, hw, rfl, hsup⟩ := hextra name schema hmem
    exact .imported (Extraction.follows_of_isWanted hb hw) rfl (isWanted_eq_true_iff.1 hw).2.1 hsup

theorem fromText_read {text path : String} {m : SchemaMap} {s s' : EngineState}
    (hs : Sourced p given s) (hr : p.files.readText path = .ok text)
    (hc : (derive search text path).call p s = (.ok m, s')) :
    p.Parsed given s' path text ∧ FromText p (p.Parsed given s') path text m := by
  refine ⟨.inr ⟨hr, ?_⟩, h.fromText_derive (hs.parsed text path) hc⟩
  -- The derivation counts one text more for the file, and none came with a request.
  have hcount := (h.invariant_counts path ((s.parsed p text path).parses path)).derive_of_parsed
    Nat.le.refl
  rw [hc, EngineState.parses_parsed, if_pos rfl] at hcount
  exact Nat.lt_of_lt_of_le (Nat.lt_succ_of_le (hs.counted path)) hcount

theorem invariant_sourced : Invariant p search (Sourced p given) where
  keeps := h.keeps
  sustains := h.sourced
  congr hs _ := hs.congr
  parsed hs := hs.parsed _ _
  push _ hs := hs.congr rfl rfl
  pop _ _ _ hs := hs.congr rfl rfl
  store {s path _ _ _} _ hs _ hr hc _ hs₁ := by
    have henter : Sourced p given ((s.push path).enter path) := hs.congr rfl rfl
    obtain ⟨ht, hfrom⟩ := h.fromText_read henter hr hc
    exact hs₁.store ht hfrom

theorem fromText_load {path : String} {m : SchemaMap} {s s' : EngineState}
    (hs : Sourced p given s) (hc : (load search path).call p s = (.ok (some m), s')) :
    ∃ text, p.Parsed given s' path text ∧ FromText p (p.Parsed given s') path text m := by
  have henter : Sourced p given (s.enter path) := hs.congr rfl rfl
  cases call_load_ok_iff.1 hc with
  | hit hm => exact hs.cached hm
  | @skipped text _ _ _ hr hd _ =>
    -- Leaving the file is bookkeeping and parses nothing.
    have hread := h.fromText_read henter hr hd
    exact ⟨text, hread⟩
  | @stored text _ s₁ _ hr hd _ =>
    rw [Cache.putIfAbsent_fst]
    cases hm : s₁.cache.get? path with
    | some m₀ => exact ((h.invariant_sourced.derive _ _).of_call henter hd).cached hm
    | none =>
      have hread := h.fromText_read henter hr hd
      exact ⟨text, hread⟩

theorem supplies_searchMap {name modulePath fromFile path : String} {schema : Schema}
    {s s' : EngineState} (hcand : p.IsCandidate modulePath fromFile name path)
    (hs : Sourced p given s) (hsus : Sourced p given ((load search path).call p s).2)
    (hc : (searchMapBy (load search) search name path).call p s = (.ok (some schema), s')) :
    Supplies p (p.Parsed given s') name modulePath fromFile schema := by
  cases call_searchMapBy_ok_iff.1 hc with
  | found hl hm =>
    obtain ⟨text, ht, e, schemas, he, rfl, hall⟩ := h.fromText_load hs hl
    rw [Extraction.get?_toMap] at hm
    exact (hall _ _ (Table.mem_of_get? hm)).supplies hcand ht he
  | followed hl _ hf =>
    obtain ⟨text, ht, e, schemas, he, rfl, -⟩ := h.fromText_load hs hl
    rw [hl] at hsus
    obtain ⟨r, hr, s₂, hs₂, hfound⟩ :=
      found_of_firstFound (h.invariant_sourced.follow name path) hsus hf
    -- What the file said was parsed before its links were followed, and still is.
    have hle : ∀ q, _ ≤ s'.parses q := fun q =>
      (sustains_firstFound ((h.invariant_counts q _).follow name path) e.reexports).of_call
        Nat.le.refl hf
    cases hsource : r.forwards name with
    | none =>
      rw [hsource] at hfound
      cases hfound
    | some source =>
      rw [hsource] at hfound
      exact .forwarded hcand (ht.mono hle) he hr hsource (h.supplies hs₂ hfound)

theorem supplies_searchCandidates {name modulePath fromFile : String} {schema : Schema}
    {s s' : EngineState} (hs : Sourced p given s)
    (hc : (searchCandidates search name modulePath fromFile).call p s = (.ok (some schema), s')) :
    Supplies p (p.Parsed given s') name modulePath fromFile schema := by
  obtain ⟨candidates, hcs, hf⟩ := call_searchCandidates_ok_iff.1 hc
  obtain ⟨c, hmem, s₁, hs₁, hfound⟩ :=
    found_of_firstFound (h.invariant_sourced.searchFile name fromFile) hs hf
  cases call_searchFileBy_ok_iff.1 hfound with
  | opened hin hfile hm =>
    have hpush : Sourced p given (s₁.push c) := hs₁.congr rfl rfl
    have hsup := h.supplies_searchMap ⟨candidates, hcs, hmem, hfile⟩ hpush
      (h.invariant_sourced.load hin hs₁) hm
    exact hsup

theorem searchCandidates : Traces p given (searchCandidates search) where
  keeps := keeps_searchCandidates h.keeps
  counts q n := (h.invariant_counts q n).searchCandidates
  sourced := h.invariant_sourced.searchCandidates
  supplies := h.supplies_searchCandidates

end Traces

theorem traces_searchTo (depth : Nat) : Traces p given (searchTo depth) := by
  induction depth with
  | zero =>
    exact ⟨keeps_searchTo 0, fun _ _ => sustains_searchTo_zero, sustains_searchTo_zero, nofun⟩
  | succ depth ih => exact ih.searchCandidates

theorem traces_search : Traces p given Engine.search where
  keeps := keeps_search
  counts q n := sustains_search (sustains_parses q n)
  sourced := sustains_search (traces_searchTo · |>.sourced)
  supplies hs hc := by
    rw [call_search] at hc
    exact (traces_searchTo _).supplies hs hc

theorem fromText_scanFile {text path : String} {m : SchemaMap} {s s' : EngineState}
    (hs : Sourced p given s) (hc : (scanFile text path).call p s = (.ok m, s')) :
    FromText p (p.Parsed (given ++ [(Path.key path, text)]) s') (Path.key path) text m := by
  obtain ⟨s₁, hd, rfl⟩ := call_scanFile_ok hc
  have hpush : Sourced p given (s.push (Path.key path)) := hs.congr rfl rfl
  have hfrom := traces_search.fromText_derive (hpush.scanned text (Path.key path)) hd
  exact hfrom

theorem sourced_scanFile {s : EngineState} (hs : Sourced p given s) (text path : String) :
    Sourced p (given ++ [(Path.key path, text)]) ((scanFile text path).call p s).2 := by
  have hpush : Sourced p given (s.push (Path.key path)) := hs.congr rfl rfl
  have hscanned := hpush.scanned text (Path.key path)
  have hsus := traces_search.invariant_sourced.derive_of_parsed hscanned
  rw [call_scanFile, call_inFlight]
  rcases hd : (derive Engine.search text (Path.key path)).call p (s.push (Path.key path))
    with ⟨e | m, s₁⟩
  · rw [hd] at hsus
    exact hsus.congr rfl rfl
  · rw [hd] at hsus
    have hpop : Sourced p _ (s₁.pop (Path.key path)) := hsus.congr rfl rfl
    have hfrom := traces_search.fromText_derive hscanned hd
    exact hpop.store (.inl (List.mem_append_right _ List.mem_cons_self)) hfrom

theorem sourced_request {requests : List Request} {s : EngineState} (r : Request)
    (hs : Sourced p (requests.filterMap Request.given?) s) :
    Sourced p ((requests ++ [r]).filterMap Request.given?) (r.serve.call p s).2 := by
  rw [List.filterMap_append]
  cases r with
  | scan text path =>
    rw [Request.serve, call_map_state]
    exact sourced_scanFile hs text path
  | resolve name modulePath fromFile =>
    have hsus := sustains_searchOrReport (traces_search (p := p)).sourced (fun hs _ => hs.congr)
      name modulePath (Path.key fromFile) hs
    rw [Request.serve, call_map_state]
    exact (List.append_nil _).symm ▸ hsus

/-- After any requests, every map in the cache comes from a text that was parsed for its file, and
the map of a scan from the text that was scanned: each entry is one of that text's own or stands
for an import, and then links over parsed texts lead to it. -/
theorem entries_have_origin {requests : List Request} {replies : List (Except Failure Reply)}
    {s : EngineState} (hc : (history requests).call p {} = (.ok replies, s)) :
    (∀ path m, s.cache.get? path = some m →
      ∃ text, p.Parsed (requests.filterMap Request.given?) s path text ∧
        FromText p (p.Parsed (requests.filterMap Request.given?) s) path text m) ∧
    ∀ text path m s', (scanFile text path).call p s = (.ok m, s') →
      FromText p (p.Parsed ((requests ++ [Request.scan text path]).filterMap Request.given?) s')
        (Path.key path) text m := by
  have hstart : Sourced p [] {} := ⟨fun _ => Nat.le.refl, nofun⟩
  have h : Sourced p (requests.filterMap Request.given?) s :=
    history_induction (R := fun rs s => Sourced p (rs.filterMap Request.given?) s)
      (fun r _ _ _ hs => sourced_request r hs) hstart hc
  refine ⟨fun path m hm => h.cached hm, fun text path m s' hm => ?_⟩
  rw [List.filterMap_append]
  exact fromText_scanFile h hm

/-- A file that a search has read and a text that imports from it. -/
theorem entries_have_origin_users :
    ∃ replies s kept m s',
      (history [.resolve "X" "./b" "/app/m.ts"]).call users {} = (.ok replies, s) ∧
      s.cache.get? "/app/b.ts" = some kept ∧
      (scanFile routeOfUser "/app/a.ts").call users s = (.ok m, s') ∧ m.names = ["R", "X"] ∧
      (∃ text, users.Parsed [] s "/app/b.ts" text ∧
        FromText users (users.Parsed [] s) "/app/b.ts" text kept) ∧
      FromText users (users.Parsed [(Path.key "/app/a.ts", routeOfUser)] s') (Path.key "/app/a.ts")
        routeOfUser m := by
  have hcalls :
      ((history [.resolve "X" "./b" "/app/m.ts"]).call users {}).1.toOption.map (·.length) =
        some 1 ∧
      (((history [.resolve "X" "./b" "/app/m.ts"]).call users {}).2.cache.get?
        "/app/b.ts").isSome = true ∧
      ((scanFile routeOfUser "/app/a.ts").call users
        ((history [.resolve "X" "./b" "/app/m.ts"]).call users {}).2).1.toOption.map (·.names) =
        some ["R", "X"] := by
    decide +kernel
  obtain ⟨replies, s, hc, -⟩ := call_ok_of_map hcalls.1
  rw [hc] at hcalls
  obtain ⟨kept, hkept⟩ := Option.isSome_iff_exists.1 hcalls.2.1
  obtain ⟨m, s', hm, hnames⟩ := call_ok_of_map hcalls.2.2
  obtain ⟨hcached, hscanned⟩ := entries_have_origin hc
  exact ⟨replies, s, kept, m, s', hc, hkept, hm, hnames, hcached _ _ hkept, hscanned _ _ _ _ hm⟩

end Engine

end ContractInference
