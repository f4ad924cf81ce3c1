import ContractInference.Proofs.Merging

/-!
# Merged mappings along paths

What a merged mapping has at the end of a path of keys: the overriding value, merged with the one
below it where both are mappings, or the value below where the overriding mapping is silent. A value
of the overriding mapping that is no mapping hides everything below it. Merging an overriding
mapping once more changes nothing.
-/

namespace ContractInference.Datum

variable {entries base override : List (Scalar × Datum)} {path : List Scalar} {v : Datum}

def at? : List Scalar → Datum → Option Datum
  | [], d => some d
  | k :: path, .map entries => (lookup? k entries).bind (at? path)
  | _ :: _, _ => none

/-- Some proper prefix of a path leads to a value that is no mapping. -/
def cuts : List Scalar → Datum → Bool
  | [], _ => false
  | k :: path, .map entries => (lookup? k entries).any (cuts path)
  | _ :: _, _ => true

theorem at?_eq_none_of_cuts (h : cuts path v = true) : at? path v = none := by
  induction path generalizing v with
  | nil => cases h
  | cons k path ih =>
    cases v with
    | scalar _ | list _ => rfl
    | map entries =>
      rw [at?]
      rw [cuts] at h
      cases hk : lookup? k entries with
      | none => rfl
      | some w =>
        rw [hk] at h
        exact ih h

/-- A path is not cut exactly if every value on the way to its end is a mapping. -/
theorem cuts_eq_false_iff : cuts path v = false ↔
    ∀ p w, p <+: path → p ≠ path → at? p v = some w → w.isMap = true := by
  induction path generalizing v with
  | nil => exact iff_of_true rfl fun p w hp hne => absurd (List.prefix_nil.1 hp) hne
  | cons k path ih =>
    have hstart : ([] : List Scalar) ≠ k :: path := (List.cons_ne_nil k path).symm
    cases v with
    | scalar _ | list _ =>
      -- The empty path is a proper prefix, and leads to the value itself.
      refine iff_of_false (by rintro ⟨⟩) fun h => ?_
      exact Bool.false_ne_true (h [] _ List.nil_prefix hstart rfl)
    | map entries =>
      have hcons : ∀ p, at? (k :: p) (.map entries) = (lookup? k entries).bind (at? p) :=
        fun p => rfl
      rw [cuts]
      cases hk : lookup? k entries with
      | none =>
        refine iff_of_true rfl fun p w hp _ hw => ?_
        rcases List.prefix_cons_iff.1 hp with rfl | ⟨p, rfl, -⟩
        · cases hw
          rfl
        · rw [hcons, hk] at hw
          cases hw
      | some d =>
        rw [Option.any_some, ih]
        refine ⟨fun h p w hp hne hw => ?_, fun h p w hp hne hw => ?_⟩
        · rcases List.prefix_cons_iff.1 hp with rfl | ⟨p, rfl, hrest⟩
          · cases hw
            rfl
          · rw [hcons, hk] at hw
            exact h p w hrest (fun heq => hne (congrArg (k :: ·) heq)) hw
        · refine h (k :: p) w (List.cons_prefix_cons.2 ⟨rfl, hp⟩) ?_ ?_
          · exact fun heq => hne (List.tail_eq_of_cons_eq heq)
          · rw [hcons, hk]
            exact hw

theorem at?_cons (k : Scalar) (path : List Scalar) (d : Datum) :
    at? (k :: path) d = (at? [k] d).bind (at? path) := by
  cases d with
  | scalar _ | list _ => rfl
  | map entries =>
    rw [at?, at?]
    cases lookup? k entries <;> rfl

theorem at?_singleton_mergeValue (old : Option Datum) (h : KeysDistinct override) (k : Scalar) :
    at? [k] (mergeValue old (.map override)) =
      mergeOption (old.bind (at? [k])) (lookup? k override) := by
  have hlookup : ∀ entries, at? [k] (.map entries) = lookup? k entries :=
    fun entries => Option.bind_fun_some (lookup? k entries)
  rcases old with _ | s | items | entries
  · rw [mergeValue_none, Option.bind_none, mergeOption_none_left, hlookup]
  · exact (hlookup override).trans (mergeOption_none_left _).symm
  · exact (hlookup override).trans (mergeOption_none_left _).symm
  · show at? [k] (.map (mergeEntries entries override)) = _
    rw [hlookup, lookup?_mergeEntries k entries h, Option.bind_some, hlookup]

/-- What a merged value has at a path: nothing if the overriding value cuts the path, and otherwise
the merged values of both. -/
theorem at?_mergeValue (old : Option Datum) (h : v.distinctKeys = true) (path : List Scalar) :
    at? path (mergeValue old v) =
      if cuts path v then none else mergeOption (old.bind (at? path)) (at? path v) := by
  -- One key further, both values are those under the key.
  induction path generalizing old v with
  | nil => cases old <;> rfl
  | cons k path ih =>
    cases v with
    | scalar _ | list _ => rfl
    | map new =>
      obtain ⟨hkeys, hvalues⟩ := distinctKeys_map_iff.1 h
      have hold : old.bind (at? (k :: path)) = (old.bind (at? [k])).bind (at? path) := by
        cases old with
        | none => rfl
        | some d => exact at?_cons k path d
      rw [at?_cons, at?_singleton_mergeValue old hkeys, hold, cuts, at?]
      cases hk : lookup? k new with
      | none => rfl
      | some w =>
        obtain ⟨_, -, hmem⟩ := exists_mem_of_lookup? hk
        exact ih (old.bind (at? [k])) (hvalues _ hmem)

theorem at?_mergeEntries (base : List (Scalar × Datum))
    (h : (Datum.map override).distinctKeys = true) (path : List Scalar) :
    at? path (.map (mergeEntries base override)) =
      if cuts path (.map override) then none
      else mergeOption (at? path (.map base)) (at? path (.map override)) :=
  at?_mergeValue (some (.map base)) h path

theorem setEntry_of_notMem {k : Scalar} (h : k.asKey ∉ entries.map (·.1.asKey)) (v : Datum) :
    setEntry k v entries = entries ++ [(k, v)] := by
  induction entries with
  | nil => rfl
  | cons e rest ih =>
    obtain ⟨hne, hrest⟩ := not_or.1 (mt List.mem_cons.2 h)
    rw [setEntry, if_neg (Ne.symm hne), ih hrest, List.cons_append]

theorem keys_setEntry_of_mem {k : Scalar} (h : k.asKey ∈ entries.map (·.1.asKey)) (v : Datum) :
    (setEntry k v entries).map Prod.fst = entries.map Prod.fst := by
  induction entries with
  | nil => cases h
  | cons e rest ih =>
    rw [setEntry]
    split
    case isTrue => rfl
    case isFalse hne =>
      have hrest := (List.mem_cons.1 h).resolve_left (Ne.symm hne)
      rw [List.map_cons, List.map_cons, ih hrest]

theorem map_asKey (entries : List (Scalar × Datum)) :
    entries.map (·.1.asKey) = (entries.map Prod.fst).map Scalar.asKey := by
  rw [List.map_map]
  rfl

theorem keys_mergeEntries (base : List (Scalar × Datum)) (h : KeysDistinct override) :
    (mergeEntries base override).map Prod.fst = base.map Prod.fst ++
      (override.map Prod.fst).filter (·.asKey ∉ base.map (·.1.asKey)) := by
  induction override generalizing base with
  | nil => rw [mergeEntries, List.map_nil, List.filter_nil, List.append_nil]
  | cons e rest ih =>
    obtain ⟨k, v⟩ := e
    obtain ⟨hk, hrest⟩ := List.nodup_cons.1 h
    rw [mergeEntries, ih _ hrest, List.map_cons, List.filter_cons]
    by_cases hmem : k.asKey ∈ base.map (·.1.asKey)
    · have hkeys := keys_setEntry_of_mem hmem (mergeValue (lookup? k base) v)
      rw [map_asKey (setEntry k _ base), hkeys, ← map_asKey, if_neg (by simpa using hmem)]
    · have hfilter : (rest.map Prod.fst).filter (·.asKey ∉ base.map (·.1.asKey) ++ [k.asKey]) =
          (rest.map Prod.fst).filter (·.asKey ∉ base.map (·.1.asKey)) := by
        refine List.filter_congr fun key hkey => ?_
        obtain ⟨e, he, rfl⟩ := List.mem_map.1 hkey
        have hne : e.1.asKey ≠ k.asKey := fun heq => hk (List.mem_map.2 ⟨e, he, heq⟩)
        simp [hne]
      rw [setEntry_of_notMem hmem, List.map_append, List.map_append, List.map_singleton,
        List.map_singleton, hfilter, if_pos (by simpa using hmem), List.append_assoc,
        List.singleton_append]

theorem mergeEntries_of_disjoint (h : KeysDistinct override)
    (hdisjoint : ∀ e ∈ override, e.1.asKey ∉ base.map (·.1.asKey)) :
    mergeEntries base override = base ++ override := by
  induction override generalizing base with
  | nil => exact (List.append_nil base).symm
  | cons e rest ih =>
    obtain ⟨k, v⟩ := e
    obtain ⟨hk, hrest⟩ := List.nodup_cons.1 h
    obtain ⟨hnew, hdisjoint⟩ := List.forall_mem_cons.1 hdisjoint
    rw [mergeEntries, lookup?_eq_none_of_notMem hnew, mergeValue_none, setEntry_of_notMem hnew,
      ih hrest, List.append_assoc, List.singleton_append]
    intro e he hmem
    rw [List.map_append, List.mem_append] at hmem
    rcases hmem with hmem | hmem
    · exact hdisjoint e he hmem
    · exact hk (List.mem_singleton.1 hmem ▸ List.mem_map_of_mem he)

theorem mergeEntries_nil_left (h : KeysDistinct override) : mergeEntries [] override = override :=
  mergeEntries_of_disjoint h fun _ _ => List.not_mem_nil

theorem setEntry_of_lookup? {k : Scalar} (h : lookup? k entries = some v) :
    setEntry k v entries = entries := by
  induction entries with
  | nil => cases h
  | cons e rest ih =>
    obtain ⟨k₀, w⟩ := e
    rw [lookup?] at h
    rw [setEntry]
    split at h
    case isTrue hk =>
      obtain rfl := Option.some.inj h
      rw [if_pos hk]
    case isFalse hk => rw [if_neg hk, ih h]

theorem mergeEntries_eq_base
    (h : ∀ e ∈ override, ∃ w, lookup? e.1 base = some w ∧ mergeValue (some w) e.2 = w) :
    mergeEntries base override = base := by
  induction override with
  | nil => rfl
  | cons e rest ih =>
    obtain ⟨⟨w, hw, hmerge⟩, hrest⟩ := List.forall_mem_cons.1 h
    rw [mergeEntries, hw, hmerge, setEntry_of_lookup? hw]
    exact ih hrest

theorem lookup?_of_mem (h : KeysDistinct entries) {e : Scalar × Datum} (he : e ∈ entries) :
    lookup? e.1 entries = some e.2 := by
  induction entries with
  | nil => cases he
  | cons e₀ rest ih =>
    obtain ⟨hnew, hrest⟩ := List.nodup_cons.1 h
    rw [lookup?]
    rcases List.mem_cons.1 he with rfl | he
    · exact if_pos rfl
    · have hne : e₀.1.asKey ≠ e.1.asKey := fun heq => hnew (List.mem_map.2 ⟨e, he, heq.symm⟩)
      rw [if_neg hne, ih hrest he]

theorem mergeEntries_again_of (hkeys : KeysDistinct override)
    (h : ∀ e ∈ override, ∀ old, mergeValue (some (mergeValue old e.2)) e.2 = mergeValue old e.2) :
    mergeEntries (mergeEntries base override) override = mergeEntries base override := by
  refine mergeEntries_eq_base fun e he => ⟨mergeValue (lookup? e.1 base) e.2, ?_, h e he _⟩
  rw [lookup?_mergeEntries e.1 base hkeys, lookup?_of_mem hkeys he]
  rfl

/-- What has been laid over a value changes nothing when it is laid over it again. -/
theorem mergeValue_again (old : Option Datum) (h : v.distinctKeys = true) :
    mergeValue (some (mergeValue old v)) v = mergeValue old v := by
  induction hsize : sizeOf v using Nat.strongRecOn generalizing old v with
  | ind n ih =>
    cases v with
    | scalar _ | list _ => rfl
    | map new =>
      obtain ⟨hkeys, hvalues⟩ := distinctKeys_map_iff.1 h
      -- A mapping that replaces what is below it is merged with the empty mapping.
      obtain ⟨entries, hentries⟩ :
          ∃ entries, mergeValue old (.map new) = .map (mergeEntries entries new) := by
        rcases mergeValue_cases old (.map new) with hnew | ⟨entries, _, -, ⟨⟩, hboth⟩
        · exact ⟨[], by rw [hnew, mergeEntries_nil_left hkeys]⟩
        · exact ⟨entries, hboth⟩
      rw [hentries]
      refine congrArg Datum.map (mergeEntries_again_of hkeys fun e he old => ?_)
      refine ih (sizeOf e.2) ?_ old (hvalues e he) rfl
      have hmem := List.sizeOf_lt_of_mem he
      obtain ⟨k, w⟩ := e
      simp only [Prod.mk.sizeOf_spec, Datum.map.sizeOf_spec] at hmem hsize ⊢
      omega

theorem mergeEntries_again (base : List (Scalar × Datum))
    (h : (Datum.map override).distinctKeys = true) :
    mergeEntries (mergeEntries base override) override = mergeEntries base override := by
  obtain ⟨hkeys, hvalues⟩ := distinctKeys_map_iff.1 h
  exact mergeEntries_again_of hkeys fun e he old => mergeValue_again old (hvalues e he)

theorem mergeEntries_self (h : (Datum.map base).distinctKeys = true) :
    mergeEntries base base = base := by
  have hnil := mergeEntries_nil_left (distinctKeys_map_iff.1 h).1
  have hagain := mergeEntries_again [] h
  rwa [hnil] at hagain

theorem at?_mergeEntries_of_base (h : (Datum.map override).distinctKeys = true)
    (hnone : at? path (.map override) = none)
    (hway : ∀ p w, p <+: path → p ≠ path → at? p (.map override) = some w → w.isMap = true) :
    at? path (.map (mergeEntries base override)) = at? path (.map base) := by
  have hcuts := cuts_eq_false_iff.2 hway
  rw [at?_mergeEntries base h, hcuts, hnone]
  rfl

/-- A value of a merged mapping is a value of one of the two, or a mapping of one merged with a
mapping of the other. -/
theorem at?_mergeEntries_cases (h : (Datum.map override).distinctKeys = true)
    (hv : at? path (.map (mergeEntries base override)) = some v) :
    at? path (.map override) = some v ∨ at? path (.map base) = some v ∨
      ∃ old new, at? path (.map base) = some (.map old) ∧
        at? path (.map override) = some (.map new) ∧ v = .map (mergeEntries old new) := by
  rw [at?_mergeEntries base h] at hv
  split at hv
  case isTrue => cases hv
  case isFalse =>
    cases hnew : at? path (.map override) with
    | none =>
      rw [hnew] at hv
      exact .inr (.inl hv)
    | some w =>
      rw [hnew] at hv
      obtain rfl := Option.some.inj hv
      rcases mergeValue_cases (at? path (.map base)) w with heq | ⟨old, new, hold, rfl, hboth⟩
      · exact .inl (congrArg some heq.symm)
      · exact .inr (.inr ⟨old, new, hold, rfl, hboth⟩)

/-- Overriding path by path. A value of the overriding mapping that is no mapping stands in the
result. So does one of the base, unless the overriding mapping has its path or a value that is no
mapping on the way there. Nothing else is in the result. Keys of the base come before the new ones,
and merging with nothing, with itself or once more changes nothing. -/
theorem mergeEntries_overrides (hbase : (Datum.map base).distinctKeys = true)
    (hoverride : (Datum.map override).distinctKeys = true) :
    (∀ path v, at? path (.map override) = some v → v.isMap = false →
      at? path (.map (mergeEntries base override)) = some v) ∧
    (∀ path v, at? path (.map base) = some v → v.isMap = false →
      at? path (.map override) = none →
      (∀ p w, p <+: path → p ≠ path → at? p (.map override) = some w → w.isMap = true) →
      at? path (.map (mergeEntries base override)) = some v) ∧
    (∀ path v, at? path (.map (mergeEntries base override)) = some v →
      at? path (.map override) = some v ∨ at? path (.map base) = some v ∨
        ∃ old new, at? path (.map base) = some (.map old) ∧
          at? path (.map override) = some (.map new) ∧ v = .map (mergeEntries old new)) ∧
    (mergeEntries base override).map Prod.fst = base.map Prod.fst ++
      (override.map Prod.fst).filter (·.asKey ∉ base.map (·.1.asKey)) ∧
    mergeEntries base [] = base ∧ mergeEntries [] override = override ∧
    mergeEntries base base = base ∧
    mergeEntries (mergeEntries base override) override = mergeEntries base override := by
  have hkeys := (distinctKeys_map_iff.1 hoverride).1
  refine ⟨fun path v hv hmap => ?_, fun path v hv _ hnone hway => ?_,
    fun path v hv => at?_mergeEntries_cases hoverride hv, keys_mergeEntries base hkeys, rfl,
    mergeEntries_nil_left hkeys, mergeEntries_self hbase, mergeEntries_again base hoverride⟩
  · have hcuts : cuts path (.map override) = false := by
      rw [Bool.eq_false_iff]
      intro hcuts
      rw [at?_eq_none_of_cuts hcuts] at hv
      cases hv
    rw [at?_mergeEntries base hoverride, hcuts, hv]
    exact congrArg some (mergeValue_of_not_isMap _ hmap)
  · rw [at?_mergeEntries_of_base hoverride hnone hway, hv]

/-- A text under `a.b.c`, a number under `a.d` and a mapping under `e`. -/
def layeredBase : List (Scalar × Datum) :=
  [(.text "a", .record [("b", .record [("c", .text "deep")]), ("d", .int 1)]),
    (.text "e", .record [("f", .int 2)])]

/-- A text in the place of `a.b`, a mapping in the place of a number and a new key. -/
def layeredOverride : List (Scalar × Datum) :=
  [(.text "g", .null), (.text "a", .record [("b", .text "flat"), ("h", .record [])]),
    (.text "e", .record [("f", .record [("i", .int 3)])])]

theorem mergeEntries_overrides_layered :
    (Datum.map layeredBase).distinctKeys = true ∧ (Datum.map layeredOverride).distinctKeys = true ∧
    at? [.text "a", .text "b"] (.map (mergeEntries layeredBase layeredOverride)) =
      some (.text "flat") ∧
    at? [.text "a", .text "d"] (.map (mergeEntries layeredBase layeredOverride)) = some (.int 1) ∧
    at? [.text "e", .text "f", .text "i"] (.map (mergeEntries layeredBase layeredOverride)) =
      some (.int 3) ∧
    (mergeEntries layeredBase layeredOverride).map Prod.fst =
      [.text "a", .text "e", .text "g"] ∧
    mergeEntries (mergeEntries layeredBase layeredOverride) layeredOverride =
      mergeEntries layeredBase layeredOverride := by
  have hbase : (Datum.map layeredBase).distinctKeys = true := by decide
  have hoverride : (Datum.map layeredOverride).distinctKeys = true := by decide
  obtain ⟨hnew, hkept, -, hkeys, -, -, -, hagain⟩ := mergeEntries_overrides hbase hoverride
  exact ⟨hbase, hoverride, hnew _ _ rfl rfl, hkept _ _ rfl rfl rfl (cuts_eq_false_iff.1 rfl),
    hnew _ _ rfl rfl, hkeys, hagain⟩

end ContractInference.Datum
