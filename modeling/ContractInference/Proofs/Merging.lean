import ContractInference.Datum.Merge
import Mathlib.Data.List.Nodup

/-!
# Merged mappings

What stands under a key of a merged mapping. A property of entries that merging two mappings under
one key keeps holds of the merged mapping whenever it holds of both.
-/

namespace ContractInference

@[simp] theorem Scalar.asKey_text (s : String) : (Scalar.text s).asKey = .text s := rfl

theorem Scalar.asKey_eq_text {k : Scalar} {s : String} : k.asKey = .text s ↔ k = .text s := by
  cases k with
  | float x =>
    rw [asKey]
    split <;> simp
  | _ => simp [asKey]

namespace Datum

/-- No key occurs twice, in whatever form. -/
def KeysDistinct (entries : List (Scalar × Datum)) : Prop := (entries.map (·.1.asKey)).Nodup

instance (entries : List (Scalar × Datum)) : Decidable (KeysDistinct entries) :=
  inferInstanceAs (Decidable (entries.map (·.1.asKey)).Nodup)

mutual

/-- No mapping inside a value has a key twice. -/
def distinctKeys : Datum → Bool
  | .scalar _ => true
  | .list items => distinctKeysItems items
  | .map entries => decide (KeysDistinct entries) && distinctKeysEntries entries

def distinctKeysItems : List Datum → Bool
  | [] => true
  | d :: ds => d.distinctKeys && distinctKeysItems ds

def distinctKeysEntries : List (Scalar × Datum) → Bool
  | [] => true
  | (_, v) :: rest => v.distinctKeys && distinctKeysEntries rest

end

variable {entries base override : List (Scalar × Datum)} {k key : Scalar} {v : Datum}

theorem exists_mem_of_lookup? (h : lookup? key entries = some v) :
    ∃ k, k.asKey = key.asKey ∧ (k, v) ∈ entries := by
  induction entries with
  | nil => cases h
  | cons e rest ih =>
    obtain ⟨k, w⟩ := e
    rw [lookup?] at h
    split at h
    case isTrue hk =>
      cases h
      exact ⟨k, hk, List.mem_cons_self⟩
    case isFalse =>
      obtain ⟨k, hk, hmem⟩ := ih h
      exact ⟨k, hk, List.mem_cons_of_mem _ hmem⟩

theorem mem_of_lookup?_text {name : String} (h : lookup? (.text name) entries = some v) :
    (Scalar.text name, v) ∈ entries := by
  obtain ⟨k, hk, hmem⟩ := exists_mem_of_lookup? h
  rwa [Scalar.asKey_eq_text.1 hk] at hmem

theorem lookup?_eq_none_of_notMem (h : key.asKey ∉ entries.map (·.1.asKey)) :
    lookup? key entries = none := by
  cases hl : lookup? key entries with
  | none => rfl
  | some v =>
    obtain ⟨k, hk, hmem⟩ := exists_mem_of_lookup? hl
    exact absurd (List.mem_map.2 ⟨_, hmem, hk⟩) h

theorem lookup?_congr (h : k.asKey = key.asKey) (entries : List (Scalar × Datum)) :
    lookup? k entries = lookup? key entries := by
  induction entries with
  | nil => rfl
  | cons e rest ih => rw [lookup?, lookup?, h, ih]

theorem lookup?_setEntry (k key : Scalar) (v : Datum) (entries : List (Scalar × Datum)) :
    lookup? k (setEntry key v entries) =
      if key.asKey = k.asKey then some v else lookup? k entries := by
  induction entries with
  | nil => rfl
  | cons e rest ih =>
    obtain ⟨k₀, w⟩ := e
    rw [setEntry]
    split
    case isTrue h =>
      simp only [lookup?, h]
      split <;> rfl
    case isFalse h =>
      simp only [lookup?, ih]
      by_cases hk : k₀.asKey = k.asKey
      · rw [if_pos hk, if_neg fun hkey => h (hk.trans hkey.symm), if_pos hk]
      · rw [if_neg hk, if_neg hk]

/-- An entry of a mapping in which a key has been set is an old one, or has the new value, under
the form that the key had or under its new one. -/
theorem mem_setEntry {e : Scalar × Datum} (h : e ∈ setEntry key v entries) : e ∈ entries ∨
    e.2 = v ∧ e.1.asKey = key.asKey ∧ (e.1 = key ∨ e.1 ∈ entries.map Prod.fst) := by
  induction entries with
  | nil =>
    obtain rfl := List.mem_singleton.1 h
    exact .inr ⟨rfl, rfl, .inl rfl⟩
  | cons e₀ rest ih =>
    obtain ⟨k₀, w⟩ := e₀
    rw [setEntry] at h
    split at h
    case isTrue hk =>
      rcases List.mem_cons.1 h with rfl | h
      · exact .inr ⟨rfl, hk, .inr List.mem_cons_self⟩
      · exact .inl (List.mem_cons_of_mem _ h)
    case isFalse =>
      rcases List.mem_cons.1 h with rfl | h
      · exact .inl List.mem_cons_self
      · refine (ih h).imp (List.mem_cons_of_mem _) fun h => ⟨h.1, h.2.1, ?_⟩
        exact h.2.2.imp_right (List.mem_cons_of_mem _)

/-- The value of a key that has `old` and `new` in the two mappings. -/
def mergeOption (old new : Option Datum) : Option Datum :=
  match new with
  | some v => some (mergeValue old v)
  | none => old

theorem mergeValue_cases (old : Option Datum) (v : Datum) : mergeValue old v = v ∨
    ∃ entries new, old = some (.map entries) ∧ v = .map new ∧
      mergeValue old v = .map (mergeEntries entries new) := by
  cases v with
  | scalar s => exact .inl rfl
  | list items => exact .inl rfl
  | map new =>
    cases old with
    | none => exact .inl rfl
    | some d =>
      cases d with
      | scalar s => exact .inl rfl
      | list items => exact .inl rfl
      | map entries => exact .inr ⟨entries, new, rfl, rfl, rfl⟩

theorem mergeValue_none (v : Datum) : mergeValue none v = v := by
  cases v <;> rfl

@[simp] theorem mergeOption_none_left (new : Option Datum) : mergeOption none new = new := by
  cases new with
  | none => rfl
  | some v => exact congrArg some (mergeValue_none v)

theorem mergeValue_of_not_isMap (old : Option Datum) (h : v.isMap = false) :
    mergeValue old v = v := by
  rcases mergeValue_cases old v with hnew | ⟨entries, new, -, rfl, -⟩
  · exact hnew
  · cases h

theorem mergeOption_eq_or (old : Option Datum) {new : Option Datum}
    (h : ∀ v, new = some v → v.isMap = false) : mergeOption old new = new.or old := by
  cases new with
  | none => rfl
  | some v => exact congrArg some (mergeValue_of_not_isMap old (h v rfl))

theorem mergeValue_isMap (old : Option Datum) (v : Datum) : (mergeValue old v).isMap = v.isMap := by
  rcases mergeValue_cases old v with hnew | ⟨entries, new, -, rfl, hboth⟩
  · rw [hnew]
  · rw [hboth]
    rfl

theorem mergeOption_eq_or_of_merged {old new : Option Datum}
    (h : ∀ v, mergeOption old new = some v → v.isMap = false) :
    mergeOption old new = new.or old := by
  refine mergeOption_eq_or old fun v hv => ?_
  subst hv
  rw [← mergeValue_isMap old v]
  exact h _ rfl

theorem mergeOption_eq_none {old new : Option Datum} :
    mergeOption old new = none ↔ old = none ∧ new = none := by
  cases new <;> simp [mergeOption]

theorem exists_of_mergeOption {old new : Option Datum} (h : mergeOption old new = some v) :
    ∃ w, (new = some w ∨ old = some w) ∧ v.isMap = w.isMap := by
  cases new with
  | none => exact ⟨v, .inr h, rfl⟩
  | some w =>
    obtain rfl := Option.some.inj h
    exact ⟨w, .inl rfl, mergeValue_isMap old w⟩

theorem lookup?_mergeEntries (k : Scalar) (base : List (Scalar × Datum))
    (h : KeysDistinct override) :
    lookup? k (mergeEntries base override) = mergeOption (lookup? k base) (lookup? k override) := by
  induction override generalizing base with
  | nil => rfl
  | cons e rest ih =>
    obtain ⟨key, v⟩ := e
    obtain ⟨hkey, hrest⟩ := List.nodup_cons.1 h
    rw [mergeEntries, ih _ hrest, lookup?_setEntry, lookup?]
    by_cases hk : key.asKey = k.asKey
    · rw [if_pos hk, if_pos hk, lookup?_congr hk.symm rest, lookup?_eq_none_of_notMem hkey,
        lookup?_congr hk base]
      rfl
    · rw [if_neg hk, if_neg hk]

/-- A property that merging two mappings under one key keeps passes from both mappings to the
merged one. -/
theorem forall_mem_mergeEntries {P : Scalar → Datum → Prop}
    (hkey : ∀ k key v, k.asKey = key.asKey → P key v → P k v)
    (hP : ∀ k old new, P k (.map old) → P k (.map new) → P k (.map (mergeEntries old new)))
    (hbase : ∀ e ∈ base, P e.1 e.2) (hoverride : ∀ e ∈ override, P e.1 e.2) :
    ∀ e ∈ mergeEntries base override, P e.1 e.2 := by
  induction override generalizing base with
  | nil => exact hbase
  | cons e rest ih =>
    obtain ⟨key, v⟩ := e
    have hv : P key v := hoverride _ List.mem_cons_self
    refine ih (fun e he => ?_) fun e he => hoverride e (List.mem_cons_of_mem _ he)
    rcases mem_setEntry he with he | ⟨hvalue, hk, -⟩
    · exact hbase e he
    · -- The only value that is in neither of the two mappings.
      refine hkey _ _ _ hk ?_
      rw [hvalue]
      rcases mergeValue_cases (lookup? key base) v with hnew | ⟨old, new, hold, rfl, hboth⟩
      · rw [hnew]
        exact hv
      · obtain ⟨k, hk, hmem⟩ := exists_mem_of_lookup? hold
        rw [hboth]
        exact hP key old new (hkey _ _ _ hk.symm (hbase _ hmem)) hv

/-- A property of values that says the same of each mapping inside passes from two mappings to the
merged one. -/
theorem mergeEntries_closed {Q : Datum → Prop} {K : List (Scalar × Datum) → Prop}
    {R : Scalar → Prop}
    (hQ : ∀ entries, Q (.map entries) ↔ K entries ∧ ∀ e ∈ entries, R e.1 ∧ Q e.2)
    (htail : ∀ e rest, K (e :: rest) → K rest)
    (hset : ∀ k v entries, K entries → K (setEntry k v entries)) (hbase : Q (.map base))
    (hoverride : Q (.map override)) : Q (.map (mergeEntries base override)) := by
  -- The rest of the overriding mapping and the mappings under its keys are smaller than it.
  induction hsize : sizeOf override using Nat.strongRecOn generalizing base override with
  | ind n ih =>
    subst hsize
    cases override with
    | nil => exact hbase
    | cons e rest =>
      obtain ⟨k, v⟩ := e
      obtain ⟨hKbase, hbase⟩ := (hQ base).1 hbase
      obtain ⟨hKrest, hrest⟩ := (hQ _).1 hoverride
      obtain ⟨hRk, hQv⟩ := hrest _ List.mem_cons_self
      have hmerged : Q (mergeValue (lookup? k base) v) := by
        rcases mergeValue_cases (lookup? k base) v with hnew | ⟨old, new, hold, rfl, hboth⟩
        · rw [hnew]
          exact hQv
        · rw [hboth]
          obtain ⟨_, -, hmem⟩ := exists_mem_of_lookup? hold
          refine ih (sizeOf new) ?_ (hbase _ hmem).2 hQv rfl
          simp only [List.cons.sizeOf_spec, Prod.mk.sizeOf_spec, Datum.map.sizeOf_spec]
          omega
      rw [mergeEntries]
      refine ih (sizeOf rest) ?_ ((hQ _).2 ⟨hset _ _ _ hKbase, fun e he => ?_⟩)
        ((hQ _).2 ⟨htail _ _ hKrest, fun e he => hrest e (List.mem_cons_of_mem _ he)⟩) rfl
      · simp only [List.cons.sizeOf_spec]
        omega
      · rcases mem_setEntry he with he | ⟨hvalue, -, hform⟩
        · exact hbase e he
        · refine ⟨?_, by rwa [hvalue]⟩
          rcases hform with hk | hmem
          · rwa [hk]
          · obtain ⟨e₀, he₀, hk⟩ := List.mem_map.1 hmem
            rw [← hk]
            exact (hbase e₀ he₀).1

theorem distinctKeysEntries_iff :
    distinctKeysEntries entries = true ↔ ∀ e ∈ entries, e.2.distinctKeys = true := by
  induction entries with
  | nil => exact iff_of_true rfl fun _ h => absurd h List.not_mem_nil
  | cons e rest ih =>
    rw [distinctKeysEntries, Bool.and_eq_true, ih, List.forall_mem_cons]

theorem distinctKeys_map_iff : (Datum.map entries).distinctKeys = true ↔
    KeysDistinct entries ∧ ∀ e ∈ entries, e.2.distinctKeys = true := by
  rw [distinctKeys, Bool.and_eq_true, decide_eq_true_iff, distinctKeysEntries_iff]

theorem keysDistinct_setEntry (k : Scalar) (v : Datum) (h : KeysDistinct entries) :
    KeysDistinct (setEntry k v entries) := by
  induction entries with
  | nil => exact List.nodup_singleton k.asKey
  | cons e rest ih =>
    obtain ⟨k₀, w⟩ := e
    rw [setEntry]
    split
    case isTrue => exact h
    case isFalse hk =>
      obtain ⟨hk₀, hrest⟩ := List.nodup_cons.1 h
      refine List.nodup_cons.2 ⟨fun hmem => ?_, ih hrest⟩
      obtain ⟨e, he, hsame⟩ := List.mem_map.1 hmem
      rcases mem_setEntry he with he | ⟨-, hkey, -⟩
      · exact hk₀ (List.mem_map.2 ⟨e, he, hsame⟩)
      · exact hk (hsame.symm.trans hkey)

theorem distinctKeys_mergeEntries (hbase : (Datum.map base).distinctKeys = true)
    (hoverride : (Datum.map override).distinctKeys = true) :
    (Datum.map (mergeEntries base override)).distinctKeys = true :=
  mergeEntries_closed (Q := fun d => d.distinctKeys = true) (K := KeysDistinct) (R := fun _ => True)
    (fun entries => by simp only [distinctKeys_map_iff, true_and])
    (fun _ _ h => (List.nodup_cons.1 h).2) (fun k v _ h => keysDistinct_setEntry k v h)
    hbase hoverride

end Datum

end ContractInference
