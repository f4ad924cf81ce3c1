import ContractInference.Table
import Mathlib

/-!
# Tables that are written step by step

The keys of a table stand in the order in which they are first written, and each has the value that
is written last.
-/

namespace ContractInference.Table

variable {κ α β : Type} [DecidableEq κ]

theorem hasKey_put (t : Table κ α) (key k : κ) (value : α) :
    hasKey (put t key value) k = (decide (key = k) || hasKey t k) := by
  rw [hasKey_eq_isSome, get?_put, hasKey_eq_isSome]
  by_cases h : key = k <;> simp [h]

theorem keys_putNew (t : Table κ α) (key : κ) (value : α) :
    keys (putNew t key value) = if hasKey t key then keys t else keys t ++ [key] := by
  unfold putNew
  split
  · rfl
  · rw [keys, List.map_append]
    rfl

theorem nodup_keys_put {t : Table κ α} (h : (keys t).Nodup) (key : κ) (value : α) :
    (keys (put t key value)).Nodup := by
  rw [keys_put]
  by_cases hkey : hasKey t key = true
  · rwa [if_pos hkey]
  · have hnew : key ∉ keys t := by simpa [hasKey, keys] using hkey
    rw [if_neg hkey]
    exact List.nodup_append.2 ⟨h, by simp, fun k hk k' hk' => by
      rw [List.mem_singleton.1 hk']
      exact fun heq => hnew (heq ▸ hk)⟩

theorem mem_put {t : Table κ α} {key : κ} {value : α} {e : κ × α} (h : e ∈ put t key value) :
    e ∈ t ∨ e = (key, value) := by
  induction t with
  | nil => simpa [put] using h
  | cons e₀ rest ih =>
    by_cases hkey : e₀.1 = key
    · have hmem : e = (key, value) ∨ e ∈ rest := by simpa [put, hkey] using h
      rcases hmem with rfl | hmem
      · exact .inr rfl
      · exact .inl (List.mem_cons_of_mem _ hmem)
    · have hmem : e = e₀ ∨ e ∈ put rest key value := by simpa [put, hkey] using h
      rcases hmem with rfl | hmem
      · exact .inl List.mem_cons_self
      · exact (ih hmem).imp_left (List.mem_cons_of_mem _)

theorem ofList_spec (entries : List (κ × α)) :
    (keys (ofList entries)).Nodup ∧ ∀ e ∈ ofList entries, e ∈ entries := by
  suffices hfold : ∀ (es : List (κ × α)) (t : Table κ α), (keys t).Nodup →
      (keys (es.foldl (fun t e => put t e.1 e.2) t)).Nodup ∧
        ∀ e ∈ es.foldl (fun t e => put t e.1 e.2) t, e ∈ t ∨ e ∈ es by
    obtain ⟨hnodup, hmem⟩ := hfold entries [] List.nodup_nil
    exact ⟨hnodup, fun e he => (hmem e he).resolve_left (by simp)⟩
  intro es
  induction es with
  | nil => exact fun t ht => ⟨ht, fun e he => .inl he⟩
  | cons e₀ es ih =>
    intro t ht
    obtain ⟨hnodup, hmem⟩ := ih (put t e₀.1 e₀.2) (nodup_keys_put ht _ _)
    refine ⟨hnodup, fun e he => ?_⟩
    rcases hmem e he with h | h
    · refine (mem_put h).imp_right fun heq => ?_
      rw [heq]
      exact List.mem_cons_self
    · exact .inr (List.mem_cons_of_mem _ h)

theorem ofList_concat (entries : List (κ × α)) (e : κ × α) :
    ofList (entries ++ [e]) = put (ofList entries) e.1 e.2 := by
  rw [ofList, List.foldl_append]
  rfl

/-- Entries that are written one after the other, where a key that is there keeps its place and a
new one comes last, leave the keys in the order in which they are first written. -/
theorem keys_foldl {ι : Type} {write : Table κ α → ι → Table κ α} {key : ι → κ}
    (h : ∀ t i, keys (write t i) = if hasKey t (key i) then keys t else keys t ++ [key i])
    (is : List ι) : keys (is.foldl write []) = (is.map key).eraseDups := by
  induction is using List.reverseRecOn with
  | nil => rfl
  | append_singleton is i ih =>
    have hkey : hasKey (is.foldl write []) (key i) = true ↔ key i ∈ is.map key := by
      rw [← List.mem_eraseDups, ← ih]
      simp [hasKey, keys]
    rw [List.foldl_append, List.foldl_cons, List.foldl_nil, h, ih, List.map_append,
      List.map_singleton, List.eraseDups_append]
    by_cases hmem : key i ∈ is.map key
    · rw [if_pos (hkey.2 hmem), List.removeAll, List.filter_cons_of_neg (by simpa using hmem)]
      simp
    · rw [if_neg (mt hkey.1 hmem), List.removeAll, List.filter_cons_of_pos (by simpa using hmem)]
      simp [List.eraseDups_cons]

theorem keys_ofList (entries : List (κ × α)) :
    keys (ofList entries) = (entries.map Prod.fst).eraseDups :=
  keys_foldl (fun t e => keys_put t e.1 e.2) entries

theorem get?_ofList (entries : List (κ × α)) (key : κ) :
    get? (ofList entries) key = get? entries.reverse key := by
  induction entries using List.reverseRecOn with
  | nil => rfl
  | append_singleton entries e ih =>
    rw [ofList_concat, get?_put, ih, List.reverse_concat, ← List.singleton_append, get?_append,
      get?_singleton]
    split <;> rfl

theorem get?_of_mem {t : Table κ α} (h : (keys t).Nodup) {e : κ × α} (he : e ∈ t) :
    get? t e.1 = some e.2 := by
  induction t with
  | nil => cases he
  | cons e₀ rest ih =>
    obtain ⟨hnew, hrest⟩ := List.nodup_cons.1 h
    rcases List.mem_cons.1 he with rfl | he
    · simp [get?]
    · have hne : e₀.1 ≠ e.1 := fun heq => hnew (List.mem_map.2 ⟨e, he, heq.symm⟩)
      rw [← List.singleton_append, get?_append, get?_singleton, if_neg hne, Option.none_or,
        ih hrest he]

/-- The keys in the order of their first entries, each with the value of its last one. -/
theorem forall₂_entries_ofList (entries : List (κ × α)) :
    List.Forall₂ (fun key e => e.1 = key ∧ get? entries.reverse key = some e.2)
      (entries.map Prod.fst).eraseDups (ofList entries) := by
  rw [← keys_ofList, keys, List.forall₂_map_left_iff, List.forall₂_same]
  intro e he
  exact ⟨rfl, by rw [← get?_ofList, get?_of_mem (ofList_spec entries).1 he]⟩

theorem forall₂_ofList (entries : List (κ × α)) :
    List.Forall₂ (fun key value => get? entries.reverse key = some value)
      (entries.map Prod.fst).eraseDups (values (ofList entries)) := by
  rw [values, List.forall₂_map_right_iff]
  exact (forall₂_entries_ofList entries).imp fun _ _ h => h.2

theorem exists_get?_of_forall₂ {R : κ → α → β → Prop} {t : Table κ α} {u : Table κ β}
    (h : List.Forall₂ (fun e e' => e.1 = e'.1 ∧ R e.1 e.2 e'.2) t u) {key : κ} {b : β}
    (hb : get? u key = some b) : ∃ a, get? t key = some a ∧ R key a b := by
  induction h with
  | nil => cases hb
  | @cons e e' t u hentry _ ih =>
    obtain ⟨hkey, hR⟩ := hentry
    rw [← List.singleton_append, get?_append] at hb ⊢
    rw [get?_singleton] at hb ⊢
    rw [← hkey] at hb
    by_cases h : e.1 = key
    · rw [if_pos h, Option.some_or] at hb ⊢
      cases hb
      exact ⟨e.2, rfl, h ▸ hR⟩
    · rw [if_neg h, Option.none_or] at hb ⊢
      exact ih hb

theorem ofList_of_nodup {entries : List (κ × α)} (h : (entries.map Prod.fst).Nodup) :
    ofList entries = entries := by
  suffices hfold : ∀ (es : List (κ × α)) (t : Table κ α), ((t ++ es).map Prod.fst).Nodup →
      es.foldl (fun t e => put t e.1 e.2) t = t ++ es from hfold entries [] h
  intro es
  induction es with
  | nil => exact fun t _ => (List.append_nil t).symm
  | cons e es ih =>
    intro t ht
    have hnew : hasKey t e.1 = false := by
      rw [hasKey, List.any_eq_false]
      intro e' he hk
      rw [List.map_append, List.nodup_append] at ht
      exact ht.2.2 e'.1 (List.mem_map_of_mem he) e.1 (by simp) (of_decide_eq_true hk)
    rw [List.foldl_cons, put_eq_append hnew, ih _ (by simpa using ht), List.append_assoc]
    rfl

theorem get?_filter (t : Table κ α) (P : κ → Prop) [DecidablePred P] (key : κ) :
    get? (t.filter (P ·.1)) key = if P key then get? t key else none := by
  rw [get?, get?, List.find?_filter]
  by_cases hkey : P key
  · rw [if_pos hkey]
    congr 2
    funext e
    by_cases h : e.1 = key <;> simp [h, hkey]
  · rw [if_neg hkey, Option.map_eq_none_iff, List.find?_eq_none]
    rintro e - he
    obtain ⟨hP, rfl⟩ : P e.1 ∧ e.1 = key := by simpa using he
    exact hkey hP

theorem map_put (g : α → β) (t : Table κ α) (key : κ) (value : α) :
    (put t key value).map (fun e => (e.1, g e.2)) =
      put (t.map fun e => (e.1, g e.2)) key (g value) := by
  induction t with
  | nil => rfl
  | cons e rest ih => by_cases h : e.1 = key <;> simp [put, h, ih]

theorem map_putNew (g : α → β) (t : Table κ α) (key : κ) (value : α) :
    (putNew t key value).map (fun e => (e.1, g e.2)) =
      putNew (t.map fun e => (e.1, g e.2)) key (g value) := by
  have hkey : hasKey (t.map fun e => (e.1, g e.2)) key = hasKey t key := by
    simp [hasKey, Function.comp_def]
  rw [putNew, putNew, hkey]
  split
  · rfl
  · simp

end ContractInference.Table
