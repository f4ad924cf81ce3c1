/-!
# Tables

Associations that keep the order in which their keys were first written.
-/

namespace ContractInference

abbrev Table (κ α : Type) := List (κ × α)

namespace Table

variable {κ α : Type} [DecidableEq κ]

def get? (t : Table κ α) (key : κ) : Option α := (t.find? (·.1 = key)).map (·.2)

def keys (t : Table κ α) : List κ := t.map (·.1)

def values (t : Table κ α) : List α := t.map (·.2)

def hasKey (t : Table κ α) (key : κ) : Bool := t.any (·.1 = key)

/-- Writes a value; a key that is there keeps its place. -/
def put (t : Table κ α) (key : κ) (value : α) : Table κ α :=
  match t with
  | [] => [(key, value)]
  | (k, v) :: rest => if k = key then (k, value) :: rest else (k, v) :: put rest key value

/-- Writes a value under a key that is not there yet. -/
def putNew (t : Table κ α) (key : κ) (value : α) : Table κ α :=
  if hasKey t key then t else t ++ [(key, value)]

/-- Writes the entries from the left; the last value of a key is kept. -/
def ofList (entries : List (κ × α)) : Table κ α :=
  entries.foldl (fun t (k, v) => put t k v) []

theorem get?_put (t : Table κ α) (key k : κ) (value : α) :
    get? (put t key value) k = if key = k then some value else get? t k := by
  induction t with
  | nil => by_cases h : key = k <;> simp [put, get?, h]
  | cons e rest ih =>
    obtain ⟨k₀, v₀⟩ := e
    simp only [get?] at ih
    by_cases h₀ : k₀ = key <;> by_cases h : key = k <;> by_cases h₁ : k₀ = k <;>
      simp_all [put, get?]

theorem hasKey_eq_isSome (t : Table κ α) (key : κ) : hasKey t key = (get? t key).isSome := by
  induction t with
  | nil => rfl
  | cons e rest ih =>
    simp only [hasKey, get?] at ih
    by_cases h : e.1 = key <;> simp_all [hasKey, get?]

theorem get?_append (t u : Table κ α) (key : κ) :
    get? (t ++ u) key = (get? t key).or (get? u key) := by
  simp only [get?, List.find?_append]
  cases List.find? (fun e => decide (e.1 = key)) t <;> rfl

theorem get?_singleton (key k : κ) (value : α) :
    get? [(key, value)] k = if key = k then some value else none := by
  by_cases h : key = k <;> simp [get?, h]

theorem get?_putNew (t : Table κ α) (key k : κ) (value : α) :
    get? (putNew t key value) k =
      if key = k then (get? t k).or (some value) else get? t k := by
  unfold putNew
  by_cases h : key = k
  · subst h
    cases hg : get? t key with
    | some v => simp [hasKey_eq_isSome, hg]
    | none => simp [hasKey_eq_isSome, hg, get?_append, get?_singleton]
  · cases hasKey t key <;> simp [get?_append, get?_singleton, h]

theorem mem_of_get? {t : Table κ α} {key : κ} {value : α} (h : get? t key = some value) :
    (key, value) ∈ t := by
  obtain ⟨e, hfind, rfl⟩ := Option.map_eq_some_iff.1 h
  obtain rfl : e.1 = key := by simpa using List.find?_some hfind
  exact List.mem_of_find?_eq_some hfind

theorem put_eq_append {t : Table κ α} {key : κ} (h : hasKey t key = false) (value : α) :
    put t key value = t ++ [(key, value)] := by
  induction t with
  | nil => rfl
  | cons e rest ih =>
    obtain ⟨hne, hrest⟩ : ¬ e.1 = key ∧ hasKey rest key = false := by simpa [hasKey] using h
    simp [put, hne, ih hrest]

/-- A key that is written again keeps its place, and a new one comes last. -/
theorem keys_put (t : Table κ α) (key : κ) (value : α) :
    keys (put t key value) = if hasKey t key then keys t else keys t ++ [key] := by
  induction t with
  | nil => simp [put, keys, hasKey]
  | cons e rest ih =>
    obtain ⟨k₀, v₀⟩ := e
    by_cases h : k₀ = key
    · simp [put, keys, hasKey, h]
    · have hput : keys (put ((k₀, v₀) :: rest) key value) = k₀ :: keys (put rest key value) := by
        simp [put, keys, h]
      have hkey : hasKey ((k₀, v₀) :: rest) key = hasKey rest key := by simp [hasKey, h]
      rw [hput, hkey, ih]
      split <;> simp [keys]

end Table

end ContractInference
