import ContractInference.Schema.Map

/-!
# The cache

The maps of files that have been read, by the path of the file. The first map of a path stays.
-/

namespace ContractInference

abbrev Cache := Table String SchemaMap

namespace Cache

def get? (c : Cache) (path : String) : Option SchemaMap := Table.get? c path

/-- Keeps a map unless there is one, and gives the one that is kept. -/
def putIfAbsent (c : Cache) (path : String) (m : SchemaMap) : SchemaMap × Cache :=
  match c.get? path with
  | some kept => (kept, c)
  | none => (m, Table.putNew c path m)

def size (c : Cache) : Nat := List.length c

theorem putIfAbsent_fst (c : Cache) (path : String) (m : SchemaMap) :
    (c.putIfAbsent path m).1 = (c.get? path).getD m := by
  unfold putIfAbsent
  cases h : c.get? path <;> rfl

theorem get?_putIfAbsent (c : Cache) (path key : String) (m : SchemaMap) :
    (c.putIfAbsent path m).2.get? key =
      if path = key then (c.get? key).or (some m) else c.get? key := by
  unfold putIfAbsent
  cases h : c.get? path with
  | some kept => by_cases hk : path = key <;> simp_all
  | none => exact Table.get?_putNew c path key m

end Cache

end ContractInference
