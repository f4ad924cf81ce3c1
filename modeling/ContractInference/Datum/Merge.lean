import ContractInference.Datum.Basic

/-!
# Merging mappings

One mapping laid over another. Where both have a mapping under the same key the two are merged
in turn; anywhere else the overriding value stands.
-/

namespace ContractInference.Datum

mutual

/-- Lays `override` over `base`: keys of the base keep their places, new keys follow. -/
def mergeEntries (base : List (Scalar × Datum)) :
    List (Scalar × Datum) → List (Scalar × Datum)
  | [] => base
  | (k, v) :: rest => mergeEntries (setEntry k (mergeValue (lookup? k base) v) base) rest

/-- The merged value of a key that has `old` in the base and `new` in the override. -/
def mergeValue (old : Option Datum) : Datum → Datum
  | .map new =>
    match old with
    | some (.map entries) => .map (mergeEntries entries new)
    | _ => .map new
  | new => new

end

/-- Merges two mappings; anything else is replaced. -/
def merge (base override : Datum) : Datum := mergeValue (some base) override

end ContractInference.Datum
