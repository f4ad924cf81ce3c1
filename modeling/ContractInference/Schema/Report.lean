import ContractInference.Datum.Basic
import ContractInference.Text.Basic

/-!
# Reports

The form in which schemas are handed to a reader: texts, flags, lists and records.
-/

namespace ContractInference

inductive Report where
  | text (t : Text)
  | flag (b : Bool)
  | list (items : List Report)
  | record (fields : List (String × Report))
deriving Repr, Inhabited

namespace Report

def string (s : String) : Report := .text s

mutual

def toDatum : Report → Datum
  | .text t => .text t.toString
  | .flag b => .bool b
  | .list items => .list (itemsToData items)
  | .record fields => .map (fieldsToData fields)

def itemsToData : List Report → List Datum
  | [] => []
  | r :: rs => toDatum r :: itemsToData rs

def fieldsToData : List (String × Report) → List (Scalar × Datum)
  | [] => []
  | (k, r) :: rs => (.text k, toDatum r) :: fieldsToData rs

end

end Report

end ContractInference
