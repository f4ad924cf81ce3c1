import ContractInference.Failure
import ContractInference.Table
import ContractInference.Text.Lossy

/-!
# Files

The files of a project as a value. A file can be there and still refuse to be read.
-/

namespace ContractInference

inductive File where
  | readable (bytes : List UInt8)
  | denied
deriving DecidableEq, Repr

abbrev Files := Table String File

namespace Files

def isFile (fs : Files) (path : String) : Bool := Table.hasKey fs path

def bytes (fs : Files) (path : String) : Except Failure (List UInt8) :=
  match Table.get? fs path with
  | some (.readable bytes) => .ok bytes
  | some .denied => .error (.fileDenied path)
  | none => .error (.fileMissing path)

/-- The text of a file as it was written. -/
def contents (fs : Files) (path : String) : Except Failure String :=
  Lossy.decode <$> bytes fs path

def withLineFeeds (text : String) : String := String.ofList (Lossy.unifyLineEnds text.toList)

/-- The text of a file with uniform line ends. -/
def readText (fs : Files) (path : String) : Except Failure String :=
  withLineFeeds <$> contents fs path

/-- The text of a file with uniform line ends, of which every byte has to be text. -/
def readStrict (fs : Files) (path : String) : Except Failure String := do
  let bytes ← fs.bytes path
  match Lossy.fault? bytes with
  | some fault => .error (.notText fault)
  | none => .ok (withLineFeeds (Lossy.decode bytes))

end Files

end ContractInference
