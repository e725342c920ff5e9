import TreePath.Text.Bytes
import TreePath.Tree.Kind

set_option autoImplicit false

/-!
Why a value cannot be stored at a path. A `Refusal` places the cause by byte offsets into the
path; `PathError` is what is reported, with the texts that the offsets cut out.
-/

namespace TreePath

/-- What is wrong with the punctuation of a path. -/
inductive Defect where
  | openingInsideIndex
  | openingAfterDot
  | unmatchedClosing
  | invalidIndex
  | missingMarkAfterIndex
  | dotInsideIndex
  | unterminatedIndex
  | missingKey
  deriving DecidableEq

def Defect.reason : Defect → String
  | openingInsideIndex => "'[' inside an array index"
  | openingAfterDot => "'[' directly after '.'"
  | unmatchedClosing => "']' without a matching '['"
  | invalidIndex => "array index must be a non-negative integer"
  | missingMarkAfterIndex => "expected '[' or '.' after ']'"
  | dotInsideIndex => "'.' inside an array index"
  | unterminatedIndex => "unterminated '['"
  | missingKey => "path ends without a key"

/-- Why a path is refused, by positions in it. The location of a refusal ends at `stop`. -/
inductive Refusal where
  | empty
  | malformed (offset : Nat) (defect : Defect)
  | indexLimit (stop : Nat) (index : Nat) (limit : Nat)
  | conflict (stop : Nat) (expected : ContainerKind) (found : Kind)
  deriving DecidableEq

/-- Why storing at a path fails, as it is reported. -/
inductive PathError where
  | empty
  | malformed (path : String) (offset : Nat) (defect : Defect)
  | indexLimit (location : String) (index : Nat) (limit : Nat)
  | conflict (location : String) (expected : ContainerKind) (found : Kind)
  deriving DecidableEq

/-- The report of a refusal of `path`. -/
def Refusal.report (path : String) : Refusal → PathError
  | empty => .empty
  | malformed offset defect => .malformed path offset defect
  | indexLimit stop index limit => .indexLimit (Text.upTo path stop) index limit
  | conflict stop expected found => .conflict (Text.upTo path stop) expected found

namespace PathError

/-- Whether the tree, and not the path, is the cause. -/
def isConflict : PathError → Bool
  | conflict _ _ _ => true
  | _ => false

def message : PathError → String
  | empty => "Path is empty"
  | malformed path offset defect =>
      "Malformed path '" ++ path ++ "' at offset " ++ toString offset ++ ": " ++ defect.reason
  | indexLimit location index limit =>
      "Array index " ++ toString index ++ " at '" ++ location ++ "' exceeds the maximum of " ++
        toString limit
  | conflict location expected found =>
      "Cannot write through '" ++ location ++ "': expected " ++ expected.name ++ ", found " ++
        found.name

end PathError

end TreePath
