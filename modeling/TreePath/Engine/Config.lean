set_option autoImplicit false

/-!
The configuration of an engine, and what makes one unfit: an array index limit of zero, or one
above the cap.
-/

namespace TreePath

def defaultMaxArrayIndex : Nat :=
  0x100000

def maxArrayIndexCap : Nat :=
  0x1000000

structure Config where
  /-- The greatest array index that a path may store at. -/
  maxArrayIndex : Nat := defaultMaxArrayIndex
  /-- Whether null children have a path of their own in listings. -/
  enumerateNulls : Bool := false
  deriving DecidableEq

inductive ConfigError where
  | limitIsZero
  | limitAboveCap
  deriving DecidableEq

namespace ConfigError

/-- The field at fault, by its name in configuration documents. -/
def field : ConfigError → String
  | limitIsZero => "max_array_index"
  | limitAboveCap => "max_array_index"

def reason : ConfigError → String
  | limitIsZero => "must be greater than zero"
  | limitAboveCap => "must not exceed " ++ toString maxArrayIndexCap

def message (error : ConfigError) : String :=
  "Config field '" ++ error.field ++ "' is invalid: " ++ error.reason

end ConfigError

namespace Config

def IsValid (config : Config) : Prop :=
  0 < config.maxArrayIndex ∧ config.maxArrayIndex ≤ maxArrayIndexCap

instance (config : Config) : Decidable config.IsValid :=
  inferInstanceAs (Decidable (_ ∧ _))

def defect? (config : Config) : Option ConfigError :=
  if config.maxArrayIndex = 0 then some .limitIsZero
  else if maxArrayIndexCap < config.maxArrayIndex then some .limitAboveCap
  else none

theorem defect?_eq_none_iff {config : Config} : config.defect? = none ↔ config.IsValid := by
  unfold defect? IsValid
  grind

end Config

end TreePath
