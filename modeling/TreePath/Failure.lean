import TreePath.Engine.Config
import TreePath.Json.Fault
import TreePath.Path.Error

set_option autoImplicit false

/-!
Everything that can fail between a text and a stored value, under one type.
-/

namespace TreePath

inductive Failure where
  | path (error : PathError)
  | config (error : ConfigError)
  | json (fault : Json.Fault)
  deriving DecidableEq

namespace Failure

def isPath : Failure → Bool
  | path _ => true
  | _ => false

def isConfig : Failure → Bool
  | config _ => true
  | _ => false

def isJson : Failure → Bool
  | json _ => true
  | _ => false

/-- Whether the same call may succeed when it is made again: never, as its outcome hangs on its
arguments alone. -/
def isRetryable : Failure → Bool
  | _ => false

/-- The message of a failure. A fault of a JSON text is told by its sort alone. -/
def message? : Failure → Option String
  | path error => some ("Path error: " ++ error.message)
  | config error => some ("Config error: " ++ error.message)
  | json _ => none

end Failure

end TreePath
