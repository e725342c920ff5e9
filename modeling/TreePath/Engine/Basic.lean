import TreePath.Engine.Config
import TreePath.Tree.Listing
import TreePath.Tree.Read
import TreePath.Tree.Write

set_option autoImplicit false

/-!
An engine is a valid configuration together with what it governs: listing the paths of a tree,
looking a path up, storing at a path, and building a tree from paths.
-/

namespace TreePath

structure Engine where
  config : Config
  valid : config.IsValid
  deriving DecidableEq

namespace Engine

/-- The engine with a configuration, unless that is unfit. -/
def ofConfig (config : Config) : Except ConfigError Engine :=
  match found : config.defect? with
  | some error => .error error
  | none => .ok ⟨config, Config.defect?_eq_none_iff.mp found⟩

def standard : Engine :=
  ⟨{}, by decide⟩

instance : Inhabited Engine := ⟨standard⟩

variable (engine : Engine)

/-- The paths of a tree with their nodes; see `Tree.walk` for the order. -/
def entries (tree : Tree) : List Entry :=
  tree.entries engine.config.enumerateNulls

def paths (tree : Tree) : List String :=
  tree.paths engine.config.enumerateNulls

/-- Looking a path up is the same under every configuration. -/
def read? (_engine : Engine) (path : String) (tree : Tree) : Option Tree :=
  tree.read? path

def write (path : String) (value tree : Tree) : Edit PathError :=
  tree.write engine.config.maxArrayIndex path value

/-- Stores entries one after the other, up to the first that fails. -/
def writeAll : List Entry → Tree → Except PathError Tree
  | [], tree => .ok tree
  | (path, value) :: rest, tree =>
      match (engine.write path value tree).toExcept with
      | .error error => .error error
      | .ok written => writeAll rest written

/-- The tree that entries build from an empty object. -/
def build (entries : List Entry) : Except PathError Tree :=
  engine.writeAll entries (.object [])

end Engine

/-- The entries whose node holds no children. -/
def leafEntries (entries : List Entry) : List Entry :=
  entries.filter fun (_, node) => !node.isContainer

end TreePath
