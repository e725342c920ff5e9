import TreePath.Path.Step
import TreePath.Tree.Members
import TreePath.Tree.Slots

set_option autoImplicit false

/-!
Looking a path up. The container that a token meets decides what the token means: an array
takes an index and nothing else, an object takes the text of any token as a key.
-/

namespace TreePath.Tree

open TreePath.Path

def child? (token : Token) : Tree → Option Tree
  | object members => Members.get? token.raw members
  | array slots =>
      match token with
      | .index value _ => Slots.get? value slots
      | .key _ => none
  | _ => none

/-- The node that a sequence of tokens leads to. -/
def follow? : List Token → Tree → Option Tree
  | [], tree => some tree
  | token :: rest, tree =>
      match tree.child? token with
      | some child => follow? rest child
      | none => none

/-- The node at a path. A path without tokens leads to the root. -/
def read? (path : String) (tree : Tree) : Option Tree :=
  tree.follow? (tokens path)

def at? (step : Step) (tree : Tree) : Option Tree :=
  match step with
  | .member key => tree.member? key
  | .element index => tree.element? index

def locate? : List Step → Tree → Option Tree
  | [], tree => some tree
  | step :: rest, tree =>
      match tree.at? step with
      | some child => locate? rest child
      | none => none

theorem follow?_append (before after : List Token) (tree : Tree) :
    tree.follow? (before ++ after) = (tree.follow? before).bind (follow? after) := by
  induction before generalizing tree with
  | nil => rfl
  | cons token rest inductionHypothesis =>
      simp only [List.cons_append, follow?]
      cases tree.child? token with
      | none => rfl
      | some child => exact inductionHypothesis child

theorem locate?_append (before after : List Step) (tree : Tree) :
    tree.locate? (before ++ after) = (tree.locate? before).bind (locate? after) := by
  induction before generalizing tree with
  | nil => rfl
  | cons step rest inductionHypothesis =>
      simp only [List.cons_append, locate?]
      cases tree.at? step with
      | none => rfl
      | some child => exact inductionHypothesis child

end TreePath.Tree
