import TreePath.Tree.Members

set_option autoImplicit false

/-!
Equality of trees as values: numbers compare by value, so that a tree with a NaN differs from
itself, and the order of members does not count. An integer never equals a float, and a hole
never equals a stored `absent`.
-/

namespace TreePath.Tree

mutual

def equal : Tree → Tree → Bool
  | absent, absent => true
  | null, null => true
  | bool left, bool right => left == right
  | int left, int right => left == right
  | float left, float right => left.equal right
  | string left, string right => left == right
  | object left, object right => left.length == right.length && membersEqual left right
  | array left, array right => slotsEqual left right
  | _, _ => false
termination_by structural left => left

/-- Whether each member on the left has an equal one under its key on the right. -/
def membersEqual : List (String × Tree) → Members → Bool
  | [], _ => true
  | (key, child) :: rest, right =>
      match right.get? key with
      | some other => equal child other && membersEqual rest right
      | none => false
termination_by structural left => left

def slotsEqual : List (Option Tree) → Slots → Bool
  | [], [] => true
  | none :: left, none :: right => slotsEqual left right
  | some child :: left, some other :: right => equal child other && slotsEqual left right
  | _, _ => false
termination_by structural left => left

end

instance : BEq Tree := ⟨equal⟩

end TreePath.Tree
