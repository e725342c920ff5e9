import TreePath.Json.Basic

set_option autoImplicit false

/-!
Equality of JSON values: numbers compare by value, but no integer equals a float. Items compare in
turn, and so do members, which are in order of their keys.
-/

namespace TreePath.Json

def Number.equal : Number → Number → Bool
  | int left _ _, int right _ _ => left == right
  | float left _, float right _ => left.equal right
  | _, _ => false

mutual

def equal : Json → Json → Bool
  | null, null => true
  | bool left, bool right => left == right
  | number left, number right => left.equal right
  | string left, string right => left == right
  | array left, array right => itemsEqual left right
  | object left, object right => membersEqual left right
  | _, _ => false
termination_by structural left => left

def itemsEqual : List Json → List Json → Bool
  | [], [] => true
  | item :: left, other :: right => equal item other && itemsEqual left right
  | _, _ => false
termination_by structural left => left

def membersEqual : List (String × Json) → List (String × Json) → Bool
  | [], [] => true
  | (key, value) :: left, (name, other) :: right =>
      key == name && equal value other && membersEqual left right
  | _, _ => false
termination_by structural left => left

end

instance : BEq Json := ⟨equal⟩

end TreePath.Json
