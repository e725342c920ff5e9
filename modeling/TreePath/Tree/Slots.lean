import TreePath.Tree.Basic

set_option autoImplicit false

/-!
The slots of arrays: finding what one holds and storing in one. `Slots.get?_insert` and
`Slots.length_insert` say what storing does to the content and to the length.
-/

namespace TreePath

namespace Slots

/-- What a slot holds; holes hold nothing, nor do slots past the end. -/
def get? (index : Nat) (slots : Slots) : Option Tree :=
  slots[index]?.join

/-- The slots lengthened with holes until slot `index` is there. -/
def reach (index : Nat) (slots : Slots) : Slots :=
  slots ++ List.replicate (index + 1 - slots.length) none

def insert (index : Nat) (value : Tree) (slots : Slots) : Slots :=
  (slots.reach index).set index (some value)

def holes (slots : Slots) : Nat :=
  slots.countP Option.isNone

theorem length_reach (index : Nat) (slots : Slots) :
    (slots.reach index).length = max slots.length (index + 1) := by
  simp [reach]
  omega

theorem reach_of_lt_length {index : Nat} {slots : Slots} (inRange : index < slots.length) :
    slots.reach index = slots := by
  rw [reach, Nat.sub_eq_zero_of_le inRange, List.replicate_zero, List.append_nil]

/-- Storing past the end leaves holes in between. -/
theorem insert_length_add (holes : Nat) (value : Tree) (slots : Slots) :
    insert (slots.length + holes) value slots =
      slots ++ List.replicate holes none ++ [some value] := by
  have missing : slots.length + holes + 1 - slots.length = holes + 1 := by omega
  have count : (slots ++ List.replicate holes none).length = slots.length + holes := by simp
  rw [insert, reach, missing, List.replicate_succ', ← List.append_assoc,
    List.set_append_right _ _ (Nat.le_of_eq count), count, Nat.sub_self]
  rfl

theorem length_insert (index : Nat) (value : Tree) (slots : Slots) :
    (insert index value slots).length = max slots.length (index + 1) := by
  simp [insert, length_reach]

/-- Storing in a slot changes what that slot holds and nothing else. -/
theorem get?_insert (index other : Nat) (value : Tree) (slots : Slots) :
    get? other (insert index value slots) =
      if index = other then some value else get? other slots := by
  simp only [get?, insert, reach, List.getElem?_set, List.getElem?_append, List.getElem?_replicate,
    List.length_append, List.length_replicate]
  grind

@[simp] theorem get?_nil (index : Nat) : get? index [] = none := rfl

/-- Holes at the end hold nothing. -/
@[simp] theorem get?_reach (index other : Nat) (slots : Slots) :
    get? other (slots.reach index) = get? other slots := by
  simp only [get?, reach, List.getElem?_append, List.getElem?_replicate]
  grind

/-- Storing what a slot already holds changes nothing. -/
theorem insert_of_get?_eq {index : Nat} {value : Tree} {slots : Slots}
    (found : slots.get? index = some value) : insert index value slots = slots := by
  simp only [get?, Option.join_eq_some_iff] at found
  obtain ⟨inRange, held⟩ := List.getElem?_eq_some_iff.mp found
  rw [insert, reach_of_lt_length inRange, ← held]
  exact List.set_getElem_self inRange

/-- Of two values stored in a slot the second stays. -/
theorem insert_insert (index : Nat) (first second : Tree) (slots : Slots) :
    insert index second (insert index first slots) = insert index second slots := by
  have inRange : index < (insert index first slots).length := by
    rw [length_insert]
    omega
  rw [insert, reach_of_lt_length inRange, insert, insert, List.set_set]

end Slots

namespace Tree

def element? (index : Nat) : Tree → Option Tree
  | array slots => Slots.get? index slots
  | _ => none

def push? (tree : Tree) (slot : Option Tree) : Option Tree :=
  match tree with
  | array slots => some (array (slots ++ [slot]))
  | _ => none

def holes? : Tree → Option Nat
  | array slots => some (Slots.holes slots)
  | _ => none

end Tree

end TreePath
