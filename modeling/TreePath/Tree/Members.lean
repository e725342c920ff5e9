import TreePath.Tree.Basic

set_option autoImplicit false

/-!
The members of objects: finding one by its key and storing one. `Members.get?_insert` and
`Members.keys_insert` say what storing does to the two views of members, by key and in order.
-/

namespace TreePath

namespace Members

def get? (key : String) : Members → Option Tree
  | [] => none
  | (name, child) :: rest => if name = key then some child else get? key rest

/-- Stores a member: in the place of the one with this key, or else after all others. -/
def insert (key : String) (value : Tree) : Members → Members
  | [] => [(key, value)]
  | (name, child) :: rest =>
      if name = key then (name, value) :: rest else (name, child) :: insert key value rest

/-- Members listed in turn: a key keeps its first place and takes its last value. -/
def ofList (entries : List (String × Tree)) : Members :=
  entries.foldl (fun members (key, value) => members.insert key value) []

@[simp] theorem get?_nil (key : String) : get? key [] = none := rfl

theorem get?_cons (key name : String) (child : Tree) (rest : Members) :
    get? key ((name, child) :: rest) = if name = key then some child else get? key rest := rfl

/-- Storing under a key changes what that key finds and nothing else. -/
theorem get?_insert (key other : String) (value : Tree) (members : Members) :
    get? other (insert key value members) =
      if key = other then some value else get? other members := by
  induction members with
  | nil => simp [insert, get?]
  | cons entry rest inductionHypothesis =>
      obtain ⟨name, child⟩ := entry
      grind [insert, get?]

/-- Storing what a key already finds changes nothing. -/
theorem insert_of_get?_eq {key : String} {value : Tree} {members : Members}
    (found : members.get? key = some value) : insert key value members = members := by
  induction members with
  | nil => simp [get?] at found
  | cons entry rest inductionHypothesis =>
      obtain ⟨name, child⟩ := entry
      grind [insert, get?]

/-- Of two values stored under a key the second stays. -/
theorem insert_insert (key : String) (first second : Tree) (members : Members) :
    insert key second (insert key first members) = insert key second members := by
  induction members with
  | nil => simp [insert]
  | cons entry rest inductionHypothesis =>
      obtain ⟨name, child⟩ := entry
      grind [insert]

/-- A new member comes last. -/
theorem insert_of_not_mem {key : String} {value : Tree} {members : Members}
    (fresh : key ∉ members.map Prod.fst) :
    insert key value members = members ++ [(key, value)] := by
  induction members with
  | nil => rfl
  | cons entry rest inductionHypothesis =>
      obtain ⟨name, child⟩ := entry
      grind [insert]

/-- The keys keep their order; a new key comes last. -/
theorem keys_insert (key : String) (value : Tree) (members : Members) :
    (insert key value members).map Prod.fst =
      if key ∈ members.map Prod.fst then members.map Prod.fst
      else members.map Prod.fst ++ [key] := by
  induction members with
  | nil => simp [insert]
  | cons entry rest inductionHypothesis =>
      obtain ⟨name, child⟩ := entry
      grind [insert]

end Members

namespace Tree

def member? (key : String) : Tree → Option Tree
  | object members => Members.get? key members
  | _ => none

/-- Stores a member of an object, the key being taken as it is. Tells whether there was one
with that key. -/
def insert? (tree : Tree) (key : String) (value : Tree) : Option (Bool × Tree) :=
  match tree with
  | object members =>
      some ((Members.get? key members).isSome, object (Members.insert key value members))
  | _ => none

end Tree

end TreePath
