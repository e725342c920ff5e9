import TreePath.Json.Basic

set_option autoImplicit false

/-!
# Questions to all values of a document

`everywhere` asks a JSON value and all values in it a question: whether the members of an object
are in order of their keys, as they are in every value that is read, and whether an integer fits 64
bits with a sign.
-/

namespace TreePath.Json

/-- Proves a statement of every value from its instances for items and members. -/
theorem induct {motive : Json → Prop} (null : motive null) (bool : ∀ value, motive (bool value))
    (number : ∀ value, motive (number value)) (string : ∀ value, motive (string value))
    (array : ∀ items : List Json, (∀ item ∈ items, motive item) → motive (array items))
    (object : ∀ members : List (String × Json), (∀ entry ∈ members, motive entry.2) →
      motive (object members))
    (json : Json) : motive json := by
  refine @Json.rec motive (fun items => ∀ item ∈ items, motive item)
    (fun members => ∀ entry ∈ members, motive entry.2) (fun entry => motive entry.2)
    null bool number string array object ?_ ?_ ?_ ?_ ?_ json
  all_goals grind

mutual

/-- Whether a value and all values in it pass a check. -/
def everywhere (check : Json → Bool) : Json → Bool
  | array items => check (array items) && everywhereItems check items
  | object members => check (object members) && everywhereMembers check members
  | leaf => check leaf
termination_by structural json => json

def everywhereItems (check : Json → Bool) : List Json → Bool
  | [] => true
  | item :: rest => everywhere check item && everywhereItems check rest
termination_by structural items => items

def everywhereMembers (check : Json → Bool) : List (String × Json) → Bool
  | [] => true
  | (_, value) :: rest => everywhere check value && everywhereMembers check rest
termination_by structural members => members

end

variable {check : Json → Bool} {items : List Json} {members : List (String × Json)}

theorem everywhereItems_iff :
    everywhereItems check items = true ↔ ∀ item ∈ items, item.everywhere check = true := by
  induction items with
  | nil => simp [everywhereItems]
  | cons item rest inductionHypothesis => simp [everywhereItems, inductionHypothesis]

theorem everywhereMembers_iff :
    everywhereMembers check members = true ↔
      ∀ entry ∈ members, entry.2.everywhere check = true := by
  induction members with
  | nil => simp [everywhereMembers]
  | cons entry rest inductionHypothesis => simp [everywhereMembers, inductionHypothesis]

theorem everywhere_array_iff :
    (array items).everywhere check = true ↔
      check (array items) = true ∧ ∀ item ∈ items, item.everywhere check = true := by
  rw [everywhere, Bool.and_eq_true, everywhereItems_iff]

theorem everywhere_object_iff :
    (object members).everywhere check = true ↔
      check (object members) = true ∧ ∀ entry ∈ members, entry.2.everywhere check = true := by
  rw [everywhere, Bool.and_eq_true, everywhereMembers_iff]

/-- The members of an object are in order of their keys, and no key is there twice. -/
def hasSortedKeys : Json → Bool
  | object members => decide (members.Pairwise fun entry other => entry.1 < other.1)
  | _ => true

/-- An integer fits 64 bits with a sign. -/
def hasSignedInteger : Json → Bool
  | number (.int value _ _) => decide (value < -leastInt)
  | _ => true

theorem hasSortedKeys_object_iff :
    (object members).hasSortedKeys = true ↔
      members.Pairwise fun entry other => entry.1 < other.1 :=
  decide_eq_true_iff

end TreePath.Json
