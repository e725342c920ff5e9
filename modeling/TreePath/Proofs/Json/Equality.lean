import Mathlib.Data.List.Forall2
import TreePath.Json.Equality
import TreePath.Proofs.Json.Values
import TreePath.Proofs.Number.Equality

set_option autoImplicit false

/-!
# Equal JSON values

JSON values are equal if they have one canonical form, in which no zero has a sign. As all floats
in them are finite, every value is equal to itself.
-/

namespace TreePath.Json

/-- The number with the canonical form of its float. -/
def Number.canonical : Number → Number
  | int value least most => int value least most
  | float value finite => float value.canonical (value.isFinite_canonical.trans finite)

mutual

/-- A value with the canonical form of every float. -/
def canonical : Json → Json
  | number value => number value.canonical
  | array items => array (canonicalItems items)
  | object members => object (canonicalMembers members)
  | other => other
termination_by structural json => json

def canonicalItems : List Json → List Json
  | [] => []
  | item :: rest => canonical item :: canonicalItems rest
termination_by structural items => items

def canonicalMembers : List (String × Json) → List (String × Json)
  | [] => []
  | (key, value) :: rest => (key, canonical value) :: canonicalMembers rest
termination_by structural members => members

end

theorem canonicalItems_eq (items : List Json) : canonicalItems items = items.map canonical := by
  induction items with
  | nil => rfl
  | cons item rest inductionHypothesis => rw [canonicalItems, inductionHypothesis, List.map_cons]

theorem canonicalMembers_eq (members : List (String × Json)) :
    canonicalMembers members = members.map fun entry => (entry.1, entry.2.canonical) := by
  induction members with
  | nil => rfl
  | cons entry rest inductionHypothesis =>
      obtain ⟨key, value⟩ := entry
      rw [canonicalMembers, inductionHypothesis, List.map_cons]

theorem Number.equal_of_canonical_eq {left right : Number}
    (same : left.canonical = right.canonical) : left.equal right = true := by
  cases left with
  | int value least most =>
      cases right with
      | int other otherLeast otherMost => simpa [canonical, equal] using same
      | float other finite => cases same
  | float value finite =>
      cases right with
      | int other otherLeast otherMost => cases same
      | float other otherFinite =>
          exact Binary64.equal_iff.mpr
            ⟨Binary64.isNaN_eq_false_of_isFinite finite, Number.float.inj same⟩

theorem itemsEqual_iff {items others : List Json} :
    itemsEqual items others = true ↔
      List.Forall₂ (fun item other => item.equal other = true) items others := by
  induction items generalizing others with
  | nil => cases others <;> simp [itemsEqual]
  | cons item rest inductionHypothesis =>
      cases others <;> simp [itemsEqual, inductionHypothesis]

theorem membersEqual_iff {members others : List (String × Json)} :
    membersEqual members others = true ↔
      List.Forall₂ (fun entry other => entry.1 = other.1 ∧ entry.2.equal other.2 = true)
        members others := by
  induction members generalizing others with
  | nil => cases others <;> simp [membersEqual]
  | cons entry rest inductionHypothesis =>
      cases others <;> simp [membersEqual, inductionHypothesis]

/-- Lists with the same image are related in turn where values with the same image are. -/
theorem forall₂_of_map_eq {Value Image : Type} {related : Value → Value → Prop}
    {image : Value → Image} {values others : List Value}
    (same : values.map image = others.map image)
    (relate : ∀ value ∈ values, ∀ other, image value = image other → related value other) :
    List.Forall₂ related values others := by
  induction values generalizing others with
  | nil =>
      rw [List.map_nil, eq_comm, List.map_eq_nil_iff] at same
      rw [same]
      exact .nil
  | cons value rest inductionHypothesis =>
      obtain ⟨here, later⟩ := List.forall_mem_cons.mp relate
      cases others with
      | nil => cases same
      | cons other otherRest =>
          obtain ⟨first, following⟩ := List.cons.inj same
          exact .cons (here other first) (inductionHypothesis following later)

/-- Values with one canonical form are equal. -/
theorem equal_of_canonical_eq {left right : Json} (same : left.canonical = right.canonical) :
    left.equal right = true := by
  induction left using Json.induct generalizing right with
  | array items inductionHypothesis =>
      cases right with
      | array others =>
          simp only [canonical, array.injEq, canonicalItems_eq] at same
          rw [equal, itemsEqual_iff]
          exact forall₂_of_map_eq same fun item membership other =>
            inductionHypothesis item membership
      | _ => cases same
  | object members inductionHypothesis =>
      cases right with
      | object others =>
          simp only [canonical, object.injEq, canonicalMembers_eq] at same
          rw [equal, membersEqual_iff]
          apply forall₂_of_map_eq same
          intro entry membership other alike
          obtain ⟨key, value⟩ := Prod.mk.inj alike
          exact ⟨key, inductionHypothesis entry membership value⟩
      | _ => cases same
  | number value =>
      cases right with
      | number other => exact Number.equal_of_canonical_eq (Json.number.inj same)
      | _ => cases same
  | _ => cases right <;> simp_all [canonical, equal]

end TreePath.Json
