import TreePath.Proofs.Json.Sorting
import TreePath.Proofs.Json.Values
import TreePath.Proofs.Number.Rounding
import TreePath.Proofs.Tree.Children
import TreePath.Tree.Json

set_option autoImplicit false

/-!
# Conversion, node by node

How a container converts, in terms of its children: an array item by item, and an object with
distinct keys member by member, its members sorted on the way to JSON and in their order on the way
back. Numbers stay what they are, but for integers beyond 64 bits with a sign.
-/

namespace TreePath.Tree

/-! ## To JSON -/

theorem slotsToJson_eq (slots : Slots) (items : List Json) :
    slotsToJson slots items =
      (slots.map fun slot => (slot.getD absent).toJson).reverse ++ items := by
  induction slots generalizing items with
  | nil => rfl
  | cons slot rest inductionHypothesis =>
      cases slot <;> simp [slotsToJson, inductionHypothesis, toJson]

/-- Holes convert as `absent` slots do. -/
theorem toJson_array (slots : Slots) :
    (array slots).toJson = .array (slots.map fun slot => (slot.getD absent).toJson) := by
  rw [toJson, slotsToJson_eq, List.append_nil, List.reverse_reverse]

/-- The members that JSON keeps. -/
def presentMembers (members : Members) : Members :=
  members.filter fun entry => !entry.2.isAbsent

theorem mem_presentMembers {members : Members} {entry : String × Tree} :
    entry ∈ presentMembers members ↔ entry ∈ members ∧ entry.2.isAbsent = false := by
  simp [presentMembers]

theorem nodup_keys_presentMembers {Value : Type} (convert : Tree → Value) {members : Members}
    (distinct : (members.map Prod.fst).Nodup) :
    (((presentMembers members).map fun entry => (entry.1, convert entry.2)).map
      Prod.fst).Nodup := by
  rw [List.map_map]
  exact distinct.sublist (List.filter_sublist.map Prod.fst)

theorem membersToJson_eq_foldl (members : Members) (sorted : List (String × Json)) :
    membersToJson members sorted =
      ((presentMembers members).map fun entry => (entry.1, entry.2.toJson)).foldl
        (fun sorted entry => Json.insertSorted entry.1 entry.2 sorted) sorted := by
  induction members generalizing sorted with
  | nil => rfl
  | cons entry rest inductionHypothesis =>
      obtain ⟨key, child⟩ := entry
      cases missing : child.isAbsent <;>
        simp [membersToJson, presentMembers, missing, inductionHypothesis]

/-- The members that JSON keeps are sorted. -/
theorem toJson_object {members : Members} (distinct : (members.map Prod.fst).Nodup) :
    (object members).toJson =
      .object (((presentMembers members).map fun entry =>
        (entry.1, entry.2.toJson)).insertionSort KeysInOrder) := by
  rw [toJson, membersToJson_eq_foldl,
    Json.foldl_insertSorted_eq (nodup_keys_presentMembers toJson distinct)]

/-- The members of a converted object are those that are found under their keys. -/
theorem mem_map_toJson_presentMembers_iff {members : Members} {key : String} {json : Json}
    (distinct : (members.map Prod.fst).Nodup) :
    (key, json) ∈ (presentMembers members).map (fun entry => (entry.1, entry.2.toJson)) ↔
      ∃ child, (object members).at? (.member key) = some child ∧ child.isAbsent = false ∧
        child.toJson = json := by
  have found (child : Tree) : (object members).at? (.member key) = some child ↔
      (key, child) ∈ members := Members.get?_eq_some_iff_mem distinct
  simp [mem_presentMembers, found, and_assoc]

/-! ## To the same JSON -/

/-- Nodes that convert alike at every place: as a member, `absent` is not there. -/
structure ConvertAlike (tree other : Tree) : Prop where
  isAbsent_eq : tree.isAbsent = other.isAbsent
  toJson_eq : tree.toJson = other.toJson

/-- Objects that have members under the same keys, which convert alike, convert to one value. -/
theorem toJson_object_eq_of_rel {members others : Members}
    (distinct : (members.map Prod.fst).Nodup) (otherDistinct : (others.map Prod.fst).Nodup)
    (alike : ∀ key, Option.Rel ConvertAlike ((object members).at? (.member key))
      ((object others).at? (.member key))) :
    (object members).toJson = (object others).toJson := by
  have unsorted := nodup_keys_presentMembers toJson distinct
  have otherUnsorted := nodup_keys_presentMembers toJson otherDistinct
  rw [toJson_object distinct, toJson_object otherDistinct]
  apply congrArg Json.object
  apply insertionSort_eq_of_perm unsorted
  apply (List.perm_ext_iff_of_nodup unsorted.of_map otherUnsorted.of_map).mpr
  rintro ⟨key, json⟩
  rw [mem_map_toJson_presentMembers_iff distinct, mem_map_toJson_presentMembers_iff otherDistinct]
  have found := alike key
  generalize (object members).at? (.member key) = member at found ⊢
  generalize (object others).at? (.member key) = other at found ⊢
  cases found with
  | none => simp
  | some both => simp [both.isAbsent_eq, both.toJson_eq]

/-- Arrays of one length whose children at the same indices convert alike convert to one value. -/
theorem toJson_array_eq_of_rel {slots others : Slots} (lengths : slots.length = others.length)
    (alike : ∀ index, Option.Rel ConvertAlike ((array slots).at? (.element index))
      ((array others).at? (.element index))) :
    (array slots).toJson = (array others).toJson := by
  rw [toJson_array, toJson_array]
  apply congrArg Json.array
  apply List.ext_getElem (by simpa using lengths)
  intro index inRange otherInRange
  have found := alike index
  rw [List.length_map] at inRange otherInRange
  simp only [at?, element?, Slots.get?, List.getElem?_eq_getElem inRange,
    List.getElem?_eq_getElem otherInRange, Option.join_some] at found
  rw [List.getElem_map, List.getElem_map]
  generalize slots[index] = slot at found ⊢
  generalize others[index] = other at found ⊢
  cases found with
  | none => rfl
  | some both => exact both.toJson_eq

/-! ## From JSON -/

theorem slotsOfJson_eq (items : List Json) (slots : Slots) :
    slotsOfJson items slots = (items.map fun item => some (ofJson item)).reverse ++ slots := by
  induction items generalizing slots with
  | nil => rfl
  | cons item rest inductionHypothesis => simp [slotsOfJson, inductionHypothesis]

theorem ofJson_array (items : List Json) :
    ofJson (.array items) = array (items.map fun item => some (ofJson item)) := by
  rw [ofJson, slotsOfJson_eq, List.append_nil, List.reverse_reverse]

theorem membersOfJson_eq {entries : List (String × Json)} {members : Members}
    (distinct : (members.map Prod.fst ++ entries.map Prod.fst).Nodup) :
    membersOfJson entries members =
      members ++ entries.map fun entry => (entry.1, ofJson entry.2) := by
  induction entries generalizing members with
  | nil => simp [membersOfJson]
  | cons entry rest inductionHypothesis =>
      obtain ⟨key, value⟩ := entry
      have fresh : key ∉ members.map Prod.fst := by
        intro membership
        have apart := (List.nodup_append.mp distinct).2.2
        exact apart key membership key (by simp) rfl
      rw [membersOfJson, Members.insert_of_not_mem fresh, inductionHypothesis]
      · simp
      · simpa using distinct

/-- Read members keep their order. -/
theorem ofJson_object {members : List (String × Json)} (distinct : (members.map Prod.fst).Nodup) :
    ofJson (.object members) = object (members.map fun entry => (entry.1, ofJson entry.2)) := by
  rw [ofJson, membersOfJson_eq (by simpa using distinct), List.nil_append]

theorem isAbsent_ofJson (json : Json) : (ofJson json).isAbsent = false := by
  cases json with
  | number value =>
      cases value with
      | int value least most =>
          simp only [ofJson, ofNumber]
          split <;> rfl
      | float value finite => rfl
  | _ => rfl

/-! ## Numbers -/

theorem toJson_float_of_finite {value : Binary64} (finite : value.isFinite = true) :
    (float value).toJson = .number (.float value finite) := by
  simp [toJson, Json.Number.ofFloat?, finite]

theorem toJson_float_of_not_finite {value : Binary64} (infinite : ¬ value.isFinite = true) :
    (float value).toJson = .null := by
  simp [toJson, Json.Number.ofFloat?, infinite]

theorem ofNumber_numberOfInt (value : Int64) : ofNumber (numberOfInt value) = int value := by
  have fits : value.toInt < -Json.leastInt := value.toInt_lt
  simp only [numberOfInt, ofNumber, if_pos fits, Int64.ofInt_toInt]

theorem toJson_ofNumber {value : Json.Number}
    (signed : (Json.number value).hasSignedInteger = true) :
    (ofNumber value).toJson = .number value := by
  cases value with
  | int value least most =>
      have fits : value < -Json.leastInt := of_decide_eq_true signed
      have same : (Int64.ofInt value).toInt = value := Int64.toInt_ofInt_of_le least fits
      simp only [ofNumber, if_pos fits, toJson, numberOfInt, same]
  | float value finite => exact toJson_float_of_finite finite

/-- The float nearest to an integer of a JSON value is finite. -/
theorem isFinite_ofInt {value : Int} (least : Json.leastInt ≤ value)
    (most : value ≤ Json.greatestInt) : (Binary64.ofInt value).isFinite = true := by
  have short : value.natAbs < 2 ^ 64 := by
    unfold Json.leastInt at least
    unfold Json.greatestInt at most
    omega
  apply Binary64.isFinite_ofInt
  by_cases zero : value.natAbs = 0
  · rw [zero]
    decide
  · exact Nat.lt_trans ((Nat.log2_lt zero).mpr short) (by decide)

end TreePath.Tree
