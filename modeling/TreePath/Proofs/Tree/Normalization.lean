import TreePath.Proofs.Tree.Conversion

set_option autoImplicit false

/-!
# What is left of a tree that goes through JSON

JSON has no holes, no `absent` and no float that is not finite, and its members come in order of
their keys. `normalize` does to a tree what is lost on the way to JSON and back, and nothing else.
A tree that was read from JSON is normal already, and a JSON value whose integers fit 64 bits with a
sign comes back from the tree that was read from it.
-/

namespace TreePath.Tree

mutual

/-- A tree without what JSON does not have, and with its members in order of their keys. -/
def normalize : Tree → Tree
  | absent => null
  | float value => if value.isFinite then float value else null
  | object members => object ((normalizeMembers members).insertionSort KeysInOrder)
  | array slots => array (normalizeSlots slots)
  | leaf => leaf
termination_by structural tree => tree

/-- Leaves out the members that are `absent`. -/
def normalizeMembers : List (String × Tree) → Members
  | [] => []
  | (key, child) :: rest =>
      if child.isAbsent then normalizeMembers rest
      else (key, normalize child) :: normalizeMembers rest
termination_by structural members => members

/-- Fills the holes. -/
def normalizeSlots : List (Option Tree) → Slots
  | [] => []
  | none :: rest => some null :: normalizeSlots rest
  | some child :: rest => some (normalize child) :: normalizeSlots rest
termination_by structural slots => slots

end

theorem normalizeMembers_eq (members : Members) :
    normalizeMembers members =
      (presentMembers members).map fun entry => (entry.1, entry.2.normalize) := by
  induction members with
  | nil => rfl
  | cons entry rest inductionHypothesis =>
      obtain ⟨key, child⟩ := entry
      cases missing : child.isAbsent <;>
        simp [normalizeMembers, presentMembers, missing, inductionHypothesis]

theorem normalizeSlots_eq (slots : Slots) :
    normalizeSlots slots = slots.map fun slot => some (slot.getD absent).normalize := by
  induction slots with
  | nil => rfl
  | cons slot rest inductionHypothesis =>
      cases slot <;> simp [normalizeSlots, inductionHypothesis, normalize]

theorem normalize_object (members : Members) :
    (object members).normalize =
      object (((presentMembers members).map fun entry =>
        (entry.1, entry.2.normalize)).insertionSort KeysInOrder) := by
  rw [normalize, normalizeMembers_eq]

theorem normalize_array (slots : Slots) :
    (array slots).normalize = array (slots.map fun slot => some (slot.getD absent).normalize) := by
  rw [normalize, normalizeSlots_eq]

/-! ## From a tree and back -/

section Trees

variable {tree : Tree}

/-- Converting and reading again leaves the normal tree. -/
theorem ofJson_toJson_of_distinct (distinct : tree.everywhere hasDistinctKeys = true) :
    ofJson tree.toJson = tree.normalize := by
  induction tree using Tree.induct with
  | object members inductionHypothesis =>
      obtain ⟨keys, below⟩ := everywhere_hasDistinctKeys_object_iff.mp distinct
      have sorted := nodup_keys_of_pairwise_lt
        (pairwise_lt_insertionSort (nodup_keys_presentMembers toJson keys))
      rw [toJson_object keys, ofJson_object sorted, map_insertionSort_values, List.map_map,
        normalize_object]
      congr 2
      apply List.map_congr_left
      intro entry membership
      have listed := (mem_presentMembers.mp membership).1
      exact congrArg (Prod.mk entry.1) (inductionHypothesis entry listed (below entry listed))
  | array slots inductionHypothesis =>
      have below := everywhere_hasDistinctKeys_array_iff.mp distinct
      rw [toJson_array, ofJson_array, List.map_map, normalize_array]
      congr 1
      apply List.map_congr_left
      intro slot held
      cases slot with
      | none => rfl
      | some child =>
          exact congrArg some (inductionHypothesis child held (below child held))
  | int value => simp only [toJson, ofJson, ofNumber_numberOfInt, normalize]
  | float value =>
      by_cases finite : value.isFinite = true
      · rw [toJson_float_of_finite finite, normalize, if_pos finite, ofJson, ofNumber]
      · rw [toJson_float_of_not_finite finite, normalize, if_neg finite, ofJson]
  | _ => rfl

/-- What holds of every node that is converted holds of every value in the result. -/
theorem everywhere_toJson {check : Json → Bool}
    (here : ∀ node : Tree, node.hasDistinctKeys = true → check node.toJson = true)
    (distinct : tree.everywhere hasDistinctKeys = true) :
    tree.toJson.everywhere check = true := by
  have passed := here tree (everywhere_iff.mp distinct).1
  induction tree using Tree.induct with
  | object members inductionHypothesis =>
      obtain ⟨keys, below⟩ := everywhere_hasDistinctKeys_object_iff.mp distinct
      rw [toJson_object keys] at passed ⊢
      refine Json.everywhere_object_iff.mpr ⟨passed, ?_⟩
      intro entry membership
      rw [List.mem_insertionSort] at membership
      obtain ⟨member, kept, rfl⟩ := List.mem_map.mp membership
      have listed := (mem_presentMembers.mp kept).1
      have memberDistinct := below member listed
      exact inductionHypothesis member listed memberDistinct
        (here member.2 (everywhere_iff.mp memberDistinct).1)
  | array slots inductionHypothesis =>
      have below := everywhere_hasDistinctKeys_array_iff.mp distinct
      rw [toJson_array] at passed ⊢
      refine Json.everywhere_array_iff.mpr ⟨passed, ?_⟩
      intro item membership
      obtain ⟨slot, held, rfl⟩ := List.mem_map.mp membership
      cases slot with
      | none => exact here absent rfl
      | some child =>
          have childDistinct := below child held
          exact inductionHypothesis child held childDistinct
            (here child (everywhere_iff.mp childDistinct).1)
  | float value =>
      rw [toJson] at passed ⊢
      split at passed <;> exact passed
  | _ => exact passed

theorem hasSortedKeys_toJson (distinct : tree.hasDistinctKeys = true) :
    tree.toJson.hasSortedKeys = true := by
  cases tree with
  | object members =>
      have keys := hasDistinctKeys_object_iff.mp distinct
      rw [toJson_object keys, Json.hasSortedKeys_object_iff]
      exact pairwise_lt_insertionSort (nodup_keys_presentMembers toJson keys)
  | float value =>
      rw [toJson]
      split <;> rfl
  | _ => rfl

theorem hasSignedInteger_toJson (tree : Tree) : tree.toJson.hasSignedInteger = true := by
  cases tree with
  | int value => exact decide_eq_true value.toInt_lt
  | float value =>
      by_cases finite : value.isFinite = true
      · rw [toJson_float_of_finite finite, Json.hasSignedInteger]
        simp
      · rw [toJson_float_of_not_finite finite, Json.hasSignedInteger]
        simp
  | _ => rfl

end Trees

/-! ## From JSON and back -/

section Values

variable {json : Json}

/-- Integers beyond 64 bits with a sign are read as floats, which are finite. -/
theorem normalize_ofNumber (value : Json.Number) : (ofNumber value).normalize = ofNumber value := by
  cases value with
  | int value least most =>
      rw [ofNumber]
      split
      · rfl
      · rw [normalize, if_pos (isFinite_ofInt least most)]
  | float value finite => rw [ofNumber, normalize, if_pos finite]

theorem presentMembers_map_ofJson (members : List (String × Json)) :
    presentMembers (members.map fun entry => (entry.1, ofJson entry.2)) =
      members.map fun entry => (entry.1, ofJson entry.2) := by
  rw [presentMembers, List.filter_eq_self]
  intro entry membership
  obtain ⟨member, -, rfl⟩ := List.mem_map.mp membership
  simp [isAbsent_ofJson]

/-- What was read from JSON is normal. -/
theorem normalize_ofJson (sorted : json.everywhere Json.hasSortedKeys = true) :
    (ofJson json).normalize = ofJson json := by
  induction json using Json.induct with
  | object members inductionHypothesis =>
      obtain ⟨ordered, below⟩ := Json.everywhere_object_iff.mp sorted
      have keys := Json.hasSortedKeys_object_iff.mp ordered
      rw [ofJson_object (nodup_keys_of_pairwise_lt keys), normalize_object,
        presentMembers_map_ofJson, List.map_map]
      have normal : ∀ entry ∈ members,
          (entry.1, (ofJson entry.2).normalize) = (entry.1, ofJson entry.2) := by
        intro entry listed
        rw [inductionHypothesis entry listed (below entry listed)]
      apply congrArg object
      calc (members.map fun entry => (entry.1, (ofJson entry.2).normalize)).insertionSort
            KeysInOrder
        _ = (members.map fun entry => (entry.1, ofJson entry.2)).insertionSort KeysInOrder := by
          rw [List.map_congr_left normal]
        _ = (members.insertionSort KeysInOrder).map fun entry => (entry.1, ofJson entry.2) :=
          (map_insertionSort_values ofJson members).symm
        _ = members.map fun entry => (entry.1, ofJson entry.2) := by
          rw [insertionSort_eq_of_pairwise_lt keys]
  | array items inductionHypothesis =>
      obtain ⟨-, below⟩ := Json.everywhere_array_iff.mp sorted
      rw [ofJson_array, normalize_array, List.map_map]
      congr 1
      apply List.map_congr_left
      intro item listed
      exact congrArg some (inductionHypothesis item listed (below item listed))
  | number value => exact normalize_ofNumber value
  | _ => rfl

/-- A value with no integer beyond 64 bits with a sign comes back. -/
theorem toJson_ofJson_of_signed (sorted : json.everywhere Json.hasSortedKeys = true)
    (signed : json.everywhere Json.hasSignedInteger = true) : (ofJson json).toJson = json := by
  induction json using Json.induct with
  | object members inductionHypothesis =>
      obtain ⟨ordered, below⟩ := Json.everywhere_object_iff.mp sorted
      obtain ⟨-, signedBelow⟩ := Json.everywhere_object_iff.mp signed
      have keys := Json.hasSortedKeys_object_iff.mp ordered
      have distinct := nodup_keys_of_pairwise_lt keys
      have same : ∀ entry ∈ members, (entry.1, (ofJson entry.2).toJson) = entry := by
        intro entry listed
        rw [inductionHypothesis entry listed (below entry listed) (signedBelow entry listed)]
      rw [ofJson_object distinct, toJson_object (by rw [List.map_map]; exact distinct),
        presentMembers_map_ofJson, List.map_map]
      apply congrArg Json.object
      calc (members.map fun entry => (entry.1, (ofJson entry.2).toJson)).insertionSort KeysInOrder
        _ = members.insertionSort KeysInOrder := by rw [List.map_congr_left same, List.map_id']
        _ = members := insertionSort_eq_of_pairwise_lt keys
  | array items inductionHypothesis =>
      obtain ⟨-, below⟩ := Json.everywhere_array_iff.mp sorted
      obtain ⟨-, signedBelow⟩ := Json.everywhere_array_iff.mp signed
      have same : ∀ item ∈ items, (ofJson item).toJson = item := by
        intro item listed
        exact inductionHypothesis item listed (below item listed) (signedBelow item listed)
      rw [ofJson_array, toJson_array, List.map_map]
      apply congrArg Json.array
      calc (items.map fun item => (ofJson item).toJson)
        _ = items := by rw [List.map_congr_left same, List.map_id']
  | number value => exact toJson_ofNumber (signed : (Json.number value).hasSignedInteger = true)
  | _ => rfl

end Values

/-- Conversion to JSON and back is a normalisation. -/
theorem ofJson_toJson_eq_normalize (tree : Tree)
    (distinct : tree.everywhere hasDistinctKeys = true) (json : Json)
    (sorted : json.everywhere Json.hasSortedKeys = true) :
    ofJson tree.toJson = tree.normalize ∧ tree.normalize.normalize = tree.normalize ∧
      tree.normalize.toJson = tree.toJson ∧ (ofJson json).normalize = ofJson json ∧
      (json.everywhere Json.hasSignedInteger = true → (ofJson json).toJson = json) := by
  have converted := ofJson_toJson_of_distinct distinct
  have keys : tree.toJson.everywhere Json.hasSortedKeys = true :=
    everywhere_toJson (fun _ => hasSortedKeys_toJson) distinct
  have integers : tree.toJson.everywhere Json.hasSignedInteger = true :=
    everywhere_toJson (fun node _ => hasSignedInteger_toJson node) distinct
  refine ⟨converted, ?_, ?_, normalize_ofJson sorted, toJson_ofJson_of_signed sorted⟩
  · rw [← converted]
    exact normalize_ofJson keys
  · rw [← converted]
    exact toJson_ofJson_of_signed keys integers

theorem ofJson_toJson_of_holes_and_nan :
    (object [("b", array [none, some absent, some (int 7)]), ("ab", absent),
        ("a", float ⟨0x7ff8000000000000⟩)]).everywhere hasDistinctKeys = true ∧
      (Json.object [("l", .array [.number (numberOfInt (-7))]), ("é", .object [])]).everywhere
        Json.hasSortedKeys = true ∧
      ofJson (object [("b", array [none, some absent, some (int 7)]), ("ab", absent),
          ("a", float ⟨0x7ff8000000000000⟩)]).toJson =
        object [("a", null), ("b", array [some null, some null, some (int 7)])] ∧
      (Json.object [("l", .array [.number (numberOfInt (-7))]), ("é", .object [])]).everywhere
        Json.hasSignedInteger = true ∧
      (object [("l", array [some (int (-7))]), ("é", object [])]).toJson =
        .object [("l", .array [.number (numberOfInt (-7))]), ("é", .object [])] := by
  have result := ofJson_toJson_eq_normalize
    (object [("b", array [none, some absent, some (int 7)]), ("ab", absent),
      ("a", float ⟨0x7ff8000000000000⟩)]) (by decide)
    (.object [("l", .array [.number (numberOfInt (-7))]), ("é", .object [])]) (by decide)
  obtain ⟨read, -, -, -, returned⟩ := result
  exact ⟨by decide, by decide, read, by decide, returned (by decide)⟩

end TreePath.Tree
