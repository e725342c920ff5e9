import Mathlib.Data.List.Sort
import TreePath.Json.Basic
import TreePath.Proofs.Text.ByteOrder

set_option autoImplicit false

/-!
# Members in the order of their keys

Converted members are put into their places one by one. Where their keys are distinct they come out
sorted by the bytes of the keys, whatever order they came in.
-/

namespace TreePath

section Order

variable {Value : Type}

/-- Whether an entry may stand before another: the bytes of its key are no greater. -/
def KeysInOrder (entry other : String × Value) : Prop :=
  Text.bytes entry.1 ≤ Text.bytes other.1

instance : DecidableRel (@KeysInOrder Value) :=
  fun entry other => inferInstanceAs (Decidable (Text.bytes entry.1 ≤ Text.bytes other.1))

theorem keysInOrder_iff {entry other : String × Value} :
    KeysInOrder entry other ↔ entry.1 ≤ other.1 := by
  rw [KeysInOrder, ← List.not_lt, Text.bytes_lt_bytes_iff, not_lt]

instance : Std.Total (@KeysInOrder Value) where
  total entry other := by
    rw [keysInOrder_iff, keysInOrder_iff]
    exact le_total entry.1 other.1

instance : IsTrans (String × Value) KeysInOrder where
  trans entry between other := by
    simp only [keysInOrder_iff]
    exact le_trans

theorem KeysInOrder.of_lt {entry other : String × Value} (less : entry.1 < other.1) :
    KeysInOrder entry other :=
  keysInOrder_iff.mpr less.le

theorem nodup_keys_of_pairwise_lt {entries : List (String × Value)}
    (ordered : entries.Pairwise fun entry other => entry.1 < other.1) :
    (entries.map Prod.fst).Nodup :=
  List.pairwise_map.mpr (ordered.imp ne_of_lt)

/-- There is one way to put entries with distinct keys in order. -/
theorem eq_of_perm_of_inOrder {entries others : List (String × Value)}
    (distinct : (entries.map Prod.fst).Nodup) (permuted : entries.Perm others)
    (ordered : entries.Pairwise KeysInOrder) (otherOrdered : others.Pairwise KeysInOrder) :
    entries = others := by
  refine List.Perm.eq_of_pairwise ?_ ordered otherOrdered permuted
  intro entry other membership otherMembership before after
  have sameKey := le_antisymm (keysInOrder_iff.mp before) (keysInOrder_iff.mp after)
  exact List.inj_on_of_nodup_map distinct membership (permuted.mem_iff.mpr otherMembership) sameKey

/-- Entries with distinct keys are sorted into one list, whatever order they come in. -/
theorem insertionSort_eq_of_perm {entries others : List (String × Value)}
    (distinct : (entries.map Prod.fst).Nodup) (permuted : entries.Perm others) :
    entries.insertionSort KeysInOrder = others.insertionSort KeysInOrder := by
  have sorted := List.perm_insertionSort KeysInOrder entries
  have otherSorted := List.perm_insertionSort KeysInOrder others
  apply eq_of_perm_of_inOrder
  · exact (sorted.map Prod.fst).nodup_iff.mpr distinct
  · exact sorted.trans (permuted.trans otherSorted.symm)
  · exact List.pairwise_insertionSort KeysInOrder entries
  · exact List.pairwise_insertionSort KeysInOrder others

theorem pairwise_lt_insertionSort {entries : List (String × Value)}
    (distinct : (entries.map Prod.fst).Nodup) :
    (entries.insertionSort KeysInOrder).Pairwise fun entry other => entry.1 < other.1 := by
  have permuted := (List.perm_insertionSort KeysInOrder entries).map Prod.fst
  have apart := List.pairwise_map.mp (permuted.nodup_iff.mpr distinct)
  refine ((List.pairwise_insertionSort KeysInOrder entries).and apart).imp ?_
  intro entry other both
  exact lt_of_le_of_ne (keysInOrder_iff.mp both.1) both.2

theorem insertionSort_eq_of_pairwise_lt {entries : List (String × Value)}
    (ordered : entries.Pairwise fun entry other => entry.1 < other.1) :
    entries.insertionSort KeysInOrder = entries :=
  (ordered.imp KeysInOrder.of_lt).insertionSort_eq

/-- Sorting does not look at the values. -/
theorem map_insertionSort_values {Other : Type} (convert : Value → Other)
    (entries : List (String × Value)) :
    (entries.insertionSort KeysInOrder).map (fun entry => (entry.1, convert entry.2)) =
      (entries.map fun entry => (entry.1, convert entry.2)).insertionSort KeysInOrder :=
  List.map_insertionSort KeysInOrder KeysInOrder _ entries fun _ _ _ _ => Iff.rfl

end Order

namespace Json

variable {key : String} {value : Json} {members : List (String × Json)}

theorem mem_of_mem_insertSorted {entry : String × Json}
    (membership : entry ∈ insertSorted key value members) :
    entry = (key, value) ∨ entry ∈ members := by
  induction members with
  | nil => exact Or.inl (List.mem_singleton.mp membership)
  | cons first rest inductionHypothesis =>
      obtain ⟨name, other⟩ := first
      grind [insertSorted]

theorem insertSorted_perm (fresh : key ∉ members.map Prod.fst) :
    (insertSorted key value members).Perm ((key, value) :: members) := by
  induction members with
  | nil => exact .refl _
  | cons first rest inductionHypothesis =>
      obtain ⟨name, other⟩ := first
      simp only [List.map_cons, List.mem_cons, not_or] at fresh
      rw [insertSorted, if_neg fresh.1]
      split
      · exact .refl _
      · exact ((inductionHypothesis fresh.2).cons _).trans (.swap _ _ rest)

theorem pairwise_insertSorted
    (ordered : members.Pairwise fun entry other => entry.1 < other.1) :
    (insertSorted key value members).Pairwise fun entry other => entry.1 < other.1 := by
  induction members with
  | nil => exact List.pairwise_singleton _ _
  | cons first rest inductionHypothesis =>
      obtain ⟨name, other⟩ := first
      obtain ⟨least, restOrdered⟩ := List.pairwise_cons.mp ordered
      rw [insertSorted]
      split
      · rename_i before
        refine List.pairwise_cons.mpr ⟨?_, ordered⟩
        intro entry membership
        rcases List.mem_cons.mp membership with rfl | later
        · exact before
        · exact before.trans (least entry later)
      · rename_i notBefore
        split
        · rename_i same
          exact List.pairwise_cons.mpr ⟨same ▸ least, restOrdered⟩
        · rename_i differs
          refine List.pairwise_cons.mpr ⟨?_, inductionHypothesis restOrdered⟩
          intro entry membership
          rcases mem_of_mem_insertSorted membership with rfl | later
          · exact lt_of_le_of_ne (not_lt.mp notBefore) (Ne.symm differs)
          · exact least entry later

/-- Putting in a member with a new key keeps the order and loses nothing, so all together do. -/
theorem foldl_insertSorted_spec {entries sorted : List (String × Json)}
    (distinct : ((sorted ++ entries).map Prod.fst).Nodup)
    (ordered : sorted.Pairwise fun entry other => entry.1 < other.1) :
    (entries.foldl (fun sorted entry => insertSorted entry.1 entry.2 sorted) sorted).Perm
        (sorted ++ entries) ∧
      (entries.foldl (fun sorted entry => insertSorted entry.1 entry.2 sorted) sorted).Pairwise
        fun entry other => entry.1 < other.1 := by
  induction entries generalizing sorted with
  | nil => exact ⟨by simp, ordered⟩
  | cons entry rest inductionHypothesis =>
      have front : (sorted ++ entry :: rest).Perm (entry :: sorted ++ rest) := List.perm_middle
      have distinctFront := (front.map Prod.fst).nodup_iff.mp distinct
      have fresh : entry.1 ∉ sorted.map Prod.fst := by
        intro membership
        obtain ⟨other, found, sameKey⟩ := List.mem_map.mp membership
        apply (List.nodup_cons.mp distinctFront).1
        exact List.mem_map.mpr ⟨other, List.mem_append_left rest found, sameKey⟩
      have inserted : (insertSorted entry.1 entry.2 sorted ++ rest).Perm
          (entry :: sorted ++ rest) :=
        (insertSorted_perm fresh).append_right rest
      obtain ⟨permuted, inOrder⟩ := inductionHypothesis
        ((inserted.map Prod.fst).nodup_iff.mpr distinctFront) (pairwise_insertSorted ordered)
      exact ⟨permuted.trans (inserted.trans front.symm), inOrder⟩

/-- Members with distinct keys that are put into their places one by one are sorted. -/
theorem foldl_insertSorted_eq {entries : List (String × Json)}
    (distinct : (entries.map Prod.fst).Nodup) :
    entries.foldl (fun sorted entry => insertSorted entry.1 entry.2 sorted) [] =
      entries.insertionSort KeysInOrder := by
  obtain ⟨permuted, ordered⟩ := @foldl_insertSorted_spec entries [] distinct .nil
  have sorted := List.perm_insertionSort KeysInOrder entries
  apply eq_of_perm_of_inOrder
  · exact (permuted.map Prod.fst).nodup_iff.mpr distinct
  · exact permuted.trans sorted.symm
  · exact ordered.imp KeysInOrder.of_lt
  · exact List.pairwise_insertionSort KeysInOrder entries

end Json

end TreePath
