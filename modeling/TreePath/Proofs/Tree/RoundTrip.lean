import TreePath.Proofs.Json.RoundTrip
import TreePath.Proofs.Tree.Normalization

set_option autoImplicit false

/-!
# Trees through text

The text of a tree is that of its JSON value, so it is read as what is left of the tree there, its
normal form, whether it was set out on one line or on many. Since the normal form has the same JSON
value as the tree, the text tells normal forms apart and nothing else.
-/

namespace TreePath.Tree

/-- What keeps the text of a tree readable: keys that are distinct, as they are in every tree that
is built, less than 128 containers within each other, and floats that read back from their text. -/
structure HasReadableText (tree : Tree) : Prop where
  distinct : tree.everywhere hasDistinctKeys = true
  shallow : tree.toJson.nesting < 128
  legible : tree.toJson.everywhere Json.hasLegibleFloat = true

variable {tree other : Tree}

theorem parse_write (readable : tree.HasReadableText) {style : Json.Style} (blank : style.IsBlank)
    (depth : Nat) :
    parse (String.ofList (tree.toJson.write style depth)) = .ok tree.normalize := by
  have sorted := everywhere_toJson (fun _ => hasSortedKeys_toJson) readable.distinct
  have shallow : tree.toJson.nesting ≤ Json.maxNesting := Nat.le_of_lt_succ readable.shallow
  rw [parse, Json.parse_write blank sorted readable.legible shallow, Except.map,
    ofJson_toJson_of_distinct readable.distinct]

theorem toJson_normalize (distinct : tree.everywhere hasDistinctKeys = true) :
    tree.normalize.toJson = tree.toJson := by
  have sorted := everywhere_toJson (fun _ => hasSortedKeys_toJson) distinct
  have signed : tree.toJson.everywhere Json.hasSignedInteger = true :=
    everywhere_toJson (fun node _ => hasSignedInteger_toJson node) distinct
  rw [← ofJson_toJson_of_distinct distinct, toJson_ofJson_of_signed sorted signed]

/-- Trees with one normal form have one text. -/
theorem compact_eq_of_normalize_eq (distinct : tree.everywhere hasDistinctKeys = true)
    (otherDistinct : other.everywhere hasDistinctKeys = true)
    (same : tree.normalize = other.normalize) : tree.compact = other.compact := by
  rw [compact, compact, ← toJson_normalize distinct, same, toJson_normalize otherDistinct]

/-- A readable tree is read from either of its texts in normal form, which is all that its text
tells. -/
theorem parse_pretty_and_compact (readable : tree.HasReadableText) :
    parse tree.pretty = .ok tree.normalize ∧ parse tree.compact = .ok tree.normalize ∧
      ∀ other : Tree, other.HasReadableText →
        (tree.compact = other.compact ↔ tree.normalize = other.normalize) := by
  have fromCompact (tree : Tree) (readable : tree.HasReadableText) :
      parse tree.compact = .ok tree.normalize :=
    parse_write readable Json.Style.isBlank_compact 0
  refine ⟨parse_write readable Json.Style.isBlank_pretty 0, fromCompact tree readable, ?_⟩
  intro other otherReadable
  constructor
  · intro same
    have read := fromCompact tree readable
    rw [same, fromCompact other otherReadable] at read
    exact (Except.ok.inj read).symm
  · exact compact_eq_of_normalize_eq readable.distinct otherReadable.distinct

theorem parse_pretty_and_compact_of_holes_and_escapes :
    (object [("b", array [none, some (int (-0x8000000000000000)),
        some (float ⟨0x3ff8000000000000⟩)]), ("ab", absent),
        ("a", string "𝄞\u0001\"")]).HasReadableText ∧
      (object [("a", string "𝄞\u0001\""), ("b", array [some null,
        some (int (-0x8000000000000000)), some (float ⟨0x3ff8000000000000⟩)])]).HasReadableText ∧
      parse (object [("b", array [none, some (int (-0x8000000000000000)),
          some (float ⟨0x3ff8000000000000⟩)]), ("ab", absent),
          ("a", string "𝄞\u0001\"")]).pretty =
        .ok (object [("a", string "𝄞\u0001\""), ("b", array [some null,
          some (int (-0x8000000000000000)), some (float ⟨0x3ff8000000000000⟩)])]) ∧
      (object [("b", array [none, some (int (-0x8000000000000000)),
          some (float ⟨0x3ff8000000000000⟩)]), ("ab", absent),
          ("a", string "𝄞\u0001\"")]).compact =
        (object [("a", string "𝄞\u0001\""), ("b", array [some null,
          some (int (-0x8000000000000000)), some (float ⟨0x3ff8000000000000⟩)])]).compact := by
  have readable : (object [("b", array [none, some (int (-0x8000000000000000)),
      some (float ⟨0x3ff8000000000000⟩)]), ("ab", absent),
      ("a", string "𝄞\u0001\"")]).HasReadableText :=
    ⟨by decide, by decide, by decide +kernel⟩
  have otherReadable : (object [("a", string "𝄞\u0001\""), ("b", array [some null,
      some (int (-0x8000000000000000)), some (float ⟨0x3ff8000000000000⟩)])]).HasReadableText :=
    ⟨by decide, by decide, by decide +kernel⟩
  obtain ⟨read, -, apart⟩ := parse_pretty_and_compact readable
  exact ⟨readable, otherReadable, read, (apart _ otherReadable).mpr rfl⟩

end TreePath.Tree
