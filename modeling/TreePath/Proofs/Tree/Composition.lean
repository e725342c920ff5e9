import TreePath.Proofs.Path.Spelling
import TreePath.Tree.Read

set_option autoImplicit false

/-!
# Looking up in parts

A mark cuts a path into two that know nothing of each other: the tokens of the whole are those of
the one and then those of the other. So the second part is looked up from the node that the first
leads to. How many marks stand in a row plays no part, nor which they are.
-/

namespace TreePath

open TreePath.Path

namespace Path

theorem tokensOf_append_marks (text : List Char) (marks : List Mark) :
    tokensOf (text ++ marks.map Mark.toChar) = tokensOf text := by
  cases marks with
  | nil => rw [List.map_nil, List.append_nil]
  | cons mark rest =>
      have onlyMarks := tokensOf_marks_append rest []
      rw [List.append_nil] at onlyMarks
      rw [List.map_cons, tokensOf_append_mark, onlyMarks, tokensOf_nil, List.append_nil]

/-- A text of nothing but marks. -/
def markText (marks : List Mark) : String :=
  String.ofList (marks.map Mark.toChar)

/-- Marks in a row cut a path as one of them does. -/
theorem tokens_append_markText {marks : List Mark} (nonempty : marks ≠ [])
    (before after : String) :
    tokens (before ++ markText marks ++ after) = tokens before ++ tokens after := by
  obtain ⟨mark, rest, rfl⟩ := List.exists_cons_of_ne_nil nonempty
  unfold tokens markText
  simp only [String.toList_append, String.toList_ofList, List.map_cons, List.append_assoc,
    List.cons_append]
  rw [tokensOf_append_mark, tokensOf_marks_append]

theorem tokens_markText_append_markText (left right : List Mark) (path : String) :
    tokens (markText left ++ path ++ markText right) = tokens path := by
  unfold tokens markText
  simp only [String.toList_append, String.toList_ofList]
  rw [tokensOf_append_marks, tokensOf_marks_append]

end Path

namespace Tree

/-- A path that a mark cuts in two is looked up one part after the other, the second from the node
that the first leads to. More marks on either side of that one, or at the ends of a path, change
nothing. -/
theorem read?_append_mark (before after : String) (mark : Mark) (tree : Tree) :
    tokens (before ++ markText [mark] ++ after) = tokens before ++ tokens after ∧
    tree.read? (before ++ markText [mark] ++ after) =
      (tree.read? before).bind (fun node => node.read? after) ∧
    ∀ left right : List Mark,
      tree.read? (before ++ markText (left ++ mark :: right) ++ after) =
        tree.read? (before ++ markText [mark] ++ after) ∧
      tree.read? (markText left ++ before ++ markText right) = tree.read? before := by
  have cut : tokens (before ++ markText [mark] ++ after) = tokens before ++ tokens after :=
    tokens_append_markText (List.cons_ne_nil mark []) before after
  refine ⟨cut, ?_, fun left right => ⟨?_, ?_⟩⟩
  · unfold read?
    rw [cut, follow?_append]
  · have row : left ++ mark :: right ≠ [] := List.append_ne_nil_of_right_ne_nil left (by simp)
    unfold read?
    rw [cut, tokens_append_markText row]
  · unfold read?
    rw [tokens_markText_append_markText]

end Tree

end TreePath
