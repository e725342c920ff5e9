import TreePath.Proofs.Path.Numeral
import TreePath.Proofs.Path.Rendering
import TreePath.Tree.Read

set_option autoImplicit false

/-!
# Paths written anew from their tokens

Every token is written with a mark before it, so what is written is cut into the same tokens again:
keys as they are, indices with their digits in plain decimal. Writing the tokens of a path is thus a
normal form of paths for looking up.
-/

namespace TreePath.Path

/-- The tokens of a path, each written as one step. -/
def displayed (path : String) : String :=
  String.join ((tokens path).map Token.display)

namespace Token

/-- The token with an index in plain decimal. -/
def plain : Token → Token
  | key text => key text
  | index value _ => index value (toString value)

/-- The step that is written as the token is. -/
def step : Token → Step
  | key text => .member text
  | index value _ => .element value

@[simp] theorem display_plain (token : Token) : token.plain.display = token.display := by
  cases token <;> rfl

theorem toList_display (token : Token) :
    token.display.toList = (token.step.spelling 1).text := by
  cases token with
  | key text => simp [display, step, Step.spelling, Spelling.text]
  | index value text => simp [display, step, Step.spelling, Spelling.text]

end Token

variable {path : String} {token : Token}

theorem ofText_raw (found : token ∈ tokens path) : Token.ofText token.raw = token := by
  obtain ⟨word, -, rfl⟩ := List.mem_map.mp found
  rw [Token.raw_ofText]

theorem isWritable_step (found : token ∈ tokens path) :
    token.step.isWritable (indexBound - 1) = true := by
  cases token with
  | key text =>
      have plain := isPlainKey_raw found
      exact plain
  | index value text =>
      rw [Token.step, Step.isWritable, decide_eq_true_eq]
      exact Nat.le_sub_one_of_lt (value_lt_indexBound found)

theorem token_step (found : token ∈ tokens path) : token.step.token = token.plain := by
  cases token with
  | key text =>
      have same := ofText_raw found
      exact same
  | index value text => rfl

theorem toList_displayed (path : String) :
    (displayed path).toList = spell ((tokens path).map fun token => token.step.spelling 1) := by
  rw [displayed, String.toList_join, spell, List.flatMap_map, List.flatMap_map]
  exact congrArg (List.flatMap · (tokens path)) (funext Token.toList_display)

/-- The written tokens of a path are cut into the same tokens, with indices in plain decimal. -/
theorem tokens_displayed (path : String) :
    tokens (displayed path) = (tokens path).map Token.plain := by
  have bounded : indexBound - 1 < indexBound := by decide
  have valid : ∀ next ∈ (tokens path).map (fun token => token.step.spelling 1),
      next.IsValid (indexBound - 1) ∧ next.IsMarked := by
    intro next membership
    obtain ⟨token, found, rfl⟩ := List.mem_map.mp membership
    exact ⟨Step.isValid_spelling bounded 1 (isWritable_step found), token.step.isMarked_spelling 0⟩
  have cut := tokensOf_append_spell valid []
  rw [List.nil_append, tokensOf_nil, List.nil_append] at cut
  rw [tokens, toList_displayed, cut, List.map_map]
  refine List.map_congr_left fun token found => ?_
  exact (Step.token_spelling bounded 1 (isWritable_step found)).trans (token_step found)

theorem displayed_displayed (path : String) : displayed (displayed path) = displayed path := by
  rw [displayed, tokens_displayed, List.map_map]
  exact congrArg String.join (List.map_congr_left fun token _ => token.display_plain)

theorem parseIndex?_of_mem_tokens {value : Nat} {text : String}
    (found : .index value text ∈ tokens path) : parseIndex? text = some value := by
  have read := ofText_raw found
  rw [Token.raw, Token.ofText] at read
  cases parsed : parseIndex? text with
  | none => simp [parsed] at read
  | some number =>
      simp only [parsed, Token.index.injEq, and_true] at read
      rw [read]

/-- An index without a leading zero is in plain decimal already. -/
theorem plain_eq_self (noZeros : ∀ value text, .index value text ∈ tokens path →
      hasLeadingZero text = false) (found : token ∈ tokens path) : token.plain = token := by
  cases token with
  | key text => rfl
  | index value text =>
      have same := toString_of_parseIndex? (parseIndex?_of_mem_tokens found)
        (noZeros value text found)
      rw [Token.plain, same]

/-- Writing the tokens of a path anew keeps them, but for the zeros that indices begin with, and
doing so twice changes nothing more. A path without such zeros is looked up as before. -/
theorem tokens_displayed_and_read?_displayed (path : String) :
    tokens (displayed path) = (tokens path).map Token.plain ∧
    displayed (displayed path) = displayed path ∧
    ((∀ value text, .index value text ∈ tokens path → hasLeadingZero text = false) →
      tokens (displayed path) = tokens path ∧
        ∀ tree : Tree, tree.read? (displayed path) = tree.read? path) := by
  refine ⟨tokens_displayed path, displayed_displayed path, fun noZeros => ?_⟩
  have same : tokens (displayed path) = tokens path := by
    rw [tokens_displayed, List.map_congr_left fun token found => plain_eq_self noZeros found]
    exact List.map_id' _
  refine ⟨same, fun tree => ?_⟩
  rw [Tree.read?, Tree.read?, same]

theorem displayed_of_stray_marks_and_long_digits :
    (∀ value text, .index value text ∈ tokens "..é]7[].18446744073709551616[007x" →
      hasLeadingZero text = false) ∧
    displayed "..é]7[].18446744073709551616[007x" = ".é[7].18446744073709551616.007x" ∧
    tokens ".é[7].18446744073709551616.007x" = tokens "..é]7[].18446744073709551616[007x" ∧
    displayed ".é[7].18446744073709551616.007x" = ".é[7].18446744073709551616.007x" := by
  have cut : tokens "..é]7[].18446744073709551616[007x" =
      [.key "é", .index 7 "7", .key "18446744073709551616", .key "007x"] := by decide
  have noZeros : ∀ value text, .index value text ∈ tokens "..é]7[].18446744073709551616[007x" →
      hasLeadingZero text = false := by
    intro value text found
    rw [cut] at found
    simp only [List.mem_cons, Token.index.injEq, reduceCtorEq, false_or, or_false,
      List.not_mem_nil] at found
    rw [found.2]
    rfl
  obtain ⟨-, again, kept⟩ :=
    tokens_displayed_and_read?_displayed "..é]7[].18446744073709551616[007x"
  have written : displayed "..é]7[].18446744073709551616[007x" =
      ".é[7].18446744073709551616.007x" := by
    rw [displayed, cut]
    decide
  rw [written] at again kept
  exact ⟨noZeros, written, (kept noZeros).1, again⟩

end TreePath.Path
