import TreePath.Proofs.Engine.Refinement
import TreePath.Proofs.Path.Rendering
import TreePath.Proofs.Tree.Addressing

set_option autoImplicit false

/-!
# Keys as paths

A plain key is a path of one step, so that writing at it sets the member with that key and nothing
else. No other key can be used so: as a path it either is refused or means something else, and
neither writing nor looking up ever asks for a member with that key.
-/

namespace TreePath

open TreePath.Path TreePath.Tree

variable {limit : Nat} {key : String}

theorem Plan.ofPath_of_isPlainKey (plain : isPlainKey key = true) :
    Plan.ofPath limit key = .ok ⟨[], .member key⟩ := by
  obtain ⟨nonempty, unmarked⟩ := Step.isPlainKey_iff.mp plain
  have valid : (Spelling.key 0 key.toList).IsValid limit := ⟨nonempty, unmarked_iff.mp unmarked⟩
  have planned : Plan.spelled 0 (.key 0 key.toList) [] = ⟨[], .member key⟩ := by
    rw [Plan.spelled, Spelling.step, String.ofList_toList]
  refine Plan.ofPath_eq_ok_iff.mpr ⟨.key 0 key.toList, [], ⟨valid, by simp⟩, ?_, planned.symm⟩
  simp [Spelling.text]

/-- Tokens are plain, so none of them asks for a key that is not. -/
theorem member_not_mem_of_namedInTurn {path : String} {passed : List Token} {location : List Step}
    (marked : isPlainKey key = false) (begins : passed <+: tokens path)
    (named : NamedInTurn location passed) : .member key ∉ location := by
  intro taken
  obtain ⟨token, inPassed, sameText⟩ := named.exists_token taken
  have plain := isPlainKey_raw (begins.mem inPassed)
  rw [Step.isNamedBy, beq_iff_eq] at sameText
  rw [sameText, marked] at plain
  cases plain

/-- A member whose key is not plain is not seen below the root. -/
theorem follow?_insert_of_not_plain {path : String} (marked : isPlainKey key = false)
    (nonempty : tokens path ≠ []) (members : Members) (value : Tree) :
    (object (members.insert key value)).follow? (tokens path) =
      (object members).follow? (tokens path) := by
  obtain ⟨token, rest, shape⟩ := List.exists_cons_of_ne_nil nonempty
  have plain : isPlainKey token.raw = true := isPlainKey_raw (shape ▸ List.mem_cons_self)
  have differs : key ≠ token.raw := by
    rintro rfl
    rw [marked] at plain
    cases plain
  have found : (object (members.insert key value)).child? token =
      (object members).child? token := by
    rw [child?, child?, Members.get?_insert, if_neg differs]
  rw [shape, follow?_cons, follow?_cons, found]

namespace Engine

/-- Writing at a plain key takes the value in under that key. -/
theorem exists_takesIn_of_isPlainKey (plain : isPlainKey key = true) (engine : Engine)
    (members : Members) (value : Tree) :
    ∃ written, (engine.write key value (.object members)).toExcept = .ok written ∧
      TakesIn value (.member key) (.object members) written := by
  have planned : Plan.ofPath engine.config.maxArrayIndex key = .ok ⟨[], .member key⟩ :=
    Plan.ofPath_of_isPlainKey plain
  refine ⟨put (.member key) value (.object members), ?_, takesIn_put value rfl⟩
  rw [write_eq_assign planned]
  rfl

/-- What a path leads to in an empty object is stored under the first key of the path. -/
theorem exists_singleton_of_write_empty {engine : Engine} {path : String} {value written : Tree}
    (stored : (engine.write path value (.object [])).toExcept = .ok written) :
    ∃ name child, isPlainKey name = true ∧ written = .object [(name, child)] := by
  rcases write_cases engine path value (.object []) with
    ⟨plan, other, planned, assigned, done⟩ | ⟨error, stopped⟩
  · rw [done, Edit.toExcept_done] at stored
    obtain rfl := Except.ok.inj stored
    have writable := Plan.isWritable_steps planned
    have nonempty : plan.steps ≠ [] := by simp [Plan.steps]
    obtain ⟨step, rest, shape⟩ := List.exists_cons_of_ne_nil nonempty
    rw [shape] at assigned writable
    obtain ⟨admitted, child, -, rfl⟩ := assign_cons_eq_ok_iff.mp assigned
    cases step with
    | member name => exact ⟨name, child, writable _ List.mem_cons_self, rfl⟩
    | element index => cases admitted
  · rw [stopped] at stored
    cases stored

/-- Writing at a key that is not plain leaves no member with it in what was an empty object. -/
theorem write_empty_of_not_plain (marked : isPlainKey key = false) (engine : Engine)
    (value : Tree) :
    (∃ error, (engine.write key value (.object [])).toExcept = .error error) ∨
      ∃ members, (engine.write key value (.object [])).toExcept = .ok (.object members) ∧
        key ∉ members.map Prod.fst := by
  cases stored : (engine.write key value (.object [])).toExcept with
  | error error => exact Or.inl ⟨error, rfl⟩
  | ok written =>
      obtain ⟨name, child, plain, rfl⟩ := exists_singleton_of_write_empty stored
      refine Or.inr ⟨_, rfl, ?_⟩
      rw [List.map_singleton, List.mem_singleton]
      rintro rfl
      rw [marked] at plain
      cases plain

/-- A key is plain exactly if writing at it sets the member with that key in every object. Writing
at another key into an empty object fails or makes no such member, and looking such a key up passes
through no member with it: it leads to the root, or to what is there without that member. -/
theorem isPlainKey_iff_forall_write (key : String) :
    (isPlainKey key = true ↔
      ∀ (engine : Engine) (members : Members) (value : Tree),
        ∃ written, (engine.write key value (.object members)).toExcept = .ok written ∧
          TakesIn value (.member key) (.object members) written) ∧
    (isPlainKey key = false →
      (∀ (engine : Engine) (value : Tree),
        (∃ error, (engine.write key value (.object [])).toExcept = .error error) ∨
          ∃ members, (engine.write key value (.object [])).toExcept = .ok (.object members) ∧
            key ∉ members.map Prod.fst) ∧
      (∀ (tree : Tree) (passed : List Token) (location : List Step), passed <+: tokens key →
        tree.arrival? passed = some location → .member key ∉ location) ∧
      ((∀ members, (object members).read? key = some (object members)) ∨
        ∀ (members : Members) (value : Tree),
          (object (members.insert key value)).read? key = (object members).read? key)) := by
  refine ⟨⟨exists_takesIn_of_isPlainKey, ?_⟩, ?_⟩
  · intro takesIn
    rw [← Bool.not_eq_false]
    intro marked
    obtain ⟨written, stored, taken⟩ := takesIn standard [] .null
    rcases write_empty_of_not_plain marked standard .null with
      ⟨error, failed⟩ | ⟨members, other, fresh⟩
    · rw [failed] at stored
      cases stored
    · obtain rfl := Except.ok.inj (stored.symm.trans other)
      generalize emptied : object [] = empty at taken
      cases taken with
      | replaced first => simp at emptied
      | appended notYet => simp at fresh
  · intro marked
    refine ⟨write_empty_of_not_plain marked, ?_, ?_⟩
    · intro tree passed location begins arrived
      exact member_not_mem_of_namedInTurn marked begins (arrival?_eq_some_iff.mp arrived).1
    · by_cases none : tokens key = []
      · refine Or.inl fun members => ?_
        rw [Tree.read?, none]
        rfl
      · exact Or.inr (follow?_insert_of_not_plain marked none)

theorem write_at_dotted_key_and_at_digits :
    isPlainKey ".a" = false ∧
      (∃ members, (standard.write ".a" .null (.object [])).toExcept = .ok (.object members) ∧
        ".a" ∉ members.map Prod.fst) ∧
      (∀ value, (object [("a", .null), (".a", value)]).read? ".a" = some .null) ∧
      isPlainKey "7" = true ∧
      ∃ written, (standard.write "7" .null (.object [("7", .absent), ("a", .null)])).toExcept =
          .ok written ∧
        TakesIn .null (.member "7") (.object [("7", .absent), ("a", .null)]) written := by
  have marked : isPlainKey ".a" = false := by decide
  have plain : isPlainKey "7" = true := by decide
  obtain ⟨written, unseen, apart⟩ := (isPlainKey_iff_forall_write ".a").2 marked
  refine ⟨marked, ?_, ?_, plain, ?_⟩
  · rcases written standard .null with ⟨error, failed⟩ | stored
    · have planned : Plan.ofPath standard.config.maxArrayIndex ".a" = .ok ⟨[], .member "a"⟩ :=
        Plan.ofPath_eq_ok_iff.mpr ⟨.key 1 ['a'], [], by decide, by decide, by decide⟩
      rw [write_eq_assign planned] at failed
      cases failed
    · exact stored
  · have words : tokens ".a" = [.key "a"] := by decide
    rcases apart with root | unchanged
    · have missing := root []
      rw [Tree.read?, words] at missing
      cases missing
    · intro value
      have found := unchanged [("a", .null)] value
      rw [Tree.read?, Tree.read?, words] at found
      rw [Tree.read?, words]
      exact found
  · exact (isPlainKey_iff_forall_write "7").1.mp plain standard _ .null

end Engine

end TreePath
