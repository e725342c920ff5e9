import TreePath.Proofs.Engine.Build
import TreePath.Proofs.Engine.Run
import TreePath.Proofs.Tree.Addressable

set_option autoImplicit false

/-!
# The listed paths of written trees

A write takes away the paths at and below its location, and brings those of the stored value and of
the containers on the way to it. Runs of writes keep trees addressable, whatever the paths are, so
every entry of a written tree can be looked up and written back at its path.
-/

namespace TreePath.Engine

open TreePath.Path TreePath.Tree

variable {engine : Engine} {path : String} {plan : Plan} {value tree written : Tree}
  {entries : List Entry}

/-- No path has a plan with a key that is not plain. -/
theorem isWritable_of_ofPath (planned : Plan.ofPath engine.config.maxArrayIndex path = .ok plan) :
    ∀ step ∈ plan.steps, step.isWritable (indexBound - 1) = true :=
  isWritable_of_namedInTurn (Plan.namedInTurn_tokens planned)

theorem isAddressable_tree_write (addressable : tree.IsAddressable)
    (valueAddressable : value.IsAddressable) (path : String) :
    (engine.write path value tree).tree.IsAddressable := by
  rcases write_cases engine path value tree with
    ⟨plan, written, planned, assigned, done⟩ | ⟨error, stopped⟩
  · rw [done]
    exact addressable.of_assign valueAddressable (fits_of_ofPath planned)
      (isWritable_of_ofPath planned) assigned
  · rw [stopped]
    exact addressable

theorem isAddressable_run (addressable : tree.IsAddressable)
    (valuesAddressable : ∀ entry ∈ entries, entry.2.IsAddressable) :
    (engine.run entries tree).IsAddressable :=
  run_invariant (fun path _ _ valueAddressable reached =>
    isAddressable_tree_write reached valueAddressable path) valuesAddressable addressable

/-- The listed paths after a write, each once: those from before, but for the path of the target
and the paths of what was below it, those of the containers on the way, that of the value if it is
listed, and those of what is listed in the value. -/
theorem mem_paths_of_write_eq_ok
    (planned : Plan.ofPath engine.config.maxArrayIndex path = .ok plan)
    (addressable : tree.IsAddressable) (valueAddressable : value.IsAddressable)
    (stored : (engine.write path value tree).toExcept = .ok written) :
    (engine.paths written).Nodup ∧
      ∀ query, query ∈ engine.paths written ↔
        (query ∈ engine.paths tree ∧ query ≠ render plan.steps ∧
          ∀ deeper, deeper ≠ [] → tree.arrival? (tokens query) ≠ some (plan.steps ++ deeper)) ∨
        (∃ passed later, plan.steps = passed ++ later ∧ passed ≠ [] ∧ later ≠ [] ∧
          query = render passed) ∨
        (query = render plan.steps ∧ value.isListed engine.config.enumerateNulls = true) ∨
        ∃ inner ∈ engine.paths value, query = pathInside (render plan.steps) inner := by
  have assigned := assign_of_write_eq_ok planned stored
  have nonempty : plan.steps ≠ [] := by simp [Plan.steps]
  have stepsWritable := isWritable_of_ofPath planned
  have writtenAddressable : written.IsAddressable :=
    addressable.of_assign valueAddressable (fits_of_ofPath planned) stepsWritable assigned
  refine ⟨writtenAddressable.nodup_paths, fun query => ⟨?_, ?_⟩⟩
  · intro inPaths
    obtain ⟨location, listed, rfl⟩ := writtenAddressable.mem_paths_iff.mp inPaths
    rcases (lists_assign_iff assigned nonempty).mp listed with
      ⟨before, notBelow⟩ | ⟨below, later, further, split⟩ | ⟨rfl, valueListed⟩ | ⟨rest, inside, rfl⟩
    · obtain ⟨node, located, -⟩ := before.2
      refine Or.inl ⟨addressable.mem_paths_iff.mpr ⟨location, before, rfl⟩, ?_⟩
      exact (addressable.not_prefix_iff located before.1 nonempty stepsWritable).mp notBelow
    · exact Or.inr (Or.inl ⟨location, later, split, below, further, rfl⟩)
    · exact Or.inr (Or.inr (Or.inl ⟨rfl, valueListed⟩))
    · obtain ⟨node, located, -⟩ := inside.2
      refine Or.inr (Or.inr (Or.inr ⟨render rest, ?_, ?_⟩))
      · exact valueAddressable.mem_paths_iff.mpr ⟨rest, inside, rfl⟩
      · exact render_append nonempty inside.1 stepsWritable (valueAddressable.isWritable located)
  · intro described
    apply writtenAddressable.mem_paths_iff.mpr
    rcases described with
      ⟨inPaths, differs, notBelow⟩ | ⟨passed, later, split, below, further, rfl⟩ |
        ⟨rfl, valueListed⟩ | ⟨inner, inPaths, rfl⟩
    · obtain ⟨location, listed, rfl⟩ := addressable.mem_paths_iff.mp inPaths
      obtain ⟨node, located, -⟩ := listed.2
      have apart := (addressable.not_prefix_iff located listed.1 nonempty stepsWritable).mpr
        ⟨differs, notBelow⟩
      exact ⟨location, (lists_assign_iff assigned nonempty).mpr (Or.inl ⟨listed, apart⟩), rfl⟩
    · refine ⟨passed, (lists_assign_iff assigned nonempty).mpr ?_, rfl⟩
      exact Or.inr (Or.inl ⟨below, later, further, split⟩)
    · refine ⟨plan.steps, (lists_assign_iff assigned nonempty).mpr ?_, rfl⟩
      exact Or.inr (Or.inr (Or.inl ⟨rfl, valueListed⟩))
    · obtain ⟨rest, listed, rfl⟩ := valueAddressable.mem_paths_iff.mp inPaths
      refine ⟨plan.steps ++ rest, (lists_assign_iff assigned nonempty).mpr ?_, ?_⟩
      · exact Or.inr (Or.inr (Or.inr ⟨rest, listed, rfl⟩))
      · obtain ⟨below, node, located, -⟩ := listed
        exact (render_append nonempty below stepsWritable
          (valueAddressable.isWritable located)).symm

theorem paths_after_write_over_object :
    Plan.ofPath standard.config.maxArrayIndex "..a[01].b" =
        .ok ⟨[⟨.member "a", .array, 3⟩, ⟨.element 1, .object, 7⟩], .member "b"⟩ ∧
      (object [("a", .array [some .null, some (object [("b", object [("c", .null)])])]),
        ("ab", .bool true)]).IsAddressable ∧
      (object [("d", .array [some (.bool true)])]).IsAddressable ∧
      (standard.write "..a[01].b" (object [("d", .array [some (.bool true)])])
          (object [("a", .array [some .null, some (object [("b", object [("c", .null)])])]),
            ("ab", .bool true)])).toExcept =
        .ok (object [("a", .array [some .null,
          some (object [("b", object [("d", .array [some (.bool true)])])])]),
            ("ab", .bool true)]) ∧
      (standard.paths (object [("a", .array [some .null,
        some (object [("b", object [("d", .array [some (.bool true)])])])]),
          ("ab", .bool true)])).Nodup ∧
      "a[1].b.d[0]" ∈ standard.paths (object [("a", .array [some .null,
        some (object [("b", object [("d", .array [some (.bool true)])])])]),
          ("ab", .bool true)]) ∧
      "ab" ∈ standard.paths (object [("a", .array [some .null,
        some (object [("b", object [("d", .array [some (.bool true)])])])]),
          ("ab", .bool true)]) := by
  have planned : Plan.ofPath standard.config.maxArrayIndex "..a[01].b" =
      .ok ⟨[⟨.member "a", .array, 3⟩, ⟨.element 1, .object, 7⟩], .member "b"⟩ :=
    Plan.ofPath_eq_ok_iff.mpr ⟨.key 2 ['a'], [.index ['0', '1'], .key 1 ['b']],
      by decide, by decide, by decide⟩
  have addressable : (object [("a", .array [some .null,
      some (object [("b", object [("c", .null)])])]), ("ab", .bool true)]).IsAddressable :=
    ⟨by decide, by decide, by decide⟩
  have valueAddressable : (object [("d", .array [some (.bool true)])]).IsAddressable :=
    ⟨by decide, by decide, by decide⟩
  have stored : (standard.write "..a[01].b" (object [("d", .array [some (.bool true)])])
      (object [("a", .array [some .null, some (object [("b", object [("c", .null)])])]),
        ("ab", .bool true)])).toExcept =
          .ok (object [("a", .array [some .null,
            some (object [("b", object [("d", .array [some (.bool true)])])])]),
              ("ab", .bool true)]) := by
    rw [write_eq_assign planned]
    rfl
  obtain ⟨distinct, listed⟩ :=
    mem_paths_of_write_eq_ok planned addressable valueAddressable stored
  refine ⟨planned, addressable, valueAddressable, stored, distinct, ?_, ?_⟩
  · apply (listed "a[1].b.d[0]").mpr
    exact Or.inr (Or.inr (Or.inr ⟨"d[0]", by decide, by decide⟩))
  · apply (listed "ab").mpr
    refine Or.inl ⟨by decide, by decide, ?_⟩
    intro deeper _ arrived
    have words : tokens "ab" = [.key "ab"] := by decide
    rw [words] at arrived
    simp [arrival?, stepFor?, at?, member?, Members.get?, Token.raw, Plan.steps] at arrived

/-- A node can be written back at the path of its location, and that changes nothing. -/
theorem write_render_eq_done (plain : tree.everywhere hasPlainKeys = true) {node : Tree}
    {location : List Step} (below : location ≠ []) (located : tree.locate? location = some node)
    (within : ∀ index, .element index ∈ location → index ≤ engine.config.maxArrayIndex) :
    engine.write (render location) node tree = .done tree := by
  refine write_render_of_assign below ?_ (assign_of_locate?_eq located)
  intro step taken
  cases step with
  | member key => exact isPlainKey_of_locate? plain located taken
  | element index => exact decide_eq_true (within index taken)

/-- However odd the paths of a run are, all keys stay plain, and every entry of the tree leads back
to its node when its path is looked up. Unless that path has an index above the limit, the entry can
also be written back, which changes nothing. -/
theorem read?_and_write_entries_of_run (addressable : tree.IsAddressable)
    (valuesAddressable : ∀ entry ∈ entries, entry.2.IsAddressable) :
    (engine.run entries tree).everywhere hasPlainKeys = true ∧
      engine.entries (engine.run entries tree) =
        ((engine.run entries tree).places engine.config.enumerateNulls).map Place.entry ∧
      ∀ location node,
        (location, node) ∈ (engine.run entries tree).places engine.config.enumerateNulls →
          (engine.run entries tree).read? (render location) = some node ∧
            (Place.isWithin engine.config.maxArrayIndex (location, node) = true →
              engine.write (render location) node (engine.run entries tree) =
                .done (engine.run entries tree)) := by
  have reached := @isAddressable_run engine tree entries addressable valuesAddressable
  refine ⟨reached.plain, entries_eq_map_places _ _, fun location node visited => ?_⟩
  obtain ⟨below, located, -⟩ := (mem_places_iff reached.distinct).mp visited
  refine ⟨reached.read?_render located, fun within => ?_⟩
  exact write_render_eq_done reached.plain below located fun index =>
    Place.index_le_of_isWithin within

theorem read?_and_write_entry_after_conflict :
    Tree.absent.IsAddressable ∧
      (∀ entry ∈ [("..a[1]", object [("b", .bool true)]), ("a.b", Tree.null)],
        entry.2.IsAddressable) ∧
      standard.run [("..a[1]", object [("b", .bool true)]), ("a.b", .null)] .absent =
        object [("a", .array [none, some (object [("b", .bool true)])])] ∧
      (object [("a", .array [none, some (object [("b", .bool true)])])]).read? "a[1].b" =
        some (.bool true) ∧
      standard.write "a[1].b" (.bool true)
          (object [("a", .array [none, some (object [("b", .bool true)])])]) =
        .done (object [("a", .array [none, some (object [("b", .bool true)])])]) := by
  have plannedElement : Plan.ofPath standard.config.maxArrayIndex "..a[1]" =
      .ok ⟨[⟨.member "a", .array, 3⟩], .element 1⟩ :=
    Plan.ofPath_eq_ok_iff.mpr ⟨.key 2 ['a'], [.index ['1']], by decide, by decide, by decide⟩
  have plannedMember : Plan.ofPath standard.config.maxArrayIndex "a.b" =
      .ok ⟨[⟨.member "a", .object, 1⟩], .member "b"⟩ :=
    Plan.ofPath_eq_ok_iff.mpr ⟨.key 0 ['a'], [.key 1 ['b']], by decide, by decide, by decide⟩
  have addressable : Tree.absent.IsAddressable := ⟨by decide, by decide, by decide⟩
  have valuesAddressable : ∀ entry ∈ [("..a[1]", object [("b", .bool true)]), ("a.b", Tree.null)],
      entry.2.IsAddressable := by
    simp only [List.forall_mem_cons, List.not_mem_nil, false_implies, implies_true, and_true]
    exact ⟨⟨by decide, by decide, by decide⟩, ⟨by decide, by decide, by decide⟩⟩
  have reached : standard.run [("..a[1]", object [("b", .bool true)]), ("a.b", .null)] .absent =
      object [("a", .array [none, some (object [("b", .bool true)])])] := by
    simp only [run, write_eq_assign plannedElement, write_eq_assign plannedMember]
    rfl
  obtain ⟨-, -, returns⟩ :=
    @read?_and_write_entries_of_run standard .absent _ addressable valuesAddressable
  rw [reached] at returns
  have text : render [.member "a", .element 1, .member "b"] = "a[1].b" := by decide
  obtain ⟨found, written⟩ := returns [.member "a", .element 1, .member "b"] (.bool true) (.head _)
  rw [text] at found written
  exact ⟨addressable, valuesAddressable, reached, found, written (by decide)⟩

end TreePath.Engine
