import TreePath.Proofs.Path.Rendering
import TreePath.Proofs.Tree.Places

set_option autoImplicit false

/-!
# Listed paths as addresses

Looking a path up arrives at a location. The path of an entry leads back to where the entry was
taken from exactly when the keys on the way are plain. Where all keys are plain, no path is listed
twice, and whatever any text finds of the listed nodes has exactly one listed path.
-/

namespace TreePath.Tree

open TreePath.Path

/-- The step that a token takes from a node. -/
def stepFor? (token : Token) : Tree → Option Step
  | object _ => some (.member token.raw)
  | array _ =>
      match token with
      | .index value _ => some (.element value)
      | .key _ => none
  | _ => none

/-- The location at which looking tokens up ends, unless a child is missing on the way. -/
def arrival? : List Token → Tree → Option (List Step)
  | [], _ => some []
  | token :: rest, tree =>
      match tree.stepFor? token with
      | none => none
      | some step =>
          match tree.at? step with
          | none => none
          | some child => (arrival? rest child).map (step :: ·)

variable {nulls : Bool} {tree node : Tree} {location : List Step}

theorem stepFor?_eq_some_iff {token : Token} {step : Step} :
    tree.stepFor? token = some step ↔
      step.isNamedBy token = true ∧ step.container.accepts tree = true := by
  cases tree with
  | object members =>
      cases step <;> simp [stepFor?, Step.isNamedBy, Step.container, ContainerKind.accepts,
        isObject, isArray]
  | array slots =>
      cases token <;> cases step <;> simp [stepFor?, Step.isNamedBy, Step.container,
        ContainerKind.accepts, isObject, isArray]
  | _ => cases step <;> simp [stepFor?, Step.container, ContainerKind.accepts, isObject, isArray]

theorem locate?_cons (step : Step) (rest : List Step) (tree : Tree) :
    tree.locate? (step :: rest) = (tree.at? step).bind (locate? rest) := by
  rw [locate?]
  cases tree.at? step <;> rfl

theorem locate?_cons_eq_some_iff {step : Step} {rest : List Step} :
    tree.locate? (step :: rest) = some node ↔
      ∃ child, tree.at? step = some child ∧ child.locate? rest = some node := by
  rw [locate?_cons, Option.bind_eq_some_iff]

theorem accepts_of_at?_eq_some {child : Tree} {step : Step} (found : tree.at? step = some child) :
    step.container.accepts tree = true :=
  accepts_of_mem_children (mem_children_of_at?_eq_some found)

/-- Tokens arrive at the locations that they name. -/
theorem arrival?_eq_some_iff {tokens : List Token} :
    tree.arrival? tokens = some location ↔
      NamedInTurn location tokens ∧ ∃ node, tree.locate? location = some node := by
  constructor
  · intro arrived
    induction tokens generalizing tree location with
    | nil =>
        obtain rfl := Option.some.inj arrived
        exact ⟨.nil, tree, rfl⟩
    | cons token rest inductionHypothesis =>
        rw [arrival?] at arrived
        cases taken : tree.stepFor? token with
        | none => simp [taken] at arrived
        | some step =>
            cases found : tree.at? step with
            | none => simp [taken, found] at arrived
            | some child =>
                simp only [taken, found, Option.map_eq_some_iff] at arrived
                obtain ⟨later, deeper, rfl⟩ := arrived
                obtain ⟨named, node, located⟩ := inductionHypothesis deeper
                refine ⟨.cons (stepFor?_eq_some_iff.mp taken).1 named, node, ?_⟩
                rw [locate?_cons, found]
                exact located
  · rintro ⟨named, node, located⟩
    induction named generalizing tree with
    | nil => rfl
    | @cons step token steps tokens first others inductionHypothesis =>
        obtain ⟨child, found, deeper⟩ := locate?_cons_eq_some_iff.mp located
        have taken := stepFor?_eq_some_iff.mpr ⟨first, accepts_of_at?_eq_some found⟩
        simp only [arrival?, taken, found, inductionHypothesis deeper, Option.map_some]

theorem child?_eq_bind_stepFor? (token : Token) (tree : Tree) :
    tree.child? token = (tree.stepFor? token).bind fun step => tree.at? step := by
  cases tree with
  | array slots => cases token <;> rfl
  | _ => rfl

/-- Looking up finds the node at the location that it arrives at. -/
theorem follow?_eq_bind_arrival? (tokens : List Token) (tree : Tree) :
    tree.follow? tokens = (tree.arrival? tokens).bind fun location => tree.locate? location := by
  induction tokens generalizing tree with
  | nil => rfl
  | cons token rest inductionHypothesis =>
      rw [follow?_cons, child?_eq_bind_stepFor?, arrival?]
      cases taken : tree.stepFor? token with
      | none => rfl
      | some step =>
          cases found : tree.at? step with
          | none => simp [found]
          | some child =>
              simp only [Option.bind_some, found, inductionHypothesis]
              cases child.arrival? rest with
              | none => rfl
              | some later => simp [locate?_cons, found]

/-! ## Steps into a tree whose nodes pass a check -/

theorem exists_container_of_locate? {check : Tree → Bool} (passed : tree.everywhere check = true)
    (located : tree.locate? location = some node) {step : Step} (taken : step ∈ location) :
    ∃ container child, check container = true ∧ (step, child) ∈ container.children := by
  induction location generalizing tree with
  | nil => simp at taken
  | cons first rest inductionHypothesis =>
      obtain ⟨child, found, deeper⟩ := locate?_cons_eq_some_iff.mp located
      have membership := mem_children_of_at?_eq_some found
      rcases List.mem_cons.mp taken with rfl | later
      · exact ⟨tree, child, (everywhere_iff.mp passed).1, membership⟩
      · exact inductionHypothesis (everywhere_child passed membership) deeper later

theorem everywhere_of_locate? {check : Tree → Bool} (passed : tree.everywhere check = true)
    (located : tree.locate? location = some node) : node.everywhere check = true := by
  induction location generalizing tree with
  | nil => rwa [← Option.some.inj located]
  | cons first rest inductionHypothesis =>
      obtain ⟨child, found, deeper⟩ := locate?_cons_eq_some_iff.mp located
      exact inductionHypothesis
        (everywhere_child passed (mem_children_of_at?_eq_some found)) deeper

theorem isPlainKey_of_locate? (plain : tree.everywhere hasPlainKeys = true)
    (located : tree.locate? location = some node) {key : String} (taken : .member key ∈ location) :
    isPlainKey key = true := by
  obtain ⟨container, child, keysPlain, membership⟩ :=
    exists_container_of_locate? plain located taken
  cases container with
  | object members =>
      obtain ⟨name, same, listed⟩ := mem_children_object.mp membership
      rw [Step.member.inj same]
      exact List.all_eq_true.mp keysPlain (name, child) listed
  | _ => simp [children] at membership

theorem index_lt_of_locate? (countable : tree.everywhere hasCountableSlots = true)
    (located : tree.locate? location = some node) {index : Nat}
    (taken : .element index ∈ location) : index < maxSlots := by
  obtain ⟨container, child, slotsCountable, membership⟩ :=
    exists_container_of_locate? countable located taken
  cases container with
  | array slots =>
      obtain ⟨position, same, held⟩ := mem_children_array.mp membership
      obtain ⟨inRange, -⟩ := List.getElem?_eq_some_iff.mp held
      rw [Step.element.inj same]
      exact Nat.lt_of_lt_of_le inRange (of_decide_eq_true slotsCountable)
  | _ => simp [children] at membership

/-- A location in a tree can be written as a path if the keys on the way are plain. -/
theorem isWritable_of_locate? (countable : tree.everywhere hasCountableSlots = true)
    (located : tree.locate? location = some node)
    (plain : ∀ key, .member key ∈ location → isPlainKey key = true) :
    ∀ step ∈ location, step.isWritable (indexBound - 1) = true := by
  intro step taken
  cases step with
  | member key => exact plain key taken
  | element index =>
      exact decide_eq_true (Nat.le_of_lt (index_lt_of_locate? countable located taken))

theorem arrival?_tokens_render (located : tree.locate? location = some node)
    (writable : ∀ step ∈ location, step.isWritable (indexBound - 1) = true) :
    tree.arrival? (tokens (render location)) = some location := by
  have bounded : indexBound - 1 < indexBound := by decide
  exact arrival?_eq_some_iff.mpr ⟨namedInTurn_tokens_render bounded writable, node, located⟩

/-- Every entry is taken from a place, and its path leads back to that place exactly when the keys
on the way are plain, whatever other keys there are in the tree. -/
theorem arrival?_render_eq_iff_isPlainKey (distinct : tree.everywhere hasDistinctKeys = true)
    (countable : tree.everywhere hasCountableSlots = true) (nulls : Bool) :
    tree.entries nulls = (tree.places nulls).map Place.entry ∧
      ∀ location node, (location, node) ∈ tree.places nulls →
        tree.locate? location = some node ∧
          (tree.arrival? (tokens (render location)) = some location ↔
            ∀ key, .member key ∈ location → isPlainKey key = true) ∧
          (tree.arrival? (tokens (render location)) = some location →
            tree.read? (render location) = some node) := by
  refine ⟨entries_eq_map_places nulls tree, ?_⟩
  intro location node visited
  obtain ⟨-, located, -⟩ := (mem_places_iff distinct).mp visited
  refine ⟨located, ⟨?_, ?_⟩, ?_⟩
  · intro arrived key taken
    obtain ⟨named, -⟩ := arrival?_eq_some_iff.mp arrived
    exact isWritable_of_namedInTurn named (.member key) taken
  · intro plain
    exact arrival?_tokens_render located (isWritable_of_locate? countable located plain)
  · intro arrived
    rw [read?, follow?_eq_bind_arrival?, arrived]
    exact located

theorem arrival?_render_beside_dotted_key :
    (Tree.object [("007", .array [none, some .null]), ("a.b", .null)]).everywhere
        hasDistinctKeys = true ∧
      (Tree.object [("007", .array [none, some .null]), ("a.b", .null)]).everywhere
        hasCountableSlots = true ∧
      (Tree.object [("007", .array [none, some .null]), ("a.b", .null)]).arrival?
        (tokens "007[1]") = some [.member "007", .element 1] ∧
      (Tree.object [("007", .array [none, some .null]), ("a.b", .null)]).arrival?
        (tokens "a.b") ≠ some [.member "a.b"] := by
  have distinct : (Tree.object [("007", .array [none, some .null]), ("a.b", .null)]).everywhere
      hasDistinctKeys = true := by decide
  have countable : (Tree.object [("007", .array [none, some .null]), ("a.b", .null)]).everywhere
      hasCountableSlots = true := by decide
  obtain ⟨-, visits⟩ := arrival?_render_eq_iff_isPlainKey distinct countable true
  refine ⟨distinct, countable, ?_, ?_⟩
  · have visited := visits [.member "007", .element 1] .null (.head _)
    exact visited.2.1.mpr (by simp; decide)
  · have visited := visits [.member "a.b"] .null (.tail _ (.tail _ (.head _)))
    intro arrived
    have plain := visited.2.1.mp arrived "a.b" List.mem_cons_self
    exact absurd plain (by decide)

/-- Where all keys are plain, no path is listed twice, and a listed node that any text finds below
the root has exactly one listed path, the rendering of its location. -/
theorem mem_paths_and_arrival?_eq_iff (distinct : tree.everywhere hasDistinctKeys = true)
    (countable : tree.everywhere hasCountableSlots = true)
    (plain : tree.everywhere hasPlainKeys = true) (nulls : Bool) :
    (tree.paths nulls).Nodup ∧
      ∀ query node, tokens query ≠ [] → tree.read? query = some node →
        node.isListed nulls = true →
          ∃ location, tree.arrival? (tokens query) = some location ∧
            tree.locate? location = some node ∧
            ∀ path, path ∈ tree.paths nulls ∧ tree.arrival? (tokens path) = some location ↔
              path = render location := by
  have visit {place : Place} (visited : place ∈ tree.places nulls) :
      place.1 ≠ [] ∧ (∀ step ∈ place.1, step.isWritable (indexBound - 1) = true) ∧
        tree.arrival? (tokens (render place.1)) = some place.1 := by
    obtain ⟨nonempty, located, -⟩ := (mem_places_iff distinct).mp visited
    have writable := isWritable_of_locate? countable located fun key taken =>
      isPlainKey_of_locate? plain located taken
    exact ⟨nonempty, writable, arrival?_tokens_render located writable⟩
  rw [paths_eq_map_entries, entries_eq_map_places, List.map_map]
  constructor
  · apply List.pairwise_map.mpr
    refine List.Pairwise.imp_of_mem ?_ (pairwise_places distinct)
    intro one other oneVisited otherVisited differs same
    obtain ⟨oneNonempty, oneWritable, -⟩ := visit oneVisited
    obtain ⟨otherNonempty, otherWritable, -⟩ := visit otherVisited
    exact differs (render_injective (by decide) oneNonempty otherNonempty oneWritable
      otherWritable same)
  · intro query node nonempty found listed
    rw [read?, follow?_eq_bind_arrival?, Option.bind_eq_some_iff] at found
    obtain ⟨location, arrived, located⟩ := found
    obtain ⟨named, -⟩ := arrival?_eq_some_iff.mp arrived
    refine ⟨location, arrived, located, fun path => ⟨?_, ?_⟩⟩
    · rintro ⟨inPaths, pathArrived⟩
      obtain ⟨place, visited, rfl⟩ := List.mem_map.mp inPaths
      obtain ⟨-, -, placeArrived⟩ := visit visited
      exact congrArg render (Option.some.inj (placeArrived.symm.trans pathArrived))
    · rintro rfl
      have below : location ≠ [] := by
        rintro rfl
        exact nonempty (List.forall₂_nil_left_iff.mp named)
      have visited := (mem_places_iff distinct).mpr ⟨below, located, listed⟩
      refine ⟨List.mem_map.mpr ⟨(location, node), visited, rfl⟩, ?_⟩
      exact (visit visited).2.2

theorem path_of_stray_marks_and_leading_zeros :
    (Tree.object [("7", .array [none, some (.bool true)])]).everywhere hasDistinctKeys = true ∧
      (Tree.object [("7", .array [none, some (.bool true)])]).everywhere hasCountableSlots = true ∧
      (Tree.object [("7", .array [none, some (.bool true)])]).everywhere hasPlainKeys = true ∧
      tokens "[7]..001]" ≠ [] ∧
      (Tree.object [("7", .array [none, some (.bool true)])]).read? "[7]..001]" =
        some (.bool true) ∧
      (Tree.bool true).isListed false = true ∧
      ∀ path, path ∈ (Tree.object [("7", .array [none, some (.bool true)])]).paths false ∧
        (Tree.object [("7", .array [none, some (.bool true)])]).arrival? (tokens path) =
          some [.member "7", .element 1] ↔ path = "7[1]" := by
  have distinct : (Tree.object [("7", .array [none, some (.bool true)])]).everywhere
      hasDistinctKeys = true := by decide
  have countable : (Tree.object [("7", .array [none, some (.bool true)])]).everywhere
      hasCountableSlots = true := by decide
  have plain : (Tree.object [("7", .array [none, some (.bool true)])]).everywhere
      hasPlainKeys = true := by decide
  have words : tokens "[7]..001]" = [.index 7 "7", .index 1 "001"] := by decide
  have found : (Tree.object [("7", .array [none, some (.bool true)])]).read? "[7]..001]" =
      some (.bool true) := by
    rw [read?, words]
    rfl
  have named : tokens "[7]..001]" ≠ [] := by simp [words]
  obtain ⟨-, addressed⟩ := mem_paths_and_arrival?_eq_iff distinct countable plain false
  obtain ⟨location, arrived, -, unique⟩ := addressed "[7]..001]" (.bool true) named found rfl
  have reached : (Tree.object [("7", .array [none, some (.bool true)])]).arrival?
      (tokens "[7]..001]") = some [.member "7", .element 1] := by
    rw [words]
    rfl
  obtain rfl := Option.some.inj (arrived.symm.trans reached)
  have text : render [.member "7", .element 1] = "7[1]" := by decide
  rw [text] at unique
  exact ⟨distinct, countable, plain, named, found, rfl, unique⟩

end TreePath.Tree
