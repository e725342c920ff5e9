import TreePath.Proofs.Engine.Order
import TreePath.Proofs.Tree.Addressable
import TreePath.Proofs.Tree.Conversion

set_option autoImplicit false

/-!
# What the order of members shows in

Trees that differ in the order of members are told apart by the order in which their paths are
listed, and by nothing else: looking up finds nodes that differ in the order of members again,
storing ends alike, the same paths are listed, and the JSON texts are equal.
-/

namespace TreePath

namespace Tree

open TreePath.Path

variable {nulls : Bool} {tree other : Tree} {location : List Step}

/-! ## Looking up -/

theorem rel_bind {First Second Third Fourth : Type} {first : First → Second → Prop}
    {second : Third → Fourth → Prop} {found : Option First} {other : Option Second}
    {next : First → Option Third} {otherNext : Second → Option Fourth}
    (alike : Option.Rel first found other)
    (continued : ∀ one another, first one another →
      Option.Rel second (next one) (otherNext another)) :
    Option.Rel second (found.bind next) (other.bind otherNext) := by
  cases alike with
  | none => exact .none
  | some both => exact continued _ _ both

namespace SameSurface

theorem stepFor?_eq (same : SameSurface tree other) (token : Token) :
    tree.stepFor? token = other.stepFor? token := by
  cases same <;> rfl

theorem isListed_eq (same : SameSurface tree other) (nulls : Bool) :
    tree.isListed nulls = other.isListed nulls := by
  cases same <;> rfl

theorem isAbsent_eq (same : SameSurface tree other) : tree.isAbsent = other.isAbsent := by
  cases same <;> rfl

theorem hasDistinctKeys_eq (same : SameSurface tree other) :
    tree.hasDistinctKeys = other.hasDistinctKeys := by
  cases same with
  | object keys =>
      rw [Bool.eq_iff_iff, hasDistinctKeys_object_iff, hasDistinctKeys_object_iff]
      exact keys.nodup_iff
  | _ => rfl

end SameSurface

namespace Reordered

theorem rel_child? (same : Reordered tree other) (token : Token) :
    Option.Rel Reordered (tree.child? token) (other.child? token) := by
  rw [child?_eq_bind_stepFor?, child?_eq_bind_stepFor?, same.surface.stepFor?_eq token]
  cases other.stepFor? token with
  | none => exact .none
  | some step => exact same.rel_at? step

theorem rel_follow? (same : Reordered tree other) (tokens : List Token) :
    Option.Rel Reordered (tree.follow? tokens) (other.follow? tokens) := by
  induction tokens generalizing tree other with
  | nil => exact .some same
  | cons token rest inductionHypothesis =>
      rw [follow?_cons, follow?_cons]
      apply rel_bind (same.rel_child? token)
      intro child otherChild children
      exact inductionHypothesis children

theorem rel_locate? (same : Reordered tree other) (location : List Step) :
    Option.Rel Reordered (tree.locate? location) (other.locate? location) := by
  induction location generalizing tree other with
  | nil => exact .some same
  | cons step rest inductionHypothesis =>
      rw [locate?_cons, locate?_cons]
      apply rel_bind (same.rel_at? step)
      intro child otherChild children
      exact inductionHypothesis children

/-- A check that does not look below a node, nor at the order of members, is passed everywhere
again. -/
theorem everywhere {check : Tree → Bool}
    (alike : ∀ node otherNode, SameSurface node otherNode → check node = check otherNode)
    (same : Reordered tree other) (distinct : tree.everywhere hasDistinctKeys = true)
    (passed : tree.everywhere check = true) : other.everywhere check = true := by
  induction same with
  | @node tree other surface below inductionHypothesis =>
      have here := (everywhere_iff.mp distinct).1
      have otherHere : other.hasDistinctKeys = true := surface.hasDistinctKeys_eq.symm.trans here
      refine everywhere_iff.mpr
        ⟨(alike tree other surface).symm.trans (everywhere_iff.mp passed).1, ?_⟩
      intro step otherChild membership
      have otherFound := at?_of_mem_children otherHere membership
      have reached := surface.isSome_at? step
      rw [otherFound, Option.isSome_some, Option.isSome_iff_exists] at reached
      obtain ⟨child, found⟩ := reached
      have listed := mem_children_of_at?_eq_some found
      exact inductionHypothesis step child otherChild found otherFound
        (everywhere_child distinct listed) (everywhere_child passed listed)

theorem everywhere_hasDistinctKeys (same : Reordered tree other)
    (distinct : tree.everywhere hasDistinctKeys = true) :
    other.everywhere hasDistinctKeys = true :=
  same.everywhere (fun _ _ surface => surface.hasDistinctKeys_eq) distinct distinct

/-! ## Listing -/

theorem lists (same : Reordered tree other) (listed : tree.Lists nulls location) :
    other.Lists nulls location := by
  obtain ⟨below, node, located, nodeListed⟩ := listed
  have nodes := same.rel_locate? location
  rw [located] at nodes
  generalize otherLocated : other.locate? location = found at nodes
  cases nodes with
  | some alike =>
      have otherListed := (alike.surface.isListed_eq nulls).symm.trans nodeListed
      exact ⟨below, _, otherLocated, otherListed⟩

end Reordered

/-! ## Conversion -/

theorem Reordered.convertAlike (same : Reordered tree other)
    (distinct : tree.everywhere hasDistinctKeys = true) : ConvertAlike tree other := by
  induction same with
  | @node tree other surface below inductionHypothesis =>
      have children (step : Step) :
          Option.Rel ConvertAlike (tree.at? step) (other.at? step) := by
        have both := (Reordered.node surface below).rel_at? step
        generalize found : tree.at? step = member at both
        generalize otherFound : other.at? step = otherMember at both
        cases both with
        | none => exact .none
        | @some child otherChild alike =>
            exact .some (inductionHypothesis step child otherChild found otherFound
              (everywhere_child distinct (mem_children_of_at?_eq_some found)))
      refine ⟨surface.isAbsent_eq, ?_⟩
      cases surface with
      | leaf => rfl
      | object keys =>
          have here := hasDistinctKeys_object_iff.mp (everywhere_iff.mp distinct).1
          exact toJson_object_eq_of_rel here (keys.nodup_iff.mp here) fun key =>
            children (.member key)
      | array shape =>
          exact toJson_array_eq_of_rel (by simpa using congrArg List.length shape) fun index =>
            children (.element index)

end Tree

namespace Engine

open TreePath.Tree

variable {tree other : Tree}

/-- Trees that differ in the order of members cannot be told apart but by the order in which their
paths are listed. -/
theorem read?_write_paths_compact_of_reordered (engine : Engine) (same : Reordered tree other)
    (distinct : tree.everywhere hasDistinctKeys = true) :
    (∀ path, Option.Rel Reordered (engine.read? path tree) (engine.read? path other)) ∧
      (∀ path value,
        (engine.write path value tree).outcome = (engine.write path value other).outcome ∧
          Reordered (engine.write path value tree).tree (engine.write path value other).tree) ∧
      (engine.paths tree).Perm (engine.paths other) ∧ tree.compact = other.compact := by
  refine ⟨?_, write_of_reordered same, ?_, ?_⟩
  · intro path
    exact same.rel_follow? (Path.tokens path)
  · apply paths_perm_of_lists_iff distinct (same.everywhere_hasDistinctKeys distinct)
    intro location
    exact ⟨same.lists, same.symm.lists⟩
  · rw [compact, compact, (same.convertAlike distinct).toJson_eq]

theorem read?_write_paths_compact_of_two_orders :
    Reordered
        (object [("l", .array [none, some (object [("x", .null), ("y", .bool true)])]),
          ("k", .string "")])
        (object [("k", .string ""),
          ("l", .array [none, some (object [("y", .bool true), ("x", .null)])])]) ∧
      (object [("l", .array [none, some (object [("x", .null), ("y", .bool true)])]),
        ("k", .string "")]).everywhere hasDistinctKeys = true ∧
      Option.Rel Reordered (some (object [("x", .null), ("y", .bool true)]))
        (some (object [("y", .bool true), ("x", .null)])) ∧
      (standard.write "l[1].x.z" .null (object [("k", .string ""),
        ("l", .array [none, some (object [("y", .bool true), ("x", .null)])])])).outcome =
          .error (.conflict "l[1].x" .object .null) ∧
      ["l[1].y", "l[1]", "l", "k"].Perm ["k", "l[1].y", "l[1]", "l"] ∧
      (object [("l", .array [none, some (object [("x", .null), ("y", .bool true)])]),
          ("k", .string "")]).compact =
        (object [("k", .string ""),
          ("l", .array [none, some (object [("y", .bool true), ("x", .null)])])]).compact := by
  have inner : Reordered (object [("x", .null), ("y", .bool true)])
      (object [("y", .bool true), ("x", .null)]) :=
    (reordered_object_iff (by decide) (by decide)).mpr
      ⟨_, .swap _ _ [], .cons ⟨rfl, .refl _⟩ (.cons ⟨rfl, .refl _⟩ .nil)⟩
  have outer : Reordered
      (object [("l", .array [none, some (object [("x", .null), ("y", .bool true)])]),
        ("k", .string "")])
      (object [("k", .string ""),
        ("l", .array [none, some (object [("y", .bool true), ("x", .null)])])]) := by
    apply (reordered_object_iff (by decide) (by decide)).mpr
    refine ⟨_, .swap _ _ [], .cons ⟨rfl, ?_⟩ (.cons ⟨rfl, .refl _⟩ .nil)⟩
    exact reordered_array_iff.mpr (.cons .none (.cons (.some inner) .nil))
  have distinct : (object [("l", .array [none, some (object [("x", .null), ("y", .bool true)])]),
      ("k", .string "")]).everywhere hasDistinctKeys = true := by decide
  obtain ⟨reads, writes, listed, text⟩ :=
    read?_write_paths_compact_of_reordered standard outer distinct
  refine ⟨outer, distinct, ?_, ?_, listed, text⟩
  · have found := reads "l[1]"
    have words : Path.tokens "l[1]" = [.key "l", .index 1 "1"] := by decide
    simp only [read?, Tree.read?, words] at found
    exact found
  · rw [← (writes "l[1].x.z" .null).1]
    have planned : Plan.ofPath standard.config.maxArrayIndex "l[1].x.z" =
        .ok ⟨[⟨.member "l", .array, 1⟩, ⟨.element 1, .object, 4⟩, ⟨.member "x", .object, 6⟩],
          .member "z"⟩ :=
      Plan.ofPath_eq_ok_iff.mpr ⟨.key 0 ['l'], [.index ['1'], .key 1 ['x'], .key 1 ['z']],
        by decide, by decide, by decide⟩
    rw [write_eq_assign planned]
    rfl

end Engine

end TreePath
