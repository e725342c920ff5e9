import TreePath.Proofs.Tree.Addressable
import TreePath.Validation.Rule

set_option autoImplicit false

/-!
# What is reported on a tree

The fields of a tree are found by their paths, each looked up anew. Where all listed paths lead
back, every validator is shown the node of every entry, and the reports are on the entries in their
order.
-/

namespace TreePath

/-- An entry as validators see it. -/
def Field.ofEntry (root : Tree) (entry : Entry) : Field :=
  ⟨entry.1, some entry.2, root⟩

namespace Tree.IsAddressable

/-- The path of an entry leads back to its node. -/
theorem read?_of_mem_entries {nulls : Bool} {tree : Tree} {entry : Entry}
    (addressable : tree.IsAddressable) (listed : entry ∈ tree.entries nulls) :
    tree.read? entry.1 = some entry.2 := by
  rw [entries_eq_map_places] at listed
  obtain ⟨place, visited, rfl⟩ := List.mem_map.mp listed
  obtain ⟨-, located, -⟩ := (mem_places_iff addressable.distinct).mp visited
  exact addressable.read?_render located

end Tree.IsAddressable

namespace Service

variable {service : Service} {root : Tree} {field : Field} {validator : Validator}

/-- An objection bears the name of the validator, the path of the field and the message. -/
theorem objection?_eq_some_iff {violation : Violation} :
    objection? field validator = some violation ↔
      ∃ message, validator.check field = .error message ∧
        violation = ⟨validator.name, field.path, message⟩ := by
  rw [objection?]
  cases validator.check field <;> simp [eq_comm]

theorem objection?_eq_none_iff :
    objection? field validator = none ↔ validator.check field = .ok () := by
  rw [objection?]
  cases validator.check field <;> simp

theorem filterMap_objection?_eq_nil_iff {validators : List Validator} :
    validators.filterMap (objection? field) = [] ↔
      ∀ validator ∈ validators, validator.check field = .ok () := by
  rw [List.filterMap_eq_nil_iff]
  simp only [objection?_eq_none_iff]

theorem fields_validate (addressable : root.IsAddressable) :
    (service.validate root).fields = (service.engine.entries root).map fun entry =>
      ⟨entry.1, service.validators.filterMap (objection? (.ofEntry root entry))⟩ := by
  simp only [validate, Engine.paths, Engine.entries, Tree.paths_eq_map_entries, List.map_map]
  apply List.map_congr_left
  intro entry listed
  have found := addressable.read?_of_mem_entries listed
  simp only [Function.comp_apply, validateField, Engine.read?, found]
  rfl

/-- Every validator is shown the node of every entry, and nothing else. There is one report on each
entry, in order, with what the failed checks of that node say, in the order of the validators. -/
theorem validate_reports_on_entries (addressable : root.IsAddressable) (service : Service) :
    (service.validate root).fields = (service.engine.entries root).map (fun entry =>
        ⟨entry.1, service.validators.filterMap (objection? (.ofEntry root entry))⟩) ∧
      ((service.validate root).fields.map FieldReport.path).Nodup ∧
      (∀ entry validator violation, objection? (.ofEntry root entry) validator = some violation ↔
        ∃ message, validator.check (.ofEntry root entry) = .error message ∧
          violation = ⟨validator.name, entry.1, message⟩) ∧
      (service.validate root).violations = (service.engine.entries root).flatMap (fun entry =>
        service.validators.filterMap (objection? (.ofEntry root entry))) ∧
      ((service.validate root).isValid = true ↔
        ∀ entry ∈ service.engine.entries root, ∀ validator ∈ service.validators,
          validator.check (.ofEntry root entry) = .ok ()) := by
  have reports := @fields_validate service root addressable
  refine ⟨reports, ?_, ?_, ?_, ?_⟩
  · have unique : (service.engine.paths root).Nodup := addressable.nodup_paths
    rw [Engine.paths, Tree.paths_eq_map_entries] at unique
    rw [reports, List.map_map]
    exact unique
  · intro entry validator violation
    exact objection?_eq_some_iff
  · rw [Report.violations, reports, List.flatMap_map]
  · rw [Report.isValid, reports, List.all_map, List.all_eq_true]
    simp only [Function.comp_apply, FieldReport.isValid, List.isEmpty_iff,
      filterMap_objection?_eq_nil_iff]

theorem violations_of_nested_elements :
    (Tree.object [("scores", .array [some (.int 1), none, some (.bool true)]), ("0", .null),
        ("total", .string "")]).IsAddressable ∧
      ((Service.mk .standard [(Rule.kind "scores[0]" "bool").validator, Rule.present.validator,
          (Rule.kind "scores[2]" "int").validator]).validate
        (.object [("scores", .array [some (.int 1), none, some (.bool true)]), ("0", .null),
          ("total", .string "")])).violations =
        [⟨"kind", "scores[0]", "expected bool, found int"⟩,
          ⟨"kind", "scores[2]", "expected int, found bool"⟩] := by
  have addressable : (Tree.object [("scores", .array [some (.int 1), none, some (.bool true)]),
      ("0", .null), ("total", .string "")]).IsAddressable := ⟨by decide, by decide, by decide⟩
  obtain ⟨-, -, -, violations, -⟩ := validate_reports_on_entries addressable
    ⟨.standard, [(Rule.kind "scores[0]" "bool").validator, Rule.present.validator,
      (Rule.kind "scores[2]" "int").validator]⟩
  refine ⟨addressable, ?_⟩
  rw [violations]
  decide

end Service

end TreePath
