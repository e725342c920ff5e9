import TreePath.Tree.Listing

set_option autoImplicit false

/-!
# What a walk finds

A walk comes back to the node it started from, and its text holds the path of that node again. So
it finds what is collected where each child is handed a path of its own.
-/

namespace TreePath

namespace Step

theorem upTo_extend (path : String) (step : Step) :
    Text.upTo (step.extend path) (Text.byteLength path.toList) = path := by
  obtain ⟨after, extended⟩ := exists_extend_eq_append path step
  rw [extended, Text.upTo_append]

end Step

namespace Tree

mutual

/-- Puts the entries below the node at `path` in front of `found`, the last entry foremost. -/
def collect (nulls : Bool) (path : String) : Tree → List Entry → List Entry
  | object members, found => collectMembers nulls path members found
  | array slots, found => collectSlots nulls path 0 slots found
  | _, found => found
termination_by structural tree => tree

def collectMembers (nulls : Bool) (path : String) :
    List (String × Tree) → List Entry → List Entry
  | [], found => found
  | (key, child) :: rest, found =>
      if child.isListed nulls then
        let location := (Step.member key).extend path
        collectMembers nulls path rest ((location, child) :: collect nulls location child found)
      else
        collectMembers nulls path rest found
termination_by structural members => members

def collectSlots (nulls : Bool) (path : String) (index : Nat) :
    List (Option Tree) → List Entry → List Entry
  | [], found => found
  | none :: rest, found => collectSlots nulls path (index + 1) rest found
  | some child :: rest, found =>
      if child.isListed nulls then
        let location := (Step.element index).extend path
        collectSlots nulls path (index + 1) rest
          ((location, child) :: collect nulls location child found)
      else
        collectSlots nulls path (index + 1) rest found
termination_by structural slots => slots

end

end Tree

variable {Found : Type} (emit : String → Tree → Found → Found) (start : Found)

/-- The walk that is at the node at `path` and has passed entries, the last entry foremost. -/
def Walk.past (path : String) (entries : List Entry) : Walk Found :=
  ⟨path, entries.foldr (fun entry => emit entry.1 entry.2) start⟩

/-- If a walk is back at a child when it is through below it, then it is back at the node when it is
through with the child. -/
theorem Walk.visit_past {below : Walk Found → Walk Found} {path : String} {step : Step}
    {entries later : List Entry}
    (restored : below (past emit start (step.extend path) entries) =
      past emit start (step.extend path) later) (child : Tree) :
    (past emit start path entries).visit emit step child below =
      past emit start path ((step.extend path, child) :: later) := by
  have entered : (past emit start path entries).enter step =
      past emit start (step.extend path) entries := rfl
  rw [visit, entered, restored]
  simp only [report, leave, past, Step.upTo_extend, List.foldr_cons]

namespace Tree

/-- A walk below the node at a path is at that path again in the end, and passes the entries that
are collected there. -/
theorem walk_past (nulls : Bool) (tree : Tree) (path : String) (entries : List Entry) :
    tree.walk nulls emit (.past emit start path entries) =
      .past emit start path (tree.collect nulls path entries) := by
  induction tree using Tree.induct generalizing path entries with
  | object members inductionHypothesis =>
      simp only [walk, collect]
      -- Every child is left at the path it was entered from, so the next one starts there too.
      induction members generalizing entries with
      | nil => rfl
      | cons entry rest restHypothesis =>
          obtain ⟨key, child⟩ := entry
          have below := inductionHypothesis (key, child) List.mem_cons_self
            ((Step.member key).extend path) entries
          have later := restHypothesis fun entry membership =>
            inductionHypothesis entry (List.mem_cons_of_mem _ membership)
          simp only [walkMembers, collectMembers]
          split
          · rw [Walk.visit_past emit start below child, later]
          · exact later entries
  | array slots inductionHypothesis =>
      simp only [walk, collect]
      generalize 0 = index
      induction slots generalizing index entries with
      | nil => rfl
      | cons slot rest restHypothesis =>
          have later := restHypothesis fun child membership =>
            inductionHypothesis child (List.mem_cons_of_mem _ membership)
          cases slot with
          | none => exact later entries (index + 1)
          | some child =>
              have below := inductionHypothesis child List.mem_cons_self
                ((Step.element index).extend path) entries
              simp only [walkSlots, collectSlots]
              split
              · rw [Walk.visit_past emit start below child, later]
              · exact later entries (index + 1)
  | _ => rfl

/-- A walk adds to what it has found the entries that are collected below the node it is at, and
comes back to that node. -/
theorem walk_eq_collect (nulls : Bool) (tree : Tree) (here : Walk Found) :
    tree.walk nulls emit here =
      ⟨here.path,
        (tree.collect nulls here.path []).foldr (fun entry => emit entry.1 entry.2) here.found⟩ :=
  walk_past emit here.found nulls tree here.path []

@[simp] theorem path_walk (nulls : Bool) (tree : Tree) (here : Walk Found) :
    (tree.walk nulls emit here).path = here.path := by
  rw [walk_eq_collect]

theorem entries_eq_reverse_collect (nulls : Bool) (tree : Tree) :
    tree.entries nulls = (tree.collect nulls "" []).reverse := by
  rw [entries, walk_eq_collect]
  exact congrArg List.reverse List.foldr_cons_nil

/-- The listed paths are those of the entries. -/
theorem paths_eq_map_entries (nulls : Bool) (tree : Tree) :
    tree.paths nulls = (tree.entries nulls).map Prod.fst := by
  rw [paths, walk_eq_collect, entries_eq_reverse_collect, List.map_reverse, List.map_eq_foldr]

end Tree

end TreePath
