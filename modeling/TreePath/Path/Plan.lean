import TreePath.Path.Error
import TreePath.Path.Step

set_option autoImplicit false

/-!
The strict reading of a path, for storing: every mark must stand where the grammar

    path  =  ( "."* key | "[" index "]" )  ( "."+ key | "[" index "]" )*

allows it. The result is a plan: the containers to pass through, each with the kind that the
next step needs and the byte offset at which its own path ends, and the step that the value is
stored under.
-/

namespace TreePath

/-- A container on the way to the target. `stop` is the byte offset in the path at which the
text of this step ends. -/
structure Stage where
  step : Step
  kind : ContainerKind
  stop : Nat
  deriving DecidableEq

structure Plan where
  stages : List Stage
  target : Step
  deriving DecidableEq

namespace Plan

/-- The location that the plan stores at. -/
def steps (plan : Plan) : List Step :=
  plan.stages.map Stage.step ++ [plan.target]

def via (stage : Stage) (plan : Plan) : Plan :=
  { plan with stages := stage :: plan.stages }

/-- Passes through the member named by a word. No word, as between two dots, is no step. -/
def viaWord (word : List Char) (kind : ContainerKind) (stop : Nat) (plan : Plan) : Plan :=
  if word.isEmpty then plan else plan.via ⟨.member (String.ofList word), kind, stop⟩

@[simp] theorem steps_via (stage : Stage) (plan : Plan) :
    (plan.via stage).steps = stage.step :: plan.steps := rfl

open TreePath.Path TreePath.Text

mutual

/-- Reads on where a key may stand: `word` begins at byte `offset`, directly after a dot if
`afterDot` holds, and `rest` follows it. -/
def scanKey (limit : Nat) (afterDot : Bool) (offset : Nat) (word : List Char) :
    List (Mark × List Char) → Except Refusal Plan
  | [] =>
      if word.isEmpty then .error (.malformed offset .missingKey)
      else .ok ⟨[], .member (String.ofList word)⟩
  | (.dot, next) :: rest =>
      let stop := offset + byteLength word
      (scanKey limit true (stop + 1) next rest).map (viaWord word .object stop)
  | (.opening, next) :: rest =>
      let stop := offset + byteLength word
      if word.isEmpty && afterDot then .error (.malformed stop .openingAfterDot)
      else (scanIndex limit stop next rest).map (viaWord word .array stop)
  | (.closing, _) :: _ => .error (.malformed (offset + byteLength word) .unmatchedClosing)

/-- Reads on inside the index that byte `opening` opens: `word` is its text. -/
def scanIndex (limit : Nat) (opening : Nat) (word : List Char) :
    List (Mark × List Char) → Except Refusal Plan
  | [] => .error (.malformed (opening + 1 + byteLength word) .unterminatedIndex)
  | (.dot, _) :: _ => .error (.malformed (opening + 1 + byteLength word) .dotInsideIndex)
  | (.opening, _) :: _ => .error (.malformed (opening + 1 + byteLength word) .openingInsideIndex)
  | (.closing, next) :: rest =>
      match parseIndex? (String.ofList word) with
      | none => .error (.malformed (opening + 1) .invalidIndex)
      | some index =>
          if limit < index then .error (.indexLimit opening index limit)
          else
            let stop := opening + 1 + byteLength word + 1
            match next, rest with
            | [], [] => .ok ⟨[], .element index⟩
            | [], (.dot, later) :: more =>
                (scanKey limit false stop [] ((.dot, later) :: more)).map
                  (via ⟨.element index, .object, stop⟩)
            | [], (.opening, later) :: more =>
                (scanKey limit false stop [] ((.opening, later) :: more)).map
                  (via ⟨.element index, .array, stop⟩)
            | _, _ => .error (.malformed stop .missingMarkAfterIndex)

end

/-- The plan of a path whose indices may be at most `limit`. -/
def ofPath (limit : Nat) (path : String) : Except Refusal Plan :=
  match path.toList with
  | [] => .error .empty
  | text =>
      let pieces := Pieces.ofText text
      scanKey limit false 0 pieces.first pieces.rest

end Plan

end TreePath
