import TreePath.Engine.Document
import TreePath.Text.Quoted

set_option autoImplicit false

/-!
Checking the fields of a tree. A field is a path with the node found there; validators judge
fields one at a time, in a fixed order, and a service collects what they object to. What makes a
field good is up to the validators.
-/

namespace TreePath

/-- What a validator sees: the path of a field, the node at that path if there is one, and the
whole tree. -/
structure Field where
  path : String
  value : Option Tree
  root : Tree

/-- A named check, which objects with a message. -/
structure Validator where
  name : String
  check : Field → Except String Unit

structure Violation where
  validator : String
  path : String
  message : String
  deriving DecidableEq

/-- The objections to one field. -/
structure FieldReport where
  path : String
  violations : List Violation
  deriving DecidableEq

def FieldReport.isValid (report : FieldReport) : Bool :=
  report.violations.isEmpty

/-- The reports on all fields of a tree, in the order of their listing. -/
structure Report where
  fields : List FieldReport
  deriving DecidableEq

namespace Report

def isValid (report : Report) : Bool :=
  report.fields.all FieldReport.isValid

def violations (report : Report) : List Violation :=
  report.fields.flatMap FieldReport.violations

end Report

/-- An engine, which finds the fields, and the validators that judge them. -/
structure Service where
  engine : Engine := .standard
  validators : List Validator := []

namespace Service

def withValidator (service : Service) (validator : Validator) : Service :=
  { service with validators := service.validators ++ [validator] }

/-- What a validator objects to in a field. -/
def objection? (field : Field) (validator : Validator) : Option Violation :=
  match validator.check field with
  | .ok _ => none
  | .error message => some ⟨validator.name, field.path, message⟩

/-- Checks the field at a path. Every validator is asked, also where nothing is found. -/
def validateField (service : Service) (path : String) (root : Tree) : FieldReport :=
  ⟨path, service.validators.filterMap (objection? ⟨path, service.engine.read? path root, root⟩)⟩

/-- Checks the field at every path that the engine lists. -/
def validate (service : Service) (root : Tree) : Report :=
  ⟨(service.engine.paths root).map fun path => service.validateField path root⟩

/-- What a service consists of, in words. -/
def describe (service : Service) : String :=
  let config := service.engine.config
  let nulls := if config.enumerateNulls then "true" else "false"
  let names := service.validators.map fun validator => Text.quoted validator.name
  "ValidationService \x7b engine: PathEngine \x7b config: EngineConfig \x7b max_array_index: " ++
    toString config.maxArrayIndex ++ ", enumerate_nulls: " ++ nulls ++
    " \x7d \x7d, validators: [" ++ ", ".intercalate names ++ "] \x7d"

end Service

/-! ## Reports as documents -/

namespace Violation

def document (violation : Violation) : Json :=
  .object
    [ ("validator", .string violation.validator), ("path", .string violation.path),
      ("message", .string violation.message) ]

end Violation

namespace FieldReport

def document (report : FieldReport) : Json :=
  .object
    [ ("path", .string report.path),
      ("violations", .array (report.violations.map Violation.document)) ]

end FieldReport

namespace Report

def document (report : Report) : Json :=
  .object [("fields", .array (report.fields.map FieldReport.document))]

end Report

end TreePath
