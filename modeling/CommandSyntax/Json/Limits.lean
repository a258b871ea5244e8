import CommandSyntax.Json
import CommandSyntax.Parse
import CommandSyntax.Validation

/-!
# CommandSyntax.Json.Limits

The limits of parsing and the rules of validation as **JSON**. They are records
in which every field may be left out, and then stands for its default.
-/

namespace CommandSyntax

/-- The value that a field of a record with some layout stands for: `default` when
the record leaves it out, and `none` when it cannot be read. -/
def Json.fieldD {α : Type} (layout : List String) (name : String) (json : Json) (default : α)
    (read : Json → Option α) : Option α := do
  match (← json.fields? layout).lookup name with
  | some value => read value.1
  | none => return default

namespace ParseLimits

/-- The fields of limits, in order. -/
def layout : List String := ["max_substitution_depth"]

/-- Limits as JSON. -/
def toJson (limits : ParseLimits) : Json :=
  .object [("max_substitution_depth", .integer limits.nesting)]

/-- The limits that a JSON value stands for. -/
def ofJson? (json : Json) : Option ParseLimits := do
  let usual : ParseLimits := {}
  let nesting ← json.fieldD layout "max_substitution_depth" usual.nesting Json.offset?
  return { nesting := nesting }

end ParseLimits

namespace Rules

/-- The fields of rules, in order. -/
def layout : List String :=
  ["max_substitution_depth", "allow_standalone_assignments", "allow_background"]

/-- Rules as JSON. -/
def toJson (rules : Rules) : Json :=
  .object [("max_substitution_depth", .integer rules.nesting),
    ("allow_standalone_assignments", .bool rules.standaloneAssignments),
    ("allow_background", .bool rules.background)]

/-- The rules that a JSON value stands for. -/
def ofJson? (json : Json) : Option Rules := do
  let usual : Rules := {}
  let nesting ← json.fieldD layout "max_substitution_depth" usual.nesting Json.offset?
  let standalone ← json.fieldD layout "allow_standalone_assignments"
    usual.standaloneAssignments Json.bool?
  let background ← json.fieldD layout "allow_background" usual.background Json.bool?
  return { nesting := nesting, standaloneAssignments := standalone, background := background }

end Rules

end CommandSyntax
