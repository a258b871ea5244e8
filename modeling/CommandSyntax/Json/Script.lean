import CommandSyntax.Json.Token
import CommandSyntax.Script

/-!
# CommandSyntax.Json.Script

Syntax trees as **JSON**.

A record of the tree is an object with its fields by name. A glob and a part say
by the name of their single member which of their forms they have; a glob
without content is a string. A word that is absent is null, and its member may
be left out.

Encoding follows the tree. Decoding follows the value: each record is read from
its fields, and any field that is missing or of the wrong form makes the whole
tree unreadable.
-/

namespace CommandSyntax

/-! ### Encoding -/

/-- A glob as JSON. -/
def Glob.toJson : Glob → Json
  | star => .string "star"
  | one => .string "one"
  | charset set => .object [("charset", .string set)]

mutual

/-- A part as JSON. -/
def Part.toJson : Part → Json
  | .literal text => .object [("literal", .string text)]
  | .parameter name => .object [("parameter", .string name)]
  | .glob pattern => .object [("glob", pattern.toJson)]
  | .substitution body => .object [("substitution", body.toJson)]

/-- The parts of a word as JSON. -/
def Part.listToJson : List Part → List Json
  | [] => []
  | part :: parts => part.toJson :: Part.listToJson parts

/-- A word as JSON. -/
def Word.toJson : Word → Json
  | ⟨parts, span⟩ =>
    .object [("parts", .array (Part.listToJson parts)), ("span", span.toJson)]

/-- A word that may be absent as JSON. -/
def Word.optionToJson : Option Word → Json
  | none => .null
  | some word => word.toJson

/-- The words of a command as JSON. -/
def Word.listToJson : List Word → List Json
  | [] => []
  | word :: words => word.toJson :: Word.listToJson words

/-- An assignment as JSON. -/
def Assignment.toJson : Assignment → Json
  | ⟨name, value, span⟩ =>
    .object [("name", .string name), ("value", Word.optionToJson value), ("span", span.toJson)]

/-- The assignments of a command as JSON. -/
def Assignment.listToJson : List Assignment → List Json
  | [] => []
  | assignment :: assignments => assignment.toJson :: Assignment.listToJson assignments

/-- A command as JSON. -/
def Command.toJson : Command → Json
  | ⟨assignments, arguments, input, output, append, span⟩ =>
    .object [("assignments", .array (Assignment.listToJson assignments)),
      ("arguments", .array (Word.listToJson arguments)),
      ("input_file", Word.optionToJson input),
      ("output_file", Word.optionToJson output),
      ("append_file", Word.optionToJson append),
      ("span", span.toJson)]

/-- The commands of a pipeline as JSON. -/
def Command.listToJson : List Command → List Json
  | [] => []
  | command :: commands => command.toJson :: Command.listToJson commands

/-- A pipeline as JSON. -/
def Pipeline.toJson : Pipeline → Json
  | ⟨commands, span⟩ =>
    .object [("commands", .array (Command.listToJson commands)), ("span", span.toJson)]

/-- A statement as JSON. -/
def Statement.toJson : Statement → Json
  | ⟨pipeline, background, span⟩ =>
    .object [("pipeline", pipeline.toJson), ("background", .bool background),
      ("span", span.toJson)]

/-- The statements of a script as JSON. -/
def Statement.listToJson : List Statement → List Json
  | [] => []
  | statement :: statements => statement.toJson :: Statement.listToJson statements

/-- A script as JSON. -/
def Script.toJson : Script → Json
  | ⟨statements, span⟩ =>
    .object [("statements", .array (Statement.listToJson statements)), ("span", span.toJson)]

end

/-! ### Decoding -/

/-- The fields of a word, in order. -/
def Word.layout : List String := ["parts", "span"]

/-- The fields of an assignment, in order. -/
def Assignment.layout : List String := ["name", "value", "span"]

/-- The fields of a command, in order. -/
def Command.layout : List String :=
  ["assignments", "arguments", "input_file", "output_file", "append_file", "span"]

/-- The fields of a pipeline, in order. -/
def Pipeline.layout : List String := ["commands", "span"]

/-- The fields of a statement, in order. -/
def Statement.layout : List String := ["pipeline", "background", "span"]

/-- The fields of a script, in order. -/
def Script.layout : List String := ["statements", "span"]

/-- The glob that a JSON value stands for. -/
def Glob.ofJson? (json : Json) : Option Glob :=
  match json.emptyForm?, json.form? with
  | some "star", _ => some .star
  | some "one", _ => some .one
  | _, some ("charset", set) => set.1.string?.map .charset
  | _, _ => none

mutual

/-- The part that a JSON value stands for. -/
def Part.ofJson? (json : Json) : Option Part :=
  match json.form? with
  | some ("literal", text) => text.1.string?.map .literal
  | some ("parameter", name) => name.1.string?.map .parameter
  | some ("glob", pattern) => (Glob.ofJson? pattern.1).map .glob
  | some ("substitution", body) => (Script.ofJson? body.1).map .substitution
  | _ => none
termination_by sizeOf json
decreasing_by exact body.2

/-- The word that a JSON value stands for. -/
def Word.ofJson? (json : Json) : Option Word := do
  let items ← (← json.field? Word.layout "parts").items?
  let parts ← items.mapM fun item => Part.ofJson? item.1
  let span ← Span.ofJson? (← json.field? Word.layout "span").1
  return ⟨parts, span⟩
termination_by sizeOf json
decreasing_by exact item.2

/-- The assignment that a JSON value stands for. -/
def Assignment.ofJson? (json : Json) : Option Assignment := do
  let name ← (← json.field? Assignment.layout "name").1.string?
  let value ← Json.optional? (fun item => Word.ofJson? item.1)
    (json.field? Assignment.layout "value")
  let span ← Span.ofJson? (← json.field? Assignment.layout "span").1
  return ⟨name, value, span⟩
termination_by sizeOf json
decreasing_by exact item.2

/-- The command that a JSON value stands for. -/
def Command.ofJson? (json : Json) : Option Command := do
  let items ← (← json.field? Command.layout "assignments").items?
  let assignments ← items.mapM fun item => Assignment.ofJson? item.1
  let items ← (← json.field? Command.layout "arguments").items?
  let arguments ← items.mapM fun item => Word.ofJson? item.1
  let input ← Json.optional? (fun item => Word.ofJson? item.1)
    (json.field? Command.layout "input_file")
  let output ← Json.optional? (fun item => Word.ofJson? item.1)
    (json.field? Command.layout "output_file")
  let append ← Json.optional? (fun item => Word.ofJson? item.1)
    (json.field? Command.layout "append_file")
  let span ← Span.ofJson? (← json.field? Command.layout "span").1
  return ⟨assignments, arguments, input, output, append, span⟩
termination_by sizeOf json
decreasing_by all_goals exact item.2

/-- The pipeline that a JSON value stands for. -/
def Pipeline.ofJson? (json : Json) : Option Pipeline := do
  let items ← (← json.field? Pipeline.layout "commands").items?
  let commands ← items.mapM fun item => Command.ofJson? item.1
  let span ← Span.ofJson? (← json.field? Pipeline.layout "span").1
  return ⟨commands, span⟩
termination_by sizeOf json
decreasing_by exact item.2

/-- The statement that a JSON value stands for. -/
def Statement.ofJson? (json : Json) : Option Statement := do
  let item ← json.field? Statement.layout "pipeline"
  let pipeline ← Pipeline.ofJson? item.1
  let background ← (← json.field? Statement.layout "background").1.bool?
  let span ← Span.ofJson? (← json.field? Statement.layout "span").1
  return ⟨pipeline, background, span⟩
termination_by sizeOf json
decreasing_by exact item.2

/-- The script that a JSON value stands for. -/
def Script.ofJson? (json : Json) : Option Script := do
  let items ← (← json.field? Script.layout "statements").items?
  let statements ← items.mapM fun item => Statement.ofJson? item.1
  let span ← Span.ofJson? (← json.field? Script.layout "span").1
  return ⟨statements, span⟩
termination_by sizeOf json
decreasing_by exact item.2

end

end CommandSyntax
