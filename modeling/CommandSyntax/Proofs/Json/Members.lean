import CommandSyntax.Json.Script

/-!
# CommandSyntax.Proofs.Json.Members

**Reading an object by its members.** A decoder takes values out of other ones together with the
proof that they are smaller. What it reads does not depend on these proofs: a field of an object is
read from the member of its name (`Json.field?_bind`), and the items of an array one after the other
(`Json.items?_bind`). For each record this gives the equation of its decoder on objects, next to the
object that it is encoded as.
-/

namespace CommandSyntax

namespace Json

variable {α β : Type}

/-! ### Values without their proofs -/

/-- What the items of an array stand for. -/
def list? (read : Json → Option α) : Json → Option (List α)
  | array items => items.mapM read
  | _ => none

/-- What a value that may be null stands for. -/
def nullable? (read : Json → Option α) (json : Json) : Option (Option α) :=
  if json.isNull then some none else (read json).map some

theorem lookup_map_snd (f : α → β) (name : String) (members : List (String × α)) :
    (members.map fun member => (member.1, f member.2)).lookup name =
      (members.lookup name).map f := by
  induction members with
  | nil => rfl
  | cons member members ih =>
    rw [List.map_cons, List.lookup_cons, List.lookup_cons, ih]
    cases name == member.1 <;> rfl

/-- A field of an object is the member of its name. -/
theorem map_val_field? (layout : List String) (name : String) (members : List (String × Json)) :
    ((object members).field? layout name).map Subtype.val = members.lookup name := by
  show (List.lookup name _).map Subtype.val = _
  rw [← lookup_map_snd, List.map_map]
  conv => rhs; rw [← List.attach_map_subtype_val members]
  rfl

theorem field?_bind (layout : List String) (name : String) (members : List (String × Json))
    (read : Json → Option α) :
    (((object members).field? layout name).bind fun item => read item.1) =
      (members.lookup name).bind read := by
  rw [← map_val_field? layout, Option.bind_map]
  rfl

theorem items?_bind {whole : Json} (value : whole.Inside) (read : Json → Option α) :
    (value.items?.bind fun items => items.mapM fun item => read item.1) =
      list? read value.1 := by
  obtain ⟨json, hjson⟩ := value
  cases json with
  | array items =>
    show (List.map _ (List.map _ items.attach)).mapM _ = items.mapM read
    rw [List.map_map, List.mapM_map]
    conv => rhs; rw [← List.attach_map_subtype_val items, List.mapM_map]
    rfl
  | _ => rfl

theorem field?_bind_list? (layout : List String) (name : String) (members : List (String × Json))
    (read : Json → Option α) (next : List α → Option β) :
    (((object members).field? layout name).bind fun item => item.items?.bind fun items =>
      (items.mapM fun item => read item.1).bind next) =
      ((members.lookup name).bind (list? read)).bind next := by
  rw [← field?_bind layout, Option.bind_assoc]
  congr 1
  funext item
  rw [← items?_bind, Option.bind_assoc]

theorem optional?_field? (layout : List String) (name : String) (members : List (String × Json))
    (read : Json → Option α) :
    optional? (fun item => read item.1) ((object members).field? layout name) =
      (members.lookup name).elim (some none) (nullable? read) := by
  rw [← map_val_field? layout]
  cases (object members).field? layout name <;> rfl

end Json

/-! ### Encoded records -/

theorem Part.listToJson_eq (parts : List Part) :
    Part.listToJson parts = parts.map Part.toJson := by
  induction parts with
  | nil => rfl
  | cons part parts ih => rw [Part.listToJson, ih, List.map_cons]

theorem Word.listToJson_eq (words : List Word) :
    Word.listToJson words = words.map Word.toJson := by
  induction words with
  | nil => rfl
  | cons word words ih => rw [Word.listToJson, ih, List.map_cons]

theorem Assignment.listToJson_eq (assignments : List Assignment) :
    Assignment.listToJson assignments = assignments.map Assignment.toJson := by
  induction assignments with
  | nil => rfl
  | cons assignment assignments ih => rw [Assignment.listToJson, ih, List.map_cons]

theorem Command.listToJson_eq (commands : List Command) :
    Command.listToJson commands = commands.map Command.toJson := by
  induction commands with
  | nil => rfl
  | cons command commands ih => rw [Command.listToJson, ih, List.map_cons]

theorem Statement.listToJson_eq (statements : List Statement) :
    Statement.listToJson statements = statements.map Statement.toJson := by
  induction statements with
  | nil => rfl
  | cons statement statements ih => rw [Statement.listToJson, ih, List.map_cons]

theorem Word.optionToJson_eq (word : Option Word) :
    Word.optionToJson word = word.elim .null Word.toJson := by
  cases word <;> rfl

theorem Word.toJson_eq (word : Word) : word.toJson =
    .object [("parts", .array (word.parts.map Part.toJson)), ("span", word.span.toJson)] := by
  cases word
  rw [Word.toJson, Part.listToJson_eq]

theorem Assignment.toJson_eq (assignment : Assignment) : assignment.toJson =
    .object [("name", .string assignment.name),
      ("value", assignment.value.elim .null Word.toJson), ("span", assignment.span.toJson)] := by
  cases assignment
  rw [Assignment.toJson, Word.optionToJson_eq]

theorem Command.toJson_eq (command : Command) : command.toJson =
    .object [("assignments", .array (command.assignments.map Assignment.toJson)),
      ("arguments", .array (command.arguments.map Word.toJson)),
      ("input_file", command.input.elim .null Word.toJson),
      ("output_file", command.output.elim .null Word.toJson),
      ("append_file", command.append.elim .null Word.toJson),
      ("span", command.span.toJson)] := by
  cases command
  simp only [Command.toJson, Assignment.listToJson_eq, Word.listToJson_eq, Word.optionToJson_eq]

theorem Pipeline.toJson_eq (pipeline : Pipeline) : pipeline.toJson =
    .object [("commands", .array (pipeline.commands.map Command.toJson)),
      ("span", pipeline.span.toJson)] := by
  cases pipeline
  rw [Pipeline.toJson, Command.listToJson_eq]

theorem Statement.toJson_eq (statement : Statement) : statement.toJson =
    .object [("pipeline", statement.pipeline.toJson), ("background", .bool statement.background),
      ("span", statement.span.toJson)] := by
  cases statement
  rw [Statement.toJson]

theorem Script.toJson_eq (script : Script) : script.toJson =
    .object [("statements", .array (script.statements.map Statement.toJson)),
      ("span", script.span.toJson)] := by
  cases script
  rw [Script.toJson, Statement.listToJson_eq]

/-! ### Decoded records -/

open Json

variable (members : List (String × Json))

theorem Span.ofJson?_object : Span.ofJson? (.object members) = do
    let start ← (members.lookup "start").bind offset?
    let stop ← (members.lookup "end").bind offset?
    return ⟨start, stop⟩ := by
  simp only [Span.ofJson?, ← field?_bind Span.layout, Option.bind_eq_bind, Option.bind_assoc]

theorem Word.ofJson?_object : Word.ofJson? (.object members) = do
    let parts ← (members.lookup "parts").bind (list? Part.ofJson?)
    let span ← (members.lookup "span").bind Span.ofJson?
    return ⟨parts, span⟩ := by
  simp only [Word.ofJson?, Option.bind_eq_bind, field?_bind_list?, ← field?_bind Word.layout,
    Option.bind_assoc]

theorem Assignment.ofJson?_object : Assignment.ofJson? (.object members) = do
    let name ← (members.lookup "name").bind string?
    let value ← (members.lookup "value").elim (some none) (nullable? Word.ofJson?)
    let span ← (members.lookup "span").bind Span.ofJson?
    return ⟨name, value, span⟩ := by
  simp only [Assignment.ofJson?, Option.bind_eq_bind, optional?_field?,
    ← field?_bind Assignment.layout, Option.bind_assoc]

theorem Command.ofJson?_object : Command.ofJson? (.object members) = do
    let assignments ← (members.lookup "assignments").bind (list? Assignment.ofJson?)
    let arguments ← (members.lookup "arguments").bind (list? Word.ofJson?)
    let input ← (members.lookup "input_file").elim (some none) (nullable? Word.ofJson?)
    let output ← (members.lookup "output_file").elim (some none) (nullable? Word.ofJson?)
    let append ← (members.lookup "append_file").elim (some none) (nullable? Word.ofJson?)
    let span ← (members.lookup "span").bind Span.ofJson?
    return ⟨assignments, arguments, input, output, append, span⟩ := by
  simp only [Command.ofJson?, Option.bind_eq_bind, field?_bind_list?, optional?_field?,
    ← field?_bind Command.layout, Option.bind_assoc]

theorem Pipeline.ofJson?_object : Pipeline.ofJson? (.object members) = do
    let commands ← (members.lookup "commands").bind (list? Command.ofJson?)
    let span ← (members.lookup "span").bind Span.ofJson?
    return ⟨commands, span⟩ := by
  simp only [Pipeline.ofJson?, Option.bind_eq_bind, field?_bind_list?,
    ← field?_bind Pipeline.layout, Option.bind_assoc]

theorem Statement.ofJson?_object : Statement.ofJson? (.object members) = do
    let pipeline ← (members.lookup "pipeline").bind Pipeline.ofJson?
    let background ← (members.lookup "background").bind bool?
    let span ← (members.lookup "span").bind Span.ofJson?
    return ⟨pipeline, background, span⟩ := by
  simp only [Statement.ofJson?, Option.bind_eq_bind, ← field?_bind Statement.layout,
    Option.bind_assoc]

theorem Script.ofJson?_object : Script.ofJson? (.object members) = do
    let statements ← (members.lookup "statements").bind (list? Statement.ofJson?)
    let span ← (members.lookup "span").bind Span.ofJson?
    return ⟨statements, span⟩ := by
  simp only [Script.ofJson?, Option.bind_eq_bind, field?_bind_list?, ← field?_bind Script.layout,
    Option.bind_assoc]

end CommandSyntax
