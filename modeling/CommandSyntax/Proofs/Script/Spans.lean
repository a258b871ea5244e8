import CommandSyntax.Script

/-!
# CommandSyntax.Proofs.Script.Spans

**Trees with other spans.** `mapSpans` puts another span in the place of each one and
leaves everything else of a tree as it is. Trees are alike up to spans when they are
the same once all their spans are erased (`eraseSpan`).
-/

namespace CommandSyntax

/-! ### Replacing spans -/

mutual

/-- A part with other spans. -/
def Part.mapSpans (f : Span → Span) : Part → Part
  | .literal text => .literal text
  | .parameter name => .parameter name
  | .glob pattern => .glob pattern
  | .substitution body => .substitution (body.mapSpans f)

/-- The parts of a word with other spans. -/
def Part.listMapSpans (f : Span → Span) : List Part → List Part
  | [] => []
  | part :: parts => part.mapSpans f :: Part.listMapSpans f parts

/-- A word with other spans. -/
def Word.mapSpans (f : Span → Span) : Word → Word
  | ⟨parts, span⟩ => ⟨Part.listMapSpans f parts, f span⟩

/-- A word that may be absent, with other spans. -/
def Word.optionMapSpans (f : Span → Span) : Option Word → Option Word
  | none => none
  | some word => some (word.mapSpans f)

/-- The words of a command with other spans. -/
def Word.listMapSpans (f : Span → Span) : List Word → List Word
  | [] => []
  | word :: words => word.mapSpans f :: Word.listMapSpans f words

/-- An assignment with other spans. -/
def Assignment.mapSpans (f : Span → Span) : Assignment → Assignment
  | ⟨name, value, span⟩ => ⟨name, Word.optionMapSpans f value, f span⟩

/-- The assignments of a command with other spans. -/
def Assignment.listMapSpans (f : Span → Span) : List Assignment → List Assignment
  | [] => []
  | assignment :: assignments =>
    assignment.mapSpans f :: Assignment.listMapSpans f assignments

/-- A command with other spans. -/
def Command.mapSpans (f : Span → Span) : Command → Command
  | ⟨assignments, arguments, input, output, append, span⟩ =>
    ⟨Assignment.listMapSpans f assignments, Word.listMapSpans f arguments,
      Word.optionMapSpans f input, Word.optionMapSpans f output, Word.optionMapSpans f append,
      f span⟩

/-- The commands of a pipeline with other spans. -/
def Command.listMapSpans (f : Span → Span) : List Command → List Command
  | [] => []
  | command :: commands => command.mapSpans f :: Command.listMapSpans f commands

/-- A pipeline with other spans. -/
def Pipeline.mapSpans (f : Span → Span) : Pipeline → Pipeline
  | ⟨commands, span⟩ => ⟨Command.listMapSpans f commands, f span⟩

/-- A statement with other spans. -/
def Statement.mapSpans (f : Span → Span) : Statement → Statement
  | ⟨pipeline, background, span⟩ => ⟨pipeline.mapSpans f, background, f span⟩

/-- The statements of a script with other spans. -/
def Statement.listMapSpans (f : Span → Span) : List Statement → List Statement
  | [] => []
  | statement :: statements => statement.mapSpans f :: Statement.listMapSpans f statements

/-- A script with other spans. -/
def Script.mapSpans (f : Span → Span) : Script → Script
  | ⟨statements, span⟩ => ⟨Statement.listMapSpans f statements, f span⟩

end

/-! ### Lists and options -/

variable (f : Span → Span)

@[simp] theorem Part.listMapSpans_eq (parts : List Part) :
    Part.listMapSpans f parts = parts.map (Part.mapSpans f) := by
  induction parts with
  | nil => rfl
  | cons part parts ih => simp [Part.listMapSpans, ih]

@[simp] theorem Word.optionMapSpans_eq (word : Option Word) :
    Word.optionMapSpans f word = word.map (Word.mapSpans f) := by
  cases word <;> rfl

@[simp] theorem Word.listMapSpans_eq (words : List Word) :
    Word.listMapSpans f words = words.map (Word.mapSpans f) := by
  induction words with
  | nil => rfl
  | cons word words ih => simp [Word.listMapSpans, ih]

@[simp] theorem Assignment.listMapSpans_eq (assignments : List Assignment) :
    Assignment.listMapSpans f assignments = assignments.map (Assignment.mapSpans f) := by
  induction assignments with
  | nil => rfl
  | cons assignment assignments ih => simp [Assignment.listMapSpans, ih]

@[simp] theorem Command.listMapSpans_eq (commands : List Command) :
    Command.listMapSpans f commands = commands.map (Command.mapSpans f) := by
  induction commands with
  | nil => rfl
  | cons command commands ih => simp [Command.listMapSpans, ih]

@[simp] theorem Statement.listMapSpans_eq (statements : List Statement) :
    Statement.listMapSpans f statements = statements.map (Statement.mapSpans f) := by
  induction statements with
  | nil => rfl
  | cons statement statements ih => simp [Statement.listMapSpans, ih]

@[simp] theorem Command.span_mapSpans (command : Command) :
    (command.mapSpans f).span = f command.span := by
  cases command
  rfl

@[simp] theorem Pipeline.span_mapSpans (pipeline : Pipeline) :
    (pipeline.mapSpans f).span = f pipeline.span := by
  cases pipeline
  rfl

@[simp] theorem Statement.span_mapSpans (statement : Statement) :
    (statement.mapSpans f).span = f statement.span := by
  cases statement
  rfl

/-- Spans can be replaced before or after a redirection. -/
theorem Command.mapSpans_redirect (command : Command) (word : Word) (redirection : Redirection) :
    (command.redirect word redirection).mapSpans f =
      (command.mapSpans f).redirect (word.mapSpans f) redirection := by
  obtain ⟨assignments, arguments, input, output, append, span⟩ := command
  cases redirection <;> simp [redirect, mapSpans]

/-! ### No other spans -/

mutual

theorem Part.mapSpans_id : ∀ part : Part, part.mapSpans id = part
  | .literal _ => rfl
  | .parameter _ => rfl
  | .glob _ => rfl
  | .substitution body => by rw [Part.mapSpans, body.mapSpans_id]

theorem Part.listMapSpans_id : ∀ parts : List Part, Part.listMapSpans id parts = parts
  | [] => rfl
  | part :: parts => by rw [Part.listMapSpans, part.mapSpans_id, Part.listMapSpans_id parts]

theorem Word.mapSpans_id : ∀ word : Word, word.mapSpans id = word
  | ⟨parts, span⟩ => by rw [Word.mapSpans, Part.listMapSpans_id parts, id]

theorem Word.optionMapSpans_id : ∀ word : Option Word, Word.optionMapSpans id word = word
  | none => rfl
  | some word => by rw [Word.optionMapSpans, word.mapSpans_id]

theorem Word.listMapSpans_id : ∀ words : List Word, Word.listMapSpans id words = words
  | [] => rfl
  | word :: words => by rw [Word.listMapSpans, word.mapSpans_id, Word.listMapSpans_id words]

theorem Assignment.mapSpans_id : ∀ assignment : Assignment, assignment.mapSpans id = assignment
  | ⟨name, value, span⟩ => by rw [Assignment.mapSpans, Word.optionMapSpans_id value, id]

theorem Assignment.listMapSpans_id :
    ∀ assignments : List Assignment, Assignment.listMapSpans id assignments = assignments
  | [] => rfl
  | assignment :: assignments => by
    rw [Assignment.listMapSpans, assignment.mapSpans_id, Assignment.listMapSpans_id assignments]

theorem Command.mapSpans_id : ∀ command : Command, command.mapSpans id = command
  | ⟨assignments, arguments, input, output, append, span⟩ => by
    rw [Command.mapSpans, Assignment.listMapSpans_id assignments, Word.listMapSpans_id arguments,
      Word.optionMapSpans_id input, Word.optionMapSpans_id output, Word.optionMapSpans_id append,
      id]

theorem Command.listMapSpans_id :
    ∀ commands : List Command, Command.listMapSpans id commands = commands
  | [] => rfl
  | command :: commands => by
    rw [Command.listMapSpans, command.mapSpans_id, Command.listMapSpans_id commands]

theorem Pipeline.mapSpans_id : ∀ pipeline : Pipeline, pipeline.mapSpans id = pipeline
  | ⟨commands, span⟩ => by rw [Pipeline.mapSpans, Command.listMapSpans_id commands, id]

theorem Statement.mapSpans_id : ∀ statement : Statement, statement.mapSpans id = statement
  | ⟨pipeline, background, span⟩ => by rw [Statement.mapSpans, pipeline.mapSpans_id, id]

theorem Statement.listMapSpans_id :
    ∀ statements : List Statement, Statement.listMapSpans id statements = statements
  | [] => rfl
  | statement :: statements => by
    rw [Statement.listMapSpans, statement.mapSpans_id, Statement.listMapSpans_id statements]

theorem Script.mapSpans_id : ∀ script : Script, script.mapSpans id = script
  | ⟨statements, span⟩ => by rw [Script.mapSpans, Statement.listMapSpans_id statements, id]

end

/-! ### Likeness -/

/-- The span that stands for any span. -/
def eraseSpan (_ : Span) : Span := Span.empty 0

/-- A command without content has none with other spans either. -/
@[simp] theorem Command.isEmpty_mapSpans (command : Command) :
    (command.mapSpans f).isEmpty = command.isEmpty := by
  obtain ⟨assignments, arguments, input, output, append, span⟩ := command
  cases input <;> cases output <;> cases append <;>
    simp [Command.mapSpans, Command.isEmpty, Command.targets]

/-- The span of a command is erased with all others. -/
theorem Command.mapSpans_eraseSpan_span (command : Command) (span : Span) :
    { command with span := span }.mapSpans eraseSpan = command.mapSpans eraseSpan := by
  obtain ⟨assignments, arguments, input, output, append, span'⟩ := command
  rfl

/-- Scripts are alike up to spans when their statements are. -/
theorem Script.eraseSpans_eq_iff {script script' : Script} :
    script.mapSpans eraseSpan = script'.mapSpans eraseSpan ↔
      script.statements.map (Statement.mapSpans eraseSpan) =
        script'.statements.map (Statement.mapSpans eraseSpan) := by
  obtain ⟨statements, span⟩ := script
  obtain ⟨statements', span'⟩ := script'
  simp [Script.mapSpans, eraseSpan]

end CommandSyntax
