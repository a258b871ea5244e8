import CommandSyntax.Span

/-!
# CommandSyntax.Script

The **syntax tree** of a command line.

```text
Script      statements separated by semicolons or newlines
Statement   a pipeline, possibly in the background
Pipeline    commands joined by bars
Command     assignments, then words and redirections
Assignment  a name and an optional word
Word        adjacent parts
Part        a literal, a parameter, a glob or a substituted script
```

The types are mutually recursive, since a part may hold a whole script. A tree
that is parsed keeps more than the types say (a pipeline has a command, a word a
part, a literal a character), but a tree may also be read from outside, so
nothing here relies on that.
-/

namespace CommandSyntax

/-- A wildcard, to be matched against file names. -/
inductive Glob where
  /-- Any characters. -/
  | star
  /-- Any one character. -/
  | one
  /-- One character of a set, given as written between the brackets. -/
  | charset (set : String)
deriving DecidableEq, Repr

mutual

/-- One fragment of a word. -/
inductive Part where
  /-- Text whose quoting and escapes are already resolved. -/
  | literal (text : String)
  /-- A reference to a parameter, by its name. -/
  | parameter (name : String)
  /-- A wildcard. -/
  | glob (pattern : Glob)
  /-- The output of a script. -/
  | substitution (body : Script)

/-- A single word of a command line; its parts are joined. -/
structure Word where
  /-- The fragments, in order. -/
  parts : List Part
  /-- The bytes of the word, quotes included. -/
  span : Span

/-- A variable set for a command. -/
structure Assignment where
  /-- The variable, without the equals sign. -/
  name : String
  /-- The word after the equals sign, if there is one. -/
  value : Option Word
  /-- The bytes from the name to the end of the value. -/
  span : Span

/-- A simple command. -/
structure Command where
  /-- The assignments before the first word. -/
  assignments : List Assignment
  /-- The program to run and its arguments. -/
  arguments : List Word
  /-- The file that input is read from. -/
  input : Option Word
  /-- The file that output is written to. -/
  output : Option Word
  /-- The file that output is appended to. -/
  append : Option Word
  /-- The bytes of the command. -/
  span : Span

/-- Commands joined by bars, in order. -/
structure Pipeline where
  /-- The stages. -/
  commands : List Command
  /-- The bytes of the pipeline. -/
  span : Span

/-- A pipeline that is waited for or left in the background. -/
structure Statement where
  /-- What is run. -/
  pipeline : Pipeline
  /-- Whether nobody waits for it. -/
  background : Bool
  /-- The bytes of the statement, with the ampersand. -/
  span : Span

/-- A sequence of statements. -/
structure Script where
  /-- The statements, in order. -/
  statements : List Statement
  /-- The bytes from the first statement to the last. -/
  span : Span

end

/-! ### Parts and words -/

/-- The literal of a text, unless the text is empty. -/
def Part.literal? (text : String) : Option Part :=
  if text = "" then none else some (.literal text)

/-- The text of a literal. -/
def Part.text? : Part → Option String
  | literal text => some text
  | _ => none

/-- The text of a word that consists of literals only. -/
def Word.text? (word : Word) : Option String := (word.parts.mapM Part.text?).map String.join

/-! ### Commands -/

/-- The files that a command can be redirected to. -/
inductive Redirection where
  /-- Input from a file. -/
  | input
  /-- Output to a file. -/
  | output
  /-- Output appended to a file. -/
  | append
deriving DecidableEq, Repr

namespace Command

/-- The command without any content, at a span. -/
def empty (span : Span) : Command := ⟨[], [], none, none, none, span⟩

/-- Redirects a command to a file. A later redirection of the same kind replaces
an earlier one. -/
def redirect (command : Command) (target : Word) : Redirection → Command
  | .input => { command with input := some target }
  | .output => { command with output := some target }
  | .append => { command with append := some target }

/-- The files of a command, in a fixed order. -/
def targets (command : Command) : List Word :=
  command.input.toList ++ command.output.toList ++ command.append.toList

/-- The program to run. -/
def name? (command : Command) : Option Word := command.arguments.head?

/-- Whether a command has no content at all. -/
def isEmpty (command : Command) : Bool :=
  command.assignments.isEmpty && command.arguments.isEmpty && command.targets.isEmpty

end Command

/-! ### Pipelines and scripts -/

/-- The number of stages of a pipeline. -/
def Pipeline.length (pipeline : Pipeline) : Nat := pipeline.commands.length

/-- Whether a pipeline has no stages. -/
def Pipeline.isEmpty (pipeline : Pipeline) : Bool := pipeline.commands.isEmpty

namespace Script

/-- The script without statements, at a position. -/
def empty (position : Nat) : Script := ⟨[], Span.empty position⟩

/-- Whether a script has no statements. -/
def isEmpty (script : Script) : Bool := script.statements.isEmpty

/-- The script of some statements that follow each other: its bytes reach from the
first statement to the last, or stand at a position when there is none. -/
def ofStatements (position : Nat) (statements : List Statement) : Script :=
  match statements.head?, statements.getLast? with
  | some first, some last => ⟨statements, first.span.merge last.span⟩
  | _, _ => ⟨statements, Span.empty position⟩

@[simp] theorem statements_ofStatements (position : Nat) (statements : List Statement) :
    (ofStatements position statements).statements = statements := by
  unfold ofStatements
  split <;> rfl

end Script

end CommandSyntax
