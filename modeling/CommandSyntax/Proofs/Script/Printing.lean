import CommandSyntax.Proofs.Script.Nodes
import CommandSyntax.Proofs.Script.Spans
import CommandSyntax.Proofs.Token.Cutting

/-!
# CommandSyntax.Proofs.Script.Printing

**Writing a tree out again**, in one fixed way: literals in single quotes, parameters in
braces, substitutions in parentheses, a pair of double quotes between the parts of a
word, a blank after each piece of a command and a semicolon after each statement.

Not every tree can be written so: a command without content leaves no text, and a name
with a brace in it ends at the brace. `Script.WellFormed` says what a tree has to keep.
-/

namespace CommandSyntax

/-! ### Text -/

/-- The operator of a redirection. -/
def Redirection.operator : Redirection → List Char
  | .input => ['<']
  | .output => ['>']
  | .append => ['>', '>']

/-- Pieces with a blank after each. -/
def spaced (pieces : List (List Char)) : List Char := pieces.flatMap (· ++ [' '])

mutual

/-- A part as text. -/
def Part.print : Part → List Char
  | .literal text => '\'' :: (Quoting.escape text.toList ++ ['\''])
  | .parameter name => ['$', '{'] ++ name.toList ++ ['}']
  | .glob .star => ['*']
  | .glob .one => ['?']
  | .glob (.charset set) => '[' :: (set.toList ++ [']'])
  | .substitution body => ['$', '('] ++ body.print ++ [')']

/-- The parts of a word as text, each for itself. -/
def Part.listPrint : List Part → List (List Char)
  | [] => []
  | part :: parts => part.print :: Part.listPrint parts

/-- A word as text. -/
def Word.print : Word → List Char
  | ⟨parts, _⟩ => ['"', '"'].intercalate (Part.listPrint parts)

/-- A word that may be absent as text. -/
def Word.optionPrint : Option Word → List (List Char)
  | none => []
  | some word => [word.print]

/-- The words of a command as text, each for itself. -/
def Word.listPrint : List Word → List (List Char)
  | [] => []
  | word :: words => word.print :: Word.listPrint words

/-- An assignment as text. -/
def Assignment.print : Assignment → List Char
  | ⟨name, value, _⟩ => name.toList ++ ['='] ++ (Word.optionPrint value).flatten

/-- The assignments of a command as text, each for itself. -/
def Assignment.listPrint : List Assignment → List (List Char)
  | [] => []
  | assignment :: assignments => assignment.print :: Assignment.listPrint assignments

/-- A command as text. -/
def Command.print : Command → List Char
  | ⟨assignments, arguments, input, output, append, _⟩ =>
    spaced (Assignment.listPrint assignments ++ Word.listPrint arguments ++
      (Word.optionPrint input).map (Redirection.input.operator ++ ·) ++
      (Word.optionPrint output).map (Redirection.output.operator ++ ·) ++
      (Word.optionPrint append).map (Redirection.append.operator ++ ·))

/-- The commands of a pipeline as text, each for itself. -/
def Command.listPrint : List Command → List (List Char)
  | [] => []
  | command :: commands => command.print :: Command.listPrint commands

/-- A pipeline as text. -/
def Pipeline.print : Pipeline → List Char
  | ⟨commands, _⟩ => ['|'].intercalate (Command.listPrint commands)

/-- A statement as text. -/
def Statement.print : Statement → List Char
  | ⟨pipeline, background, _⟩ => pipeline.print ++ if background then ['&'] else []

/-- The statements of a script as text, each for itself. -/
def Statement.listPrint : List Statement → List (List Char)
  | [] => []
  | statement :: statements => statement.print :: Statement.listPrint statements

/-- A script as text. -/
def Script.print : Script → List Char
  | ⟨statements, _⟩ => (Statement.listPrint statements).flatMap (· ++ [';'])

end

/-- The text of a script. -/
def Script.text (script : Script) : String := String.ofList script.print

/-! ### Lists and options -/

@[simp] theorem Part.listPrint_eq (parts : List Part) :
    Part.listPrint parts = parts.map Part.print := by
  induction parts with
  | nil => rfl
  | cons part parts ih => simp [Part.listPrint, ih]

@[simp] theorem Word.optionPrint_eq (word : Option Word) :
    Word.optionPrint word = word.toList.map Word.print := by
  cases word <;> rfl

@[simp] theorem Word.listPrint_eq (words : List Word) :
    Word.listPrint words = words.map Word.print := by
  induction words with
  | nil => rfl
  | cons word words ih => simp [Word.listPrint, ih]

@[simp] theorem Assignment.listPrint_eq (assignments : List Assignment) :
    Assignment.listPrint assignments = assignments.map Assignment.print := by
  induction assignments with
  | nil => rfl
  | cons assignment assignments ih => simp [Assignment.listPrint, ih]

@[simp] theorem Command.listPrint_eq (commands : List Command) :
    Command.listPrint commands = commands.map Command.print := by
  induction commands with
  | nil => rfl
  | cons command commands ih => simp [Command.listPrint, ih]

@[simp] theorem Statement.listPrint_eq (statements : List Statement) :
    Statement.listPrint statements = statements.map Statement.print := by
  induction statements with
  | nil => rfl
  | cons statement statements ih => simp [Statement.listPrint, ih]

@[simp] theorem spaced_nil : spaced [] = [] := rfl

@[simp] theorem spaced_cons (piece : List Char) (pieces : List (List Char)) :
    spaced (piece :: pieces) = piece ++ ' ' :: spaced pieces := by
  simp [spaced]

@[simp] theorem spaced_append (front back : List (List Char)) :
    spaced (front ++ back) = spaced front ++ spaced back := by
  simp [spaced]

/-- The redirections of a command, in the order in which they are written. -/
def Command.redirections (command : Command) : List (Redirection × Word) :=
  command.input.toList.map (Redirection.input, ·) ++
    command.output.toList.map (Redirection.output, ·) ++
    command.append.toList.map (Redirection.append, ·)

/-- A redirection as text. -/
def printRedirection (redirection : Redirection × Word) : List Char :=
  redirection.1.operator ++ redirection.2.print

theorem Command.print_eq (command : Command) :
    command.print = spaced (command.assignments.map Assignment.print) ++
      (spaced (command.arguments.map Word.print) ++
        spaced (command.redirections.map printRedirection)) := by
  obtain ⟨assignments, arguments, input, output, append, span⟩ := command
  simp [Command.print, Command.redirections, printRedirection, Function.comp_def]

/-! ### What can be written -/

/-- What a node has to keep to be read back from its text. -/
def Node.WellFormed : Node → Prop
  | .pipeline p => p.commands ≠ []
  | .command c => c.isEmpty = false
  | .assignment a => IsName a.name.toList
  | .word w => w.parts ≠ []
  | .part (.literal text) => text ≠ ""
  | .part (.parameter name) => name = "?" ∨ IsName name.toList
  | .glob (.charset set) => ']' ∉ set.toList
  | _ => True

/-- A script all of whose nodes, those of substituted scripts included, keep what they have to:
there are no empty pipelines, commands, words or literals, names are names, and no set of
characters closes its bracket. -/
def Script.WellFormed (script : Script) : Prop := ∀ node ∈ script.nodes, node.WellFormed

end CommandSyntax
