import CommandSyntax.Diagnostic
import CommandSyntax.Script.Node

/-!
# CommandSyntax.Validation

**Constructs that a runner of scripts may want to refuse.** A script that parses
may still nest substitutions too deep, set variables for no command, run in the
background, redirect output twice or substitute nothing.

`Script.violations` gives all violations of some `Rules`, in the order in which
the tree is walked. What is wrong with a substitution is told with the bytes of
the word that holds it, which is why the walk carries its `Surroundings` down.
-/

namespace CommandSyntax

/-- What is allowed in a script. -/
structure Rules where
  /-- How deep substitutions may be nested; zero for any depth. -/
  nesting : Nat := 0
  /-- Whether a command may consist of assignments only. -/
  standaloneAssignments : Bool := true
  /-- Whether statements may run in the background. -/
  background : Bool := true
deriving DecidableEq, Repr

/-- A construct that is not allowed. -/
inductive Violation where
  /-- A substitution lies deeper than allowed. -/
  | excessiveNesting (depth limit : Nat) (span : Span)
  /-- A command consists of assignments; the first is given with its value. -/
  | standaloneAssignment (name : String) (value : Option String) (span : Span)
  /-- A statement runs in the background. -/
  | backgroundStatement (span : Span)
  /-- A command writes and appends its output. -/
  | conflictingRedirects (span : Span)
  /-- A substitution has no statements. -/
  | emptySubstitution (span : Span)
deriving DecidableEq, Repr

namespace Violation

/-- The wording of a violation. -/
def message : Violation → String
  | excessiveNesting depth limit _ =>
    s!"substitutions nested {depth} deep, more than the allowed {limit}"
  | standaloneAssignment name _ _ => s!"assignment to {name} without a command"
  | backgroundStatement _ => "background execution is not allowed"
  | conflictingRedirects _ => "output redirected with both > and >>"
  | emptySubstitution _ => "empty command substitution"

/-- The bytes of the construct. -/
def span : Violation → Span
  | excessiveNesting _ _ span => span
  | standaloneAssignment _ _ span => span
  | backgroundStatement span => span
  | conflictingRedirects span => span
  | emptySubstitution span => span

/-- The violation shown in its source. -/
def diagnostic (violation : Violation) (source : String) : String :=
  CommandSyntax.diagnostic source violation.span violation.message

end Violation

/-! ### Values as text -/

/-- A part as it is told: text as it is, and substitutions without their script. -/
def Part.describe : Part → String
  | literal text => text
  | parameter name => s!"${name}"
  | glob .star => "*"
  | glob .one => "?"
  | glob (.charset set) => s!"[{set}]"
  | substitution _ => "$(...)"

/-- A word as it is told. -/
def Word.describe (word : Word) : String := String.join (word.parts.map Part.describe)

/-! ### Finding violations -/

/-- What lies above a node. -/
structure Surroundings where
  /-- The number of substitutions, the node included. -/
  depth : Nat
  /-- The bytes of the nearest word, the node included. -/
  word : Span
deriving DecidableEq, Repr

namespace Surroundings

/-- Above the root of a tree there is nothing. -/
def root : Surroundings := ⟨0, Span.empty 0⟩

/-- The surroundings at a node, from those of what lies directly above it. -/
def enter (surroundings : Surroundings) : Node → Surroundings
  | .word word => { surroundings with word := word.span }
  | .substitution _ => { surroundings with depth := surroundings.depth + 1 }
  | _ => surroundings

end Surroundings

namespace Rules

/-- The violation of a statement. -/
def checkStatement (rules : Rules) (statement : Statement) : List Violation :=
  if statement.background && !rules.background then
    [.backgroundStatement statement.span]
  else
    []

/-- The violations of a command. -/
def checkCommand (rules : Rules) (command : Command) : List Violation :=
  let conflicting :=
    if command.output.isSome && command.append.isSome then
      [.conflictingRedirects command.span]
    else
      []
  let standalone :=
    match command.arguments, command.assignments, rules.standaloneAssignments with
    | [], first :: _, false =>
      [.standaloneAssignment first.name (first.value.map Word.describe) command.span]
    | _, _, _ => []
  conflicting ++ standalone

/-- The violations of a substitution in its surroundings. -/
def checkSubstitution (rules : Rules) (here : Surroundings) (body : Script) : List Violation :=
  let excessive :=
    if 0 < rules.nesting && rules.nesting < here.depth then
      [.excessiveNesting here.depth rules.nesting here.word]
    else
      []
  let nothing := if body.isEmpty then [.emptySubstitution here.word] else []
  excessive ++ nothing

/-- The violations of a single node in its surroundings. -/
def check (rules : Rules) (here : Surroundings) : Node → List Violation
  | .statement statement => rules.checkStatement statement
  | .command command => rules.checkCommand command
  | .substitution body => rules.checkSubstitution here body
  | _ => []

end Rules

/-- The violations at or below a node whose surroundings above are given. -/
def Node.violations (rules : Rules) : Node → Surroundings → List Violation :=
  fold fun node below above =>
    let here := above.enter node
    rules.check here node ++ below.flatMap (· here)

/-- All violations of a script, in the order in which the tree is walked. -/
def Script.violations (rules : Rules) (script : Script) : List Violation :=
  (Node.script script).violations rules Surroundings.root

end CommandSyntax
