import CommandSyntax.Grammar.Word

/-!
# CommandSyntax.Grammar.Command

The productions of **commands**.

```text
command     := assignment* (redirection | words)*
redirection := (< | > | >>) word
assignment  := name= word?
```

Words that redirections separate form one list, and a later redirection of the
same kind replaces an earlier one.
-/

namespace CommandSyntax

/-- The redirection that a kind of token stands for. -/
def Redirection.ofKind? : TokenKind → Option Redirection
  | .readRedirect => some .input
  | .writeRedirect => some .output
  | .appendRedirect => some .append
  | _ => none

namespace Production

/-! ### Assignments -/

/-- A name with its equals sign, and the word that touches it, if there is one. -/
def assignment (context : Context) : Production Assignment := do
  let first ← current
  let name ← tokenText .assignmentLhs 0 1 []
  let value ← word? context
  return ⟨String.ofList name, value, first.start, ← lastEnd⟩

/-- One assignment and the whitespace before it. -/
def assignmentsRound (context : Context) (assignments : List Assignment) :
    Production (ForInStep (List Assignment)) := do
  skipWhitespace
  let lexeme ← current
  if lexeme.kind = .assignmentLhs then
    let assignment ← assignment context
    return .yield (assignment :: assignments)
  else
    return .done assignments

/-- The assignments at the start of a command. -/
def assignments (context : Context) : Production (List Assignment) := do
  let assignments ← loop (assignmentsRound context) []
  return assignments.reverse

/-! ### Redirections and words -/

/-- The file of a redirection whose operator is at the cursor. -/
def target (context : Context) : Production Word := do
  let operator ← take
  skipWhitespace
  match ← word? context with
  | some word => return word
  | none =>
    let found ← current
    fail (.missingTarget operator.kind found.kind found.span)

/-- One redirection or one run of words. -/
def commandRound (context : Context) (command : Command) :
    Production (ForInStep Command) := do
  skipWhitespace
  let lexeme ← current
  match Redirection.ofKind? lexeme.kind with
  | some redirection =>
    let word ← target context
    return .yield (command.redirect word redirection)
  | none =>
    let words ← words context
    if words.isEmpty then
      return .done command
    else
      return .yield { command with arguments := command.arguments ++ words }

/-- A command, unless nothing of one stands at the cursor. -/
def command? (context : Context) : Production (Option Command) := do
  skipWhitespace
  let first ← current
  let assignments ← assignments context
  let start := { Command.empty (Span.empty first.start) with assignments := assignments }
  let content ← loop (commandRound context) start
  if content.isEmpty then
    return none
  else
    return some { content with span := ⟨first.start, max (← lastEnd) first.start⟩ }

end Production

end CommandSyntax
