import CommandSyntax.Grammar.Command

/-!
# CommandSyntax.Grammar.Statement

The productions of **pipelines, statements and scripts**.

```text
script    := (statement? (; | newline))* statement?
statement := pipeline &?
pipeline  := stage (| stage)*
stage     := command                  with the whitespace around it
```

`script` ties the knot between words and scripts: it recurses on the number of
levels that scripts may still be nested, and hands the script production one
level deeper to the words.
-/

namespace CommandSyntax.Production

/-! ### Pipelines -/

/-- One command of a pipeline, with the whitespace around it. -/
def stage? (context : Context) : Production (Option Command) := do
  skipWhitespace
  let lexeme ← current
  match lexeme.kind with
  | .stop => fail (.unexpectedEnd lexeme.span)
  | .pipe => fail (.unexpectedPipe lexeme.span)
  | _ =>
    let command ← command? context
    skipWhitespace
    return command

/-- A bar and the command after it. -/
def pipelineRound (context : Context) (commands : List Command) :
    Production (ForInStep (List Command)) := do
  if ← accept .pipe then
    match ← stage? context with
    | some command => return .yield (command :: commands)
    | none =>
      let found ← current
      fail (.missingCommand found.kind found.span)
  else
    return .done commands

/-- A pipeline, unless no command stands at the cursor. -/
def pipeline? (context : Context) : Production (Option Pipeline) := do
  match ← stage? context with
  | none => return none
  | some first =>
    let commands ← loop (pipelineRound context) [first]
    return some ⟨commands.reverse, first.span.start, ← lastEnd⟩

/-! ### Statements -/

/-- A statement, unless no pipeline stands at the cursor. -/
def statement? (context : Context) : Production (Option Statement) := do
  match ← pipeline? context with
  | none => return none
  | some pipeline =>
    skipWhitespace
    let background ← accept .background
    let stop ← lastEnd
    skipWhitespace
    return some ⟨pipeline, background, pipeline.span.start, stop⟩

/-- One statement, possibly empty, and the token that ends it. -/
def scriptRound (context : Context) (statements : List Statement) :
    Production (ForInStep (List Statement)) := do
  skipWhitespace
  let lexeme ← current
  if lexeme.kind = .stop then
    return .done statements
  else
    let statement ← statement? context
    let statements := statement.toList ++ statements
    skipWhitespace
    if ← accept .statementEnd then return .yield statements else return .done statements

/-- The statements of a script in a context. They end at the end of the input or
at a token that cannot go on with them, such as a closing parenthesis. -/
def scriptIn (context : Context) : Production Script := do
  let first ← current
  let statements ← loop (scriptRound context) []
  return Script.ofStatements first.start statements.reverse

/-- A script inside which scripts may be nested some number of levels. The limit
is the number that errors report. -/
def script (limit : Nat) : (levels : Nat) → (inBackticks : Bool) → Production Script
  | 0, inBackticks => scriptIn ⟨limit, inBackticks, none⟩
  | levels + 1, inBackticks => scriptIn ⟨limit, inBackticks, some (script limit levels)⟩

/-- A whole input: a script that nothing follows. -/
def wholeInput (limit : Nat) : Production Script := do
  advance
  let body ← script limit limit false
  let lexeme ← current
  if lexeme.kind = .stop then
    return body
  else
    fail (.trailingToken lexeme.kind lexeme.span)

end CommandSyntax.Production
