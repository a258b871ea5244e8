import CommandSyntax.Span

/-!
# CommandSyntax.Diagnostic

**Locating and showing a span** of a source text.

* `Location.ofOffset` finds the line that holds a byte offset. Lines are counted
  from 1, columns from 0 and in characters. An offset past the end stands for
  the end, and an offset inside a character for the end too, since nothing
  before such an offset is a text.
* `diagnostic` shows a message, the line and a row of carets. A caret stands
  for a byte, and there is always one.
-/

namespace CommandSyntax

/-- A place in a source text, with the line it stands on. -/
structure Location where
  /-- The number of the line, from 1. -/
  line : Nat
  /-- The number of characters before the place on its line. -/
  column : Nat
  /-- The whole line, without its newline. -/
  text : String
deriving DecidableEq, Repr

/-- The source before and after an offset that is clamped to the source; an
offset inside a character leaves everything before it. -/
def Location.divide (source : List Char) (offset : Nat) : List Char × List Char :=
  (Text.splitAt? (min offset (Text.width source)) source).getD (source, [])

/-- The place of a byte offset of a source. -/
def Location.ofOffset (source : List Char) (offset : Nat) : Location :=
  let (before, after) := divide source offset
  let lead := Text.lastLine before
  { line := before.count '\n' + 1
    column := lead.length
    text := String.ofList (lead ++ after.takeWhile (· ≠ '\n')) }

/-- The place where a span starts. -/
def Span.locate (span : Span) (source : String) : Location :=
  Location.ofOffset source.toList span.start

/-- The halves of a divided source are the source. -/
theorem Location.divide_append (source : List Char) (offset : Nat) :
    (divide source offset).1 ++ (divide source offset).2 = source := by
  unfold divide
  cases h : Text.splitAt? (min offset (Text.width source)) source with
  | none => simp
  | some halves => exact (Text.splitAt?_eq_some_iff.1 h).1

/-! ### Rendering -/

/-- A message over the line that holds the start of a span, with carets below.

The line number takes at least three places, and the carets are as many as the
span has bytes, but at least one. -/
def diagnostic (source : String) (span : Span) (message : String) : String :=
  let place := span.locate source
  let number := String.ofList ((toString place.line).toList.leftpad 3 ' ')
  let indent := String.ofList (List.replicate place.column ' ')
  let carets := String.ofList (List.replicate (max span.length 1) '^')
  s!"error: {message}\n  --> line {place.line}, column {place.column + 1}\n" ++
    s!"   |\n{number} | {place.text}\n   | {indent}{carets}"

end CommandSyntax
