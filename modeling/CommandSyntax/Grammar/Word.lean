import CommandSyntax.Grammar.Production
import CommandSyntax.Quoting
import CommandSyntax.Script

/-!
# CommandSyntax.Grammar.Word

The productions of **words**.

```text
words  := (word whitespace)* word?
word   := part+                       adjacent, double quotes toggled in between
part   := $name | ${...} | `script` | $(script) | * | ? | [...] | text
```

Design points:

* A word is read in a `Context`, which says how scripts inside it are parsed.
  When no nesting is left there is no such parser, and a substitution fails.
* A production that ends in `?` gives `none` when nothing of its kind stands at
  the cursor. It may have left empty pieces behind by then (a pair of quotes
  with nothing inside); these contribute nothing.
* In double quotes, blanks, wildcards and `&` are text and a single quote is an
  ordinary character, while bars, redirections, braces and parentheses end the
  word, which then lacks its closing quote.
-/

namespace CommandSyntax

/-- How the surroundings of a word decide on the scripts inside it. -/
structure Context where
  /-- The limit on nesting that errors report. -/
  limit : Nat
  /-- Whether the word stands in backticks, where a backtick closes. -/
  inBackticks : Bool
  /-- The production of a script one level deeper, given whether it stands in
  backticks, or `none` when no level is left. -/
  script? : Option (Bool → Production Script)

namespace Production

/-! ### The text of a token -/

/-- Leaves a token of a kind behind and gives what the text between its delimiters means. There
are `left` bytes of delimiters in front of the text and `right` bytes behind it. -/
def tokenText (kind : TokenKind) (left right : Nat) (escapes : List Quoting.Escape) :
    Production (List Char) := do
  let lexeme ← current
  match Text.strip? left right lexeme.text with
  | some inner =>
    let _ ← require kind
    return Quoting.unescape escapes inner
  | none => fail (.shortToken lexeme.kind lexeme.text left right)

/-! ### Substitutions -/

/-- A script between an opening and a closing token. -/
def substitution (context : Context) (opening closing : TokenKind) (inBackticks : Bool) :
    Production Part := do
  let opener ← require opening
  match context.script? with
  | none => fail (.nestingTooDeep context.limit opener.span)
  | some script =>
    let body ← script inBackticks
    let _ ← require closing
    return .substitution body

/-! ### Parameters -/

/-- One token of the name in braces. -/
def bracedNameRound (opener : Lexeme) (name : List Char) :
    Production (ForInStep (List Char)) := do
  let lexeme ← current
  match lexeme.kind with
  | .rightBrace =>
    let _ ← take
    return .done name
  | .stop => fail (.unclosedExpansion ⟨opener.start, lexeme.start⟩)
  | _ =>
    let _ ← take
    return .yield (name ++ lexeme.text)

/-- A parameter in braces; everything up to the closing brace is the name. -/
def bracedParameter : Production Part := do
  let opener ← require .startExpansion
  let first ← current
  if first.kind = .rightBrace then
    fail (.badParameter (opener.span.merge first.span))
  else
    let name ← loop (bracedNameRound opener) []
    return .parameter (String.ofList name)

/-! ### Text -/

/-- How a token is taken as text: the bytes of its delimiters, in front and behind, and the escapes
of the text between them. -/
structure TextRule where
  /-- The bytes in front of the text. -/
  left : Nat
  /-- The bytes behind it. -/
  right : Nat
  /-- The escapes of the text. -/
  escapes : List Quoting.Escape

/-- How tokens of a kind are taken as text, inside or outside double quotes, or `none` when they
are not text there. -/
def textRule? (quoted : Bool) (kind : TokenKind) : Option TextRule :=
  match kind, quoted with
  | .singleQuoted, true => some ⟨0, 0, Quoting.inDoubleQuotes⟩
  | .singleQuoted, false => some ⟨1, 1, Quoting.inSingleQuotes⟩
  | .assignmentLhs, true | .raw, true => some ⟨0, 0, Quoting.inDoubleQuotes⟩
  | .assignmentLhs, false | .raw, false => some ⟨0, 0, Quoting.unquoted⟩
  | .globStar, true | .globOne, true | .globCharset, true | .and, true | .or, true
  | .background, true | .whitespace, true => some ⟨0, 0, []⟩
  | _, _ => none

/-- One lexeme of a run of text. -/
def textRound (quoted : Bool) (text : List Char) : Production (ForInStep (List Char)) := do
  let lexeme ← current
  match textRule? quoted lexeme.kind with
  | some rule =>
    let piece ← tokenText lexeme.kind rule.left rule.right rule.escapes
    return .yield (text ++ piece)
  | none => return .done text

/-- A run of text, joined into one literal. -/
def text? (quoted : Bool) : Production (Option Part) := do
  let text ← loop (textRound quoted) []
  return Part.literal? (String.ofList text)

/-! ### Parts -/

/-- One part of a word, inside or outside double quotes. -/
def part? (context : Context) (quoted : Bool) : Production (Option Part) := do
  let lexeme ← current
  match lexeme.kind, quoted with
  | .unbracedParameter, _ =>
    let name ← tokenText .unbracedParameter 1 0 []
    return some (.parameter (String.ofList name))
  | .startExpansion, _ => some <$> bracedParameter
  | .backtick, _ =>
    if context.inBackticks then text? quoted
    else some <$> substitution context .backtick .backtick true
  | .startSubstitution, _ =>
    some <$> substitution context .startSubstitution .rightParen context.inBackticks
  | .globStar, false =>
    let _ ← take
    return some (.glob .star)
  | .globOne, false =>
    let _ ← take
    return some (.glob .one)
  | .globCharset, false =>
    let set ← tokenText .globCharset 1 1 []
    return some (.glob (.charset (String.ofList set)))
  | _, _ => text? quoted

/-- Passes over double quotes, each of which opens or closes a quotation. -/
def toggleQuotes (quoted : Bool) : Production Bool :=
  loop (fun quoted => do
    if ← accept .doubleQuote then return .yield (!quoted) else return .done quoted) quoted

/-- The parts of a word that are read so far. -/
structure PartsRead where
  /-- The parts, the latest first. -/
  parts : List Part
  /-- Whether a quotation is open. -/
  quoted : Bool

/-- One part of a word with the quotes before it. At the end of the word an open
quotation has to be closed. -/
def partsRound (context : Context) (read : PartsRead) : Production (ForInStep PartsRead) := do
  let quoted ← toggleQuotes read.quoted
  match ← part? context quoted with
  | some part => return .yield ⟨part :: read.parts, quoted⟩
  | none =>
    if quoted then
      let _ ← require .doubleQuote
      return .done ⟨read.parts, quoted⟩
    else
      return .done ⟨read.parts, quoted⟩

/-- The adjacent parts of a word, possibly none. -/
def parts (context : Context) : Production (List Part) := do
  let read ← loop (partsRound context) ⟨[], false⟩
  return read.parts.reverse

/-! ### Words -/

/-- One word, unless nothing at the cursor is part of one. -/
def word? (context : Context) : Production (Option Word) := do
  let first ← current
  let parts ← parts context
  if parts.isEmpty then
    return none
  else
    return some ⟨parts, first.start, ← lastEnd⟩

/-- One word and the whitespace after it. -/
def wordsRound (context : Context) (words : List Word) : Production (ForInStep (List Word)) := do
  match ← word? context with
  | none => return .done words
  | some word =>
    if ← accept .whitespace then
      skipWhitespace
      return .yield (word :: words)
    else
      return .done (word :: words)

/-- Words with whitespace between them, possibly none. -/
def words (context : Context) : Production (List Word) := do
  let words ← loop (wordsRound context) []
  return words.reverse

end Production

end CommandSyntax
