import CommandSyntax.Span

/-!
# CommandSyntax.ScanError

What keeps a text from being cut into tokens: an opening that is never closed,
or a character with which no token starts.
-/

namespace CommandSyntax

/-- Why no token could be read at a position. -/
inductive ScanError where
  /-- A bracket opens a set of characters that is not closed before the end. -/
  | unclosedCharset (span : Span)
  /-- A single quote is not closed before the end. -/
  | unclosedSingleQuote (span : Span)
  /-- No token starts with the text at a position. -/
  | noMatch (position : Nat)
deriving DecidableEq, Repr

namespace ScanError

/-- The wording of an error. -/
def message : ScanError → String
  | unclosedCharset span => s!"unclosed charset starting at position {span.start}"
  | unclosedSingleQuote span =>
    s!"not enough closing single-quotes for quote at position {span.start}"
  | noMatch position => s!"no token matches input at position {position}"

/-- The bytes at fault: from the opening to the end of the text, or the one byte
with which no token starts. -/
def span : ScanError → Span
  | unclosedCharset span => span
  | unclosedSingleQuote span => span
  | noMatch position => ⟨position, position + 1⟩

end ScanError

end CommandSyntax
