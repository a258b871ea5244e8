import CommandSyntax.Grammar.Statement

/-!
# CommandSyntax.Parse

**Parsing** an input: the script it stands for or the first error, and the tokens
that were read on the way.
-/

namespace CommandSyntax

/-- The limits of parsing. -/
structure ParseLimits where
  /-- How deep substitutions may be nested. -/
  nesting : Nat := 32
deriving DecidableEq, Repr

/-- What parsing an input came to. -/
structure ParseOutcome where
  /-- The script, or the error that ended the parse. -/
  result : Except SyntaxError Script
  /-- The tokens that were read, in order, the end marker included. -/
  scanned : List Token

/-- Parses an input and keeps account of the tokens that are read. -/
def runParse (limits : ParseLimits) (input : String) : ParseOutcome :=
  match Production.wholeInput limits.nesting (Cursor.ofString input) with
  | .ok script cursor => ⟨.ok script, cursor.scanned.reverse⟩
  | .error error cursor => ⟨.error error, cursor.scanned.reverse⟩

/-- The script that an input stands for. -/
def parse (limits : ParseLimits) (input : String) : Except SyntaxError Script :=
  (runParse limits input).result

end CommandSyntax
