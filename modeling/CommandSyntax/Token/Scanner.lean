import CommandSyntax.Token.Lexeme

/-!
# CommandSyntax.Token.Scanner

A **scanner** walks over an input token by token. It holds the token it stands
on and the text that is left after it; at first it stands on an empty marker
before the input.

`advance` reads the token that starts where the current one stops. A failed
advance gives no scanner, so the caller goes on with the one it had. At the end
of the input, advancing gives the end marker again and again.
-/

namespace CommandSyntax

/-- A place in an input between two tokens, with the token just read. -/
structure Scanner where
  /-- The whole input. -/
  input : String
  /-- The token just read. -/
  token : Token
  /-- The text after that token. -/
  rest : List Char
deriving DecidableEq, Repr

namespace Scanner

/-- The scanner before the first token of an input. -/
def ofString (input : String) : Scanner := ⟨input, Token.endMarker 0, input.toList⟩

/-- Moves to the next token. -/
def advance (scanner : Scanner) : Except ScanError Scanner :=
  match Lexeme.read scanner.token.stop scanner.rest with
  | .ok lexeme =>
    .ok { scanner with
      token := lexeme.token
      rest := scanner.rest.drop lexeme.text.length }
  | .error error => .error error

/-- The text of a token in the input, empty when the token does not fit. -/
def text (scanner : Scanner) (token : Token) : String := token.text scanner.input

end Scanner

end CommandSyntax
