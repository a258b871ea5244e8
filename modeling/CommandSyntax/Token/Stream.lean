import CommandSyntax.Token.Lexeme

/-!
# CommandSyntax.Token.Stream

The **token stream** of an input: its lexemes in order, and how they end. A
stream ends at the end of the input (`finished`) or where no token can be read
(`failed`).

The stream is what the grammar works on: it is defined by the scan rules alone,
and a production that reads from it meets the error of a failed stream exactly
when it asks for the token that cannot be read.
-/

namespace CommandSyntax

/-- The lexemes of an input, in order, and how they end. -/
inductive TokenStream where
  /-- The input ends at a position. -/
  | finished (position : Nat)
  /-- No further token can be read. -/
  | failed (error : ScanError)
  /-- A lexeme and what follows it. -/
  | next (lexeme : Lexeme) (rest : TokenStream)
deriving DecidableEq, Repr

namespace TokenStream

/-- The stream of the text that is left from a position. -/
def ofText (position : Nat) (text : List Char) : TokenStream :=
  if _ : text = [] then
    .finished position
  else
    match _ : Lexeme.read position text with
    | .error error => .failed error
    | .ok lexeme => .next lexeme (ofText lexeme.stop (text.drop lexeme.text.length))
termination_by text.length
decreasing_by exact Lexeme.length_drop_lt_of_read ‹_› ‹_›

/-- The stream of a whole input. -/
def ofString (input : String) : TokenStream := ofText 0 input.toList

@[simp] theorem ofText_nil (position : Nat) : ofText position [] = .finished position := by
  simp [ofText]

theorem ofText_of_read_eq_ok {position : Nat} {text : List Char} {lexeme : Lexeme}
    (htext : text ≠ []) (h : Lexeme.read position text = .ok lexeme) :
    ofText position text =
      .next lexeme (ofText lexeme.stop (text.drop lexeme.text.length)) := by
  rw [ofText, dif_neg htext]
  split
  · simp_all
  · rename_i hread
    obtain rfl : _ = lexeme := by simpa [hread] using h
    rfl

theorem ofText_of_read_eq_error {position : Nat} {text : List Char} {error : ScanError}
    (htext : text ≠ []) (h : Lexeme.read position text = .error error) :
    ofText position text = .failed error := by
  rw [ofText, dif_neg htext]
  split <;> simp_all

/-- The tokens of a stream with the end marker, or the error at which it ends. -/
def tokens : TokenStream → Except ScanError (List Token)
  | finished position => .ok [Token.endMarker position]
  | failed error => .error error
  | next lexeme rest =>
    match rest.tokens with
    | .ok tokens => .ok (lexeme.token :: tokens)
    | .error error => .error error

/-- The lexemes of a stream before its end. -/
def lexemes : TokenStream → List Lexeme
  | finished _ => []
  | failed _ => []
  | next lexeme rest => lexeme :: rest.lexemes

end TokenStream

/-- All tokens of an input, ended by the end marker. -/
def tokenize (input : String) : Except ScanError (List Token) :=
  (TokenStream.ofString input).tokens

end CommandSyntax
