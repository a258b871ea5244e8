import CommandSyntax.SyntaxError
import CommandSyntax.Token.Stream

/-!
# CommandSyntax.Proofs.Token.Moving

**The same text at another place.** Scanning does not depend on where a text stands: some
bytes further on, the same lexemes are read, that many bytes further on, and the same error
(`TokenStream.ofText_shift`). `shift` moves spans, lexemes, streams and errors.

`TokenStream.glue` puts a stream in the place of the end of another one.
-/

namespace CommandSyntax

variable {n position : Nat} {text : List Char}

/-! ### Moving spans and lexemes -/

/-- The span that is some bytes further on. -/
def Span.shift (n : Nat) (span : Span) : Span := ⟨span.start + n, span.stop + n⟩

@[simp] theorem Span.shift_zero : Span.shift 0 = id := rfl

theorem Span.shift_merge (n : Nat) (left right : Span) :
    (left.merge right).shift n = (left.shift n).merge (right.shift n) := by
  simp only [shift, merge, Span.mk.injEq]
  omega

/-- The lexeme that is some bytes further on. -/
def Lexeme.shift (n : Nat) (lexeme : Lexeme) : Lexeme := { lexeme with start := lexeme.start + n }

namespace Lexeme

@[simp] theorem kind_shift (n : Nat) (lexeme : Lexeme) : (lexeme.shift n).kind = lexeme.kind := rfl

@[simp] theorem text_shift (n : Nat) (lexeme : Lexeme) : (lexeme.shift n).text = lexeme.text := rfl

@[simp] theorem start_shift (n : Nat) (lexeme : Lexeme) :
    (lexeme.shift n).start = lexeme.start + n := rfl

@[simp] theorem stop_shift (n : Nat) (lexeme : Lexeme) :
    (lexeme.shift n).stop = lexeme.stop + n := Nat.add_right_comm ..

@[simp] theorem span_shift (n : Nat) (lexeme : Lexeme) :
    (lexeme.shift n).span = lexeme.span.shift n := by
  simp [span, Span.shift]

end Lexeme

/-! ### Moving errors -/

/-- The error that is some bytes further on. -/
def ScanError.shift (n : Nat) : ScanError → ScanError
  | unclosedCharset span => unclosedCharset (span.shift n)
  | unclosedSingleQuote span => unclosedSingleQuote (span.shift n)
  | noMatch position => noMatch (position + n)

@[simp] theorem ScanError.span_shift (n : Nat) (error : ScanError) :
    (error.shift n).span = error.span.shift n := by
  cases error with
  | noMatch position => simp only [shift, span, Span.shift, Nat.add_right_comm]
  | unclosedCharset | unclosedSingleQuote => rfl

/-- An error is not moved by no bytes. -/
@[simp] theorem ScanError.shift_zero (error : ScanError) : error.shift 0 = error := by
  cases error <;> rfl

/-- The error that is some bytes further on. -/
def SyntaxError.shift (n : Nat) : SyntaxError → SyntaxError
  | scan error => scan (error.shift n)
  | unexpectedToken expected found span => unexpectedToken expected found (span.shift n)
  | unexpectedEnd span => unexpectedEnd (span.shift n)
  | unexpectedPipe span => unexpectedPipe (span.shift n)
  | missingCommand found span => missingCommand found (span.shift n)
  | missingTarget operator found span => missingTarget operator found (span.shift n)
  | badParameter span => badParameter (span.shift n)
  | unclosedExpansion span => unclosedExpansion (span.shift n)
  | trailingToken found span => trailingToken found (span.shift n)
  | nestingTooDeep limit span => nestingTooDeep limit (span.shift n)
  | corruption detail => corruption detail

namespace SyntaxError

@[simp] theorem span?_shift (n : Nat) (error : SyntaxError) :
    (error.shift n).span? = error.span?.map (Span.shift n) := by
  cases error <;> simp [shift, span?]

@[simp] theorem site_shift (n : Nat) (error : SyntaxError) : (error.shift n).site = error.site := by
  cases error with
  | scan error => cases error <;> rfl
  | _ => rfl

@[simp] theorem shift_zero (error : SyntaxError) : error.shift 0 = error := by
  cases error with
  | scan error => rw [shift, ScanError.shift_zero]
  | _ => rfl

end SyntaxError

/-! ### Scanning a text that is moved -/

theorem Opening.unclosed_shift (opening : Opening) (span : Span) :
    opening.unclosed (span.shift n) = (opening.unclosed span).shift n := by
  cases opening <;> rfl

theorem Rule.firstToken_shift (rules : List Rule) :
    firstToken rules (position + n) text =
      (firstToken rules position text).mapError (ScanError.shift n) := by
  induction rules with
  | nil => rfl
  | cons rule rules ih =>
    have hspan : (⟨position + n, position + n + Text.width text⟩ : Span) =
        Span.shift n ⟨position, position + Text.width text⟩ := by
      simp only [Span.shift, Nat.add_right_comm]
    simp only [firstToken]
    cases rule.scan text with
    | pass => exact ih
    | accept length => rfl
    | reject opening =>
      simp only [hspan, Opening.unclosed_shift]
      rfl

theorem Lexeme.read_shift :
    read (position + n) text =
      ((read position text).map (shift n)).mapError (ScanError.shift n) := by
  simp only [read, Rule.firstToken_shift]
  cases Rule.firstToken Rule.table position text <;> rfl

namespace TokenStream

/-- The stream that is some bytes further on. -/
def shift (n : Nat) : TokenStream → TokenStream
  | finished position => finished (position + n)
  | failed error => failed (error.shift n)
  | next lexeme rest => next (lexeme.shift n) (rest.shift n)

theorem ofText_shift : ofText (position + n) text = (ofText position text).shift n := by
  fun_induction ofText position text with
  | case1 position => rw [ofText_nil, shift]
  | case2 position text htext error hread =>
    exact ofText_of_read_eq_error htext (by rw [Lexeme.read_shift, hread]; rfl)
  | case3 position text htext lexeme hread ih =>
    have hread' : Lexeme.read (position + n) text = .ok (lexeme.shift n) := by
      rw [Lexeme.read_shift, hread]
      rfl
    rw [ofText_of_read_eq_ok htext hread', Lexeme.stop_shift, Lexeme.text_shift, ih, shift]

/-! ### Going on at the end -/

/-- The stream that goes on with another one where it ends. -/
def glue : TokenStream → TokenStream → TokenStream
  | finished _, tail => tail
  | failed error, _ => failed error
  | next lexeme rest, tail => next lexeme (rest.glue tail)

theorem shift_glue (stream tail : TokenStream) :
    (stream.glue tail).shift n = (stream.shift n).glue (tail.shift n) := by
  induction stream with
  | finished => rfl
  | failed => rfl
  | next lexeme rest ih => rw [glue, shift, shift, glue, ih]

end TokenStream

end CommandSyntax
