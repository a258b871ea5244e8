import CommandSyntax.Span

/-!
# CommandSyntax.Token

**Tokens** of a command line: a kind and the bytes it covers.

`TokenKind.all` lists the kinds in the order in which their rules are tried
(`CommandSyntax.Token.Rule`), and `TokenKind.name` gives the name that messages
use. A name determines its kind (`ofName?_name`).
-/

namespace CommandSyntax

/-- The class of a token. -/
inductive TokenKind where
  /-- The end of the input. -/
  | stop
  /-- Blanks and escaped newlines. -/
  | whitespace
  /-- A dollar sign with a name, a digit or a question mark. -/
  | unbracedParameter
  /-- A dollar sign and two opening parentheses. -/
  | startArithmetic
  /-- A dollar sign and an opening parenthesis. -/
  | startSubstitution
  /-- A dollar sign and an opening brace. -/
  | startExpansion
  /-- A semicolon or a newline. -/
  | statementEnd
  /-- Two ampersands. -/
  | and
  /-- Two bars. -/
  | or
  /-- One bar. -/
  | pipe
  /-- One ampersand. -/
  | background
  /-- Two greater-than signs. -/
  | appendRedirect
  /-- One greater-than sign. -/
  | writeRedirect
  /-- A less-than sign. -/
  | readRedirect
  /-- An opening brace. -/
  | leftBrace
  /-- A closing brace. -/
  | rightBrace
  /-- An opening parenthesis. -/
  | leftParen
  /-- A closing parenthesis. -/
  | rightParen
  /-- A double quote. -/
  | doubleQuote
  /-- A backtick. -/
  | backtick
  /-- An asterisk. -/
  | globStar
  /-- A question mark. -/
  | globOne
  /-- A set of characters in brackets. -/
  | globCharset
  /-- A text in single quotes, quotes included. -/
  | singleQuoted
  /-- A name and its equals sign. -/
  | assignmentLhs
  /-- Any other run of text. -/
  | raw
deriving DecidableEq, Repr

namespace TokenKind

/-- Every kind, in the order in which the scan rules are tried. -/
def all : List TokenKind :=
  [stop, whitespace, unbracedParameter, startArithmetic, startSubstitution, startExpansion,
    statementEnd, and, or, pipe, background, appendRedirect, writeRedirect, readRedirect,
    leftBrace, rightBrace, leftParen, rightParen, doubleQuote, backtick, globStar, globOne,
    globCharset, singleQuoted, assignmentLhs, raw]

theorem mem_all (kind : TokenKind) : kind ∈ all := by
  cases kind <;> decide

/-- The name of a kind in messages. -/
def name : TokenKind → String
  | stop => "end-of-input"
  | whitespace => "whitespace"
  | unbracedParameter => "unbraced-parameter"
  | startArithmetic => "start-of-arithmetic"
  | startSubstitution => "start-of-substitution"
  | startExpansion => "start-of-expansion"
  | statementEnd => "statement-end"
  | and => "and"
  | or => "or"
  | pipe => "pipe"
  | background => "background"
  | appendRedirect => "append-redirect"
  | writeRedirect => "write-redirect"
  | readRedirect => "read-redirect"
  | leftBrace => "left-brace"
  | rightBrace => "right-brace"
  | leftParen => "left-paren"
  | rightParen => "right-paren"
  | doubleQuote => "double-quote"
  | backtick => "backtick"
  | globStar => "glob-star"
  | globOne => "glob-one"
  | globCharset => "glob-charset"
  | singleQuoted => "single-quoted"
  | assignmentLhs => "assignment-lhs"
  | raw => "raw"

instance : ToString TokenKind := ⟨name⟩

/-- The kind with a given name. -/
def ofName? (text : String) : Option TokenKind := all.find? (·.name == text)

@[simp] theorem ofName?_name (kind : TokenKind) : ofName? kind.name = some kind := by
  cases kind <;> decide

end TokenKind

/-- A token: its kind and the bytes it covers. -/
structure Token where
  /-- The class of the token. -/
  kind : TokenKind
  /-- The offset of the first byte. -/
  start : Nat
  /-- The number of bytes. -/
  length : Nat
deriving DecidableEq, Repr

namespace Token

/-- The marker of the end of the input, at a position. -/
def endMarker (position : Nat) : Token := ⟨.stop, position, 0⟩

/-- The offset just past the token. -/
def stop (token : Token) : Nat := token.start + token.length

/-- The bytes of the token. -/
def span (token : Token) : Span := ⟨token.start, token.stop⟩

/-- The text of a token in its source, empty when the token does not fit. -/
def text (token : Token) (source : String) : String := token.span.slice source

end Token

end CommandSyntax
