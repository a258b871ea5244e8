import CommandSyntax.Json
import CommandSyntax.Token

/-!
# CommandSyntax.Json.Token

Spans, kinds of tokens and tokens as **JSON**.
-/

namespace CommandSyntax

namespace Span

/-- The fields of a span, in order. -/
def layout : List String := ["start", "end"]

/-- A span as JSON. -/
def toJson (span : Span) : Json :=
  .object [("start", .integer span.start), ("end", .integer span.stop)]

/-- The span that a JSON value stands for. -/
def ofJson? (json : Json) : Option Span := do
  let start ← (← json.field? layout "start").1.offset?
  let stop ← (← json.field? layout "end").1.offset?
  return ⟨start, stop⟩

end Span

namespace TokenKind

/-- The name of a kind in JSON. -/
def key : TokenKind → String
  | stop => "stop"
  | whitespace => "whitespace"
  | unbracedParameter => "unbraced_parameter"
  | startArithmetic => "start_arithmetic"
  | startSubstitution => "start_substitution"
  | startExpansion => "start_expansion"
  | statementEnd => "statement_end"
  | and => "and"
  | or => "or"
  | pipe => "pipe"
  | background => "background"
  | appendRedirect => "append_redirect"
  | writeRedirect => "write_redirect"
  | readRedirect => "read_redirect"
  | leftBrace => "left_brace"
  | rightBrace => "right_brace"
  | leftParen => "left_paren"
  | rightParen => "right_paren"
  | doubleQuote => "double_quote"
  | backtick => "backtick"
  | globStar => "glob_star"
  | globOne => "glob_one"
  | globCharset => "glob_charset"
  | singleQuoted => "single_quoted"
  | assignmentLhs => "assignment_lhs"
  | raw => "raw"

/-- The kind with a given name in JSON. -/
def ofKey? (key : String) : Option TokenKind := all.find? (·.key == key)

@[simp] theorem ofKey?_key (kind : TokenKind) : ofKey? kind.key = some kind := by
  cases kind <;> decide

/-- The position of a kind in the list of all kinds. -/
def index (kind : TokenKind) : Nat := all.idxOf kind

/-- A kind as JSON. -/
def toJson (kind : TokenKind) : Json := .string kind.key

/-- The kind that a JSON value stands for. -/
def ofJson? (json : Json) : Option TokenKind := json.emptyForm?.bind ofKey?

end TokenKind

namespace Token

/-- The fields of a token, in order. -/
def layout : List String := ["kind", "start", "len"]

/-- The members of a token as JSON. -/
def jsonMembers (token : Token) : List (String × Json) :=
  [("kind", token.kind.toJson), ("start", .integer token.start), ("len", .integer token.length)]

/-- A token as JSON. -/
def toJson (token : Token) : Json := .object token.jsonMembers

/-- The token that a JSON value stands for. -/
def ofJson? (json : Json) : Option Token := do
  let kind ← TokenKind.ofJson? (← json.field? layout "kind").1
  let start ← (← json.field? layout "start").1.offset?
  let length ← (← json.field? layout "len").1.offset?
  return ⟨kind, start, length⟩

end Token

end CommandSyntax
