import CommandSyntax.Diagnostic
import CommandSyntax.ScanError
import CommandSyntax.Token

/-!
# CommandSyntax.SyntaxError

What keeps an input from being parsed, where the fault lies and how it is told.

* `SyntaxError` names the cause, with the kinds of token and the bytes involved.
* `SyntaxError.site` is the production or scan rule that notices the cause; each
  cause is noticed in one place only.
* `SyntaxError.message` is the wording, `SyntaxError.report` the one-line form
  and `SyntaxError.diagnostic` the form that shows the source.
-/

namespace CommandSyntax

/-- Why an input is not a script. -/
inductive SyntaxError where
  /-- The input cannot be cut into tokens. -/
  | scan (error : ScanError)
  /-- A construct is not closed by the token that has to close it. -/
  | unexpectedToken (expected found : TokenKind) (span : Span)
  /-- The input ends where a command has to stand. -/
  | unexpectedEnd (span : Span)
  /-- A bar has no command before it. -/
  | unexpectedPipe (span : Span)
  /-- A bar has no command after it. -/
  | missingCommand (found : TokenKind) (span : Span)
  /-- A redirection has no file after it. -/
  | missingTarget (operator found : TokenKind) (span : Span)
  /-- A parameter in braces has no name. -/
  | badParameter (span : Span)
  /-- A parameter in braces is not closed before the end. -/
  | unclosedExpansion (span : Span)
  /-- A token that cannot go on with the script follows it. -/
  | trailingToken (found : TokenKind) (span : Span)
  /-- Substitutions are nested deeper than the limit. -/
  | nestingTooDeep (limit : Nat) (span : Span)
  /-- A rule is broken that tokens keep; no input leads to it. -/
  | corruption (detail : String)
deriving DecidableEq, Repr

/-- The productions and scan rules that notice an error. -/
inductive Site where
  /-- The rule for a set of characters in brackets. -/
  | charsetRule
  /-- The rule for a text in single quotes. -/
  | singleQuoteRule
  /-- The step to the next token. -/
  | nextToken
  /-- The demand for a token of a given kind. -/
  | requiredToken
  /-- One stage of a pipeline. -/
  | stage
  /-- The stages of a pipeline. -/
  | pipeline
  /-- The words and redirections of a command. -/
  | command
  /-- A parameter in braces. -/
  | bracedParameter
  /-- The whole input. -/
  | wholeInput
  /-- The opening of a substitution. -/
  | substitution
  /-- The text of a token. -/
  | tokenText
deriving DecidableEq, Repr

/-- The name of a site in reports. -/
def Site.name : Site → String
  | charsetRule => "match_glob_charset"
  | singleQuoteRule => "match_single_quoted"
  | nextToken => "advance"
  | requiredToken => "expect"
  | stage => "pipeline_stage"
  | pipeline => "pipeline"
  | command => "command"
  | bracedParameter => "braced_parameter"
  | wholeInput => "parse_all"
  | substitution => "enter_substitution"
  | tokenText => "expect_into_string"

/-- A named place in a file where an error was noticed. -/
structure Origin where
  /-- The name of the enclosing routine. -/
  routine : String
  /-- The file. -/
  file : String
  /-- The line of the file. -/
  line : Nat
deriving DecidableEq, Repr

/-- The routine with its place. -/
def Origin.describe (origin : Origin) : String :=
  s!"{origin.routine} at {origin.file}:{origin.line}"

/-- The broad classes of errors. -/
inductive ErrorClass where
  /-- Malformed input. -/
  | malformed
  /-- A broken rule of the tree, never bad input. -/
  | corruption
deriving DecidableEq, Repr

/-- The name of a class of errors. -/
def ErrorClass.name : ErrorClass → String
  | malformed => "syntax"
  | corruption => "corruption"

/-- The rule that notices a scan error. -/
def ScanError.site : ScanError → Site
  | unclosedCharset _ => .charsetRule
  | unclosedSingleQuote _ => .singleQuoteRule
  | noMatch _ => .nextToken

namespace SyntaxError

/-- A token has fewer bytes than the delimiters that stand around its text. -/
def shortToken (kind : TokenKind) (text : List Char) (left right : Nat) : SyntaxError :=
  let quoted := Text.quote text
  .corruption s!"{kind} token {quoted} is shorter than its {left}+{right} delimiter bytes"

/-- The wording of an error. -/
def message : SyntaxError → String
  | scan error => error.message
  | unexpectedToken expected found _ =>
    s!"expected token of type {expected}, got {found}"
  | unexpectedEnd _ => "unexpected end of input"
  | unexpectedPipe _ => "unexpected pipe"
  | missingCommand found _ => s!"expected a command after pipe, got {found}"
  | missingTarget operator found _ => s!"expected a file after {operator}, got {found}"
  | badParameter _ => "bad parameter: $\x7b\x7d"
  | unclosedExpansion _ => "missing \x7d to parameter expansion"
  | trailingToken found _ => s!"unexpected token: {found}"
  | nestingTooDeep limit _ => s!"substitutions nested deeper than {limit}"
  | corruption detail => s!"corrupted syntax tree: {detail}"

/-- The bytes at fault. -/
def span? : SyntaxError → Option Span
  | scan error => some error.span
  | unexpectedToken _ _ span => some span
  | unexpectedEnd span => some span
  | unexpectedPipe span => some span
  | missingCommand _ span => some span
  | missingTarget _ _ span => some span
  | badParameter span => some span
  | unclosedExpansion span => some span
  | trailingToken _ span => some span
  | nestingTooDeep _ span => some span
  | corruption _ => none

/-- The production or rule that notices an error. -/
def site : SyntaxError → Site
  | scan error => error.site
  | unexpectedToken _ _ _ => .requiredToken
  | unexpectedEnd _ => .stage
  | unexpectedPipe _ => .stage
  | missingCommand _ _ => .pipeline
  | missingTarget _ _ _ => .command
  | badParameter _ => .bracedParameter
  | unclosedExpansion _ => .bracedParameter
  | trailingToken _ _ => .wholeInput
  | nestingTooDeep _ _ => .substitution
  | corruption _ => .tokenText

/-- The class of an error: malformed input, but for a broken tree. -/
def errorClass : SyntaxError → ErrorClass
  | corruption _ => .corruption
  | _ => .malformed

/-- The stage of reading that an error belongs to. -/
def stageName : SyntaxError → String
  | scan _ => "Lex"
  | _ => "Parse"

/-- The one-line report of an error that was noticed in a described place. -/
def report (error : SyntaxError) (place : String) : String :=
  s!"{error.stageName} error! In {place}. {error.message}"

/-- The error shown in its source, unless it has no place there. -/
def diagnostic? (error : SyntaxError) (source : String) : Option String :=
  error.span?.map fun span => diagnostic source span error.message

end SyntaxError

end CommandSyntax
