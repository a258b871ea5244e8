import CommandSyntax.Parse
import CommandSyntax.Validation

/-!
# CommandSyntax.Log

The **log** of parsing and validating: what is told of a run, event by event.

A parse tells the length of the input, then every token it comes to, then how it
ended. Validation tells each violation. Each event has a `LogLevel`; a reader of
the log chooses the most detailed level to be told of.
-/

namespace CommandSyntax

/-- How detailed an event is. -/
inductive LogLevel where
  /-- Of general interest. -/
  | info
  /-- The course of a run. -/
  | debug
  /-- Every single step. -/
  | trace
deriving DecidableEq, Repr

namespace LogLevel

/-- The name of a level in a log. -/
def name : LogLevel → String
  | info => "INFO"
  | debug => "DEBUG"
  | trace => "TRACE"

/-- The rank of a level: the more detailed, the higher. -/
def rank : LogLevel → Nat
  | info => 0
  | debug => 1
  | trace => 2

end LogLevel

/-- Something told in a log. -/
inductive LogEvent where
  /-- A parse of an input of some length starts. -/
  | parsing (length : Nat)
  /-- The parse comes to a token. -/
  | token (token : Token)
  /-- The parse gives a script of some statements. -/
  | parsed (statements : Nat)
  /-- The parse ends with an error. -/
  | parseFailed (error : SyntaxError)
  /-- Validation finds a violation. -/
  | violation (violation : Violation)
deriving DecidableEq, Repr

namespace LogEvent

/-- The level of an event: tokens are single steps, all else is the course of a run. -/
def level : LogEvent → LogLevel
  | token _ => .trace
  | _ => .debug

/-- The headline of an event. -/
def message : LogEvent → String
  | parsing _ => "parsing input"
  | token _ => "token"
  | parsed _ => "parsed input"
  | parseFailed _ => "parse failed"
  | violation _ => "validation error"

end LogEvent

/-- A span as it is written in a log. -/
def Span.describe (span : Span) : String :=
  s!"Span \x7b start: {span.start}, end: {span.stop} \x7d"

/-- The log of a parse. -/
def parseLog (limits : ParseLimits) (input : String) : List LogEvent :=
  let outcome := runParse limits input
  let ending :=
    match outcome.result with
    | .ok script => LogEvent.parsed script.statements.length
    | .error error => LogEvent.parseFailed error
  .parsing (Text.width input.toList) :: (outcome.scanned.map .token ++ [ending])

/-- The log of a validation. -/
def validationLog (rules : Rules) (script : Script) : List LogEvent :=
  (script.violations rules).map .violation

/-- The events up to a level of detail. -/
def logUpTo (level : LogLevel) (events : List LogEvent) : List LogEvent :=
  events.filter fun event => event.level.rank ≤ level.rank

end CommandSyntax
