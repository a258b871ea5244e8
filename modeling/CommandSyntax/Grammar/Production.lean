import CommandSyntax.SyntaxError
import CommandSyntax.Token.Stream

/-!
# CommandSyntax.Grammar.Production

**Productions**: the steps from which the grammar is built. A production reads
tokens from a cursor and gives a value or fails, and either way it leaves the
cursor where it came to.

Design points:

* The cursor stands on one lexeme, and a production decides by that lexeme
  alone. Moving on (`advance`) is the only step that looks further, and the only
  one that meets the end of a failed stream.
* The cursor records every token it has come to (`Cursor.scanned`), so that what
  a parse reads can be told apart from what the input holds.
* `loop` repeats a round. A round that goes on has to move the cursor forward;
  one that does not is the last, so every loop ends, whatever its rounds do.
-/

namespace CommandSyntax

/-- A place in a token stream. -/
structure Cursor where
  /-- The lexeme that the cursor stands on. -/
  current : Lexeme
  /-- What follows that lexeme. -/
  ahead : TokenStream
  /-- The end of the last lexeme left behind that was not whitespace. -/
  lastEnd : Nat
  /-- The tokens that the cursor has come to, the latest first. -/
  scanned : List Token
  /-- The number of bytes of the input. -/
  size : Nat

namespace Cursor

/-- The cursor before the first token of an input. -/
def ofString (input : String) : Cursor where
  current := Lexeme.endMarker 0
  ahead := TokenStream.ofString input
  lastEnd := 0
  scanned := []
  size := Text.width input.toList

/-- The number of bytes from the current lexeme to the end of the input. -/
def left (cursor : Cursor) : Nat := cursor.size - cursor.current.start

/-- Stands on another lexeme. -/
def moveTo (cursor : Cursor) (lexeme : Lexeme) (ahead : TokenStream) : Cursor :=
  { cursor with
    current := lexeme
    ahead := ahead
    scanned := lexeme.token :: cursor.scanned }

end Cursor

/-- A step of the grammar: reads from a cursor and gives a value or an error. -/
abbrev Production (α : Type) := EStateM SyntaxError Cursor α

namespace Production

/-! ### Looking -/

/-- The lexeme that the cursor stands on. -/
def current : Production Lexeme := fun cursor => .ok cursor.current cursor

/-- The end of the last lexeme left behind that was not whitespace. -/
def lastEnd : Production Nat := fun cursor => .ok cursor.lastEnd cursor

/-- Fails with an error. -/
def fail {α : Type} (error : SyntaxError) : Production α := fun cursor => .error error cursor

/-! ### Moving -/

/-- Goes to the next lexeme. The end marker follows itself. -/
def advance : Production Unit := fun cursor =>
  match cursor.ahead with
  | .finished position =>
    .ok () (cursor.moveTo (Lexeme.endMarker position) (.finished position))
  | .failed error => .error (.scan error) cursor
  | .next lexeme rest => .ok () (cursor.moveTo lexeme rest)

/-- Notes the end of the current lexeme, unless it is whitespace. -/
def markEnd : Production Unit := fun cursor =>
  .ok () (if cursor.current.kind = .whitespace then cursor
    else { cursor with lastEnd := cursor.current.stop })

/-- Leaves the current lexeme behind and gives it. -/
def take : Production Lexeme := do
  let lexeme ← current
  markEnd
  advance
  return lexeme

/-- Leaves the current lexeme behind if it is of a kind; tells whether it was. -/
def accept (kind : TokenKind) : Production Bool := do
  let lexeme ← current
  if lexeme.kind = kind then
    let _ ← take
    return true
  else
    return false

/-- Leaves the current lexeme behind, which has to be of a kind. -/
def require (kind : TokenKind) : Production Lexeme := do
  let lexeme ← current
  if lexeme.kind = kind then
    take
  else
    fail (.unexpectedToken kind lexeme.kind lexeme.span)

/-! ### Repetition -/

/-- Repeats a round on a state until it is done. A round that goes on without
moving the cursor forward is the last one. -/
def loop {σ : Type} (round : σ → Production (ForInStep σ)) (state : σ) (cursor : Cursor) :
    EStateM.Result SyntaxError Cursor σ :=
  match round state cursor with
  | .error error cursor' => .error error cursor'
  | .ok (.done state') cursor' => .ok state' cursor'
  | .ok (.yield state') cursor' =>
    if cursor'.left < cursor.left then loop round state' cursor' else .ok state' cursor'
termination_by cursor.left

/-- Skips any whitespace. -/
def skipWhitespace : Production Unit :=
  loop (fun _ => do
    if ← accept .whitespace then return .yield () else return .done ()) ()

/-! ### What the steps do to a cursor -/

variable {α β σ : Type} {cursor cursor' : Cursor} {kind : TokenKind}

@[simp] theorem current_apply : current cursor = .ok cursor.current cursor := rfl

@[simp] theorem lastEnd_apply : lastEnd cursor = .ok cursor.lastEnd cursor := rfl

@[simp] theorem fail_apply (error : SyntaxError) :
    (fail error : Production α) cursor = .error error cursor := rfl

@[simp] theorem pure_apply (value : α) : (pure value : Production α) cursor = .ok value cursor :=
  rfl

theorem bind_of_eq_ok {first : Production α} {value : α} (next : α → Production β)
    (h : first cursor = .ok value cursor') : (first >>= next) cursor = next value cursor' := by
  simp only [bind, EStateM.bind, h]

theorem bind_of_eq_error {first : Production α} {error : SyntaxError} (next : α → Production β)
    (h : first cursor = .error error cursor') :
    (first >>= next) cursor = .error error cursor' := by
  simp only [bind, EStateM.bind, h]

theorem accept_of_kind_ne (h : cursor.current.kind ≠ kind) :
    accept kind cursor = .ok false cursor := by
  simp [accept, bind, EStateM.bind, h]

theorem accept_of_kind_eq (h : cursor.current.kind = kind) :
    accept kind cursor = (do let _ ← take; return true : Production Bool) cursor := by
  simp [accept, bind, EStateM.bind, h]

theorem require_of_kind_ne (h : cursor.current.kind ≠ kind) :
    require kind cursor =
      .error (.unexpectedToken kind cursor.current.kind cursor.current.span) cursor := by
  simp [require, bind, EStateM.bind, h]

theorem require_of_kind_eq (h : cursor.current.kind = kind) :
    require kind cursor = take cursor := by
  simp [require, bind, EStateM.bind, h]

/-! ### What a loop does, by its next round -/

variable {round : σ → Production (ForInStep σ)} {state state' : σ}

theorem loop_of_done (h : round state cursor = .ok (.done state') cursor') :
    loop round state cursor = .ok state' cursor' := by
  rw [loop, h]

theorem loop_of_error {error : SyntaxError} (h : round state cursor = .error error cursor') :
    loop round state cursor = .error error cursor' := by
  rw [loop, h]

theorem loop_of_yield (h : round state cursor = .ok (.yield state') cursor')
    (hleft : cursor'.left < cursor.left) :
    loop round state cursor = loop round state' cursor' := by
  rw [loop, h]
  exact if_pos hleft

end Production

end CommandSyntax
