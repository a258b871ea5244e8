import CommandSyntax.Token.Rule

/-!
# CommandSyntax.Token.Lexeme

**Lexemes**: tokens that carry their text, and how the next one is read.

`Rule.firstToken` asks the rules in order, and `Lexeme.read` does so with
`Rule.table` and gives the accepted characters their place. A lexeme that is
read is the head of the text (`Lexeme.read_text`), and it is empty only at the
end (`Lexeme.read_text_ne_nil`).
-/

namespace CommandSyntax

/-- The kind and the length of the token at the head of a text, by the first rule
that does not pass. The text is what is left from a position of the input. -/
def Rule.firstToken : List Rule → Nat → List Char → Except ScanError (TokenKind × Nat)
  | [], position, _ => .error (.noMatch position)
  | rule :: rules, position, text =>
    match rule.scan text with
    | .pass => firstToken rules position text
    | .accept length => .ok (rule.kind, length)
    | .reject opening => .error (opening.unclosed ⟨position, position + Text.width text⟩)

/-- The rule that accepts is one of those asked. -/
theorem Rule.mem_of_firstToken_eq_ok {rules : List Rule} {position : Nat} {text : List Char}
    {kind : TokenKind} {length : Nat} (h : firstToken rules position text = .ok (kind, length)) :
    ∃ rule ∈ rules, rule.kind = kind ∧ rule.scan text = .accept length := by
  induction rules with
  | nil => simp [firstToken] at h
  | cons rule rules ih =>
    simp only [firstToken] at h
    split at h
    · obtain ⟨other, hmem, hother⟩ := ih h
      exact ⟨other, List.mem_cons_of_mem _ hmem, hother⟩
    · rename_i hscan
      simp only [Except.ok.injEq, Prod.mk.injEq] at h
      exact ⟨rule, List.mem_cons_self, h.1, h.2 ▸ hscan⟩
    · simp at h

/-- A piece of the input with its kind and its place. -/
structure Lexeme where
  /-- The kind of the piece. -/
  kind : TokenKind
  /-- The offset of its first byte. -/
  start : Nat
  /-- Its characters. -/
  text : List Char
deriving DecidableEq, Repr

namespace Lexeme

/-- The marker of the end of the input, at a position. -/
def endMarker (position : Nat) : Lexeme := ⟨.stop, position, []⟩

/-- The offset just past the lexeme. -/
def stop (lexeme : Lexeme) : Nat := lexeme.start + Text.width lexeme.text

/-- The bytes of the lexeme. -/
def span (lexeme : Lexeme) : Span := ⟨lexeme.start, lexeme.stop⟩

/-- The lexeme without its text. -/
def token (lexeme : Lexeme) : Token := ⟨lexeme.kind, lexeme.start, Text.width lexeme.text⟩

@[simp] theorem stop_token (lexeme : Lexeme) : lexeme.token.stop = lexeme.stop := rfl
@[simp] theorem span_token (lexeme : Lexeme) : lexeme.token.span = lexeme.span := rfl
@[simp] theorem token_endMarker (position : Nat) :
    (endMarker position).token = Token.endMarker position := rfl
@[simp] theorem stop_endMarker (position : Nat) : (endMarker position).stop = position := rfl

/-- Reads the lexeme at the head of a text that is left from a position. -/
def read (position : Nat) (text : List Char) : Except ScanError Lexeme :=
  match Rule.firstToken Rule.table position text with
  | .ok (kind, length) => .ok ⟨kind, position, text.take length⟩
  | .error error => .error error

theorem read_start {position : Nat} {text : List Char} {lexeme : Lexeme}
    (h : read position text = .ok lexeme) : lexeme.start = position := by
  simp only [read] at h
  split at h
  · simp only [Except.ok.injEq] at h
    simp [← h]
  · simp at h

/-- A lexeme that is read is the head of the text. -/
theorem read_text {position : Nat} {text : List Char} {lexeme : Lexeme}
    (h : read position text = .ok lexeme) :
    lexeme.text = text.take lexeme.text.length := by
  simp only [read] at h
  split at h
  · simp only [Except.ok.injEq] at h
    simp [← h, List.take_eq_take_iff]
  · simp at h

/-- Before the end of the input a lexeme has a character. -/
theorem read_text_ne_nil {position : Nat} {text : List Char} {lexeme : Lexeme}
    (htext : text ≠ []) (h : read position text = .ok lexeme) : lexeme.text ≠ [] := by
  simp only [read] at h
  split at h
  · rename_i kind length hfirst
    simp only [Except.ok.injEq] at h
    obtain ⟨rule, hmem, _, hscan⟩ := Rule.mem_of_firstToken_eq_ok hfirst
    have := (Rule.fits_of_mem_table rule hmem hscan).2 htext
    simp only [← h, ne_eq, List.take_eq_nil_iff, not_or]
    exact ⟨by omega, htext⟩
  · simp at h

/-- Before the end of the input, less text is left after a lexeme. -/
theorem length_drop_lt_of_read {position : Nat} {text : List Char} {lexeme : Lexeme}
    (htext : text ≠ []) (h : read position text = .ok lexeme) :
    (text.drop lexeme.text.length).length < text.length := by
  have := List.length_pos_iff.2 (read_text_ne_nil htext h)
  have := List.length_pos_iff.2 htext
  rw [List.length_drop]
  omega

end Lexeme

end CommandSyntax
