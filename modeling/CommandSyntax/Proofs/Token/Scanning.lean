import CommandSyntax.Proofs.Token.Tiling

/-!
# CommandSyntax.Proofs.Token.Scanning

**A scanner and a token stream tell the same.** `Scanner.Reads` is the run of a
scanner: it advances again and again, and each time it stands on the next token. A
scanner that follows a stream (`Scanner.Follows`) reads the lexemes of the stream
one by one, then the end marker or the error at which the stream ends.
-/

namespace CommandSyntax.Scanner

/-- Advancing from the first scanner to the second gives the tokens, in order. -/
inductive Reads : Scanner → List Token → Scanner → Prop
  /-- No advance gives no token. -/
  | nil (s : Scanner) : Reads s [] s
  /-- The first advance gives the first token. -/
  | cons {s s₁ s₂ : Scanner} {tokens : List Token} (h : s.advance = .ok s₁)
      (hrest : Reads s₁ tokens s₂) : Reads s (s₁.token :: tokens) s₂

variable {s s₁ s₂ : Scanner} {front back : List Token} {stream : TokenStream}

theorem Reads.trans (h : s.Reads front s₁) (h' : s₁.Reads back s₂) :
    s.Reads (front ++ back) s₂ := by
  induction h with
  | nil => exact h'
  | cons h _ ih => exact .cons h (ih h')

theorem advance_of_read_eq_ok {lexeme : Lexeme}
    (h : Lexeme.read s.token.stop s.rest = .ok lexeme) :
    s.advance = .ok { s with
      token := lexeme.token
      rest := s.rest.drop lexeme.text.length } := by
  simp only [advance, h]

theorem advance_of_read_eq_error {error : ScanError}
    (h : Lexeme.read s.token.stop s.rest = .error error) : s.advance = .error error := by
  simp only [advance, h]

/-- What the scanner has not read yet is a stream. -/
def Follows (s : Scanner) (stream : TokenStream) : Prop :=
  TokenStream.ofText s.token.stop s.rest = stream

theorem follows_ofString (input : String) :
    (ofString input).Follows (TokenStream.ofString input) := rfl

/-- At the end of its stream a scanner advances to the end marker. -/
theorem Follows.advance_finished {position : Nat} (h : s.Follows (.finished position)) :
    ∃ s₁, s.advance = .ok s₁ ∧ s₁.token = Token.endMarker position := by
  unfold Follows at h
  by_cases hrest : s.rest = []
  · rw [hrest, TokenStream.ofText_nil, TokenStream.finished.injEq] at h
    exact ⟨_, advance_of_read_eq_ok (by rw [hrest, Lexeme.read_nil]), by simp [h]⟩
  · cases hread : Lexeme.read s.token.stop s.rest with
    | ok lexeme => simp [TokenStream.ofText_of_read_eq_ok hrest hread] at h
    | error error => simp [TokenStream.ofText_of_read_eq_error hrest hread] at h

/-- Where its stream fails, a scanner fails to advance. -/
theorem Follows.advance_failed {error : ScanError} (h : s.Follows (.failed error)) :
    s.advance = .error error := by
  unfold Follows at h
  by_cases hrest : s.rest = []
  · simp [hrest] at h
  · cases hread : Lexeme.read s.token.stop s.rest with
    | ok lexeme => simp [TokenStream.ofText_of_read_eq_ok hrest hread] at h
    | error error' =>
      rw [TokenStream.ofText_of_read_eq_error hrest hread, TokenStream.failed.injEq] at h
      exact h ▸ advance_of_read_eq_error hread

theorem Follows.advance_next {lexeme : Lexeme} (h : s.Follows (.next lexeme stream)) :
    ∃ s₁, s.advance = .ok s₁ ∧ s₁.token = lexeme.token ∧ s₁.Follows stream := by
  unfold Follows at h
  by_cases hrest : s.rest = []
  · simp [hrest] at h
  · cases hread : Lexeme.read s.token.stop s.rest with
    | ok lexeme' =>
      rw [TokenStream.ofText_of_read_eq_ok hrest hread, TokenStream.next.injEq] at h
      obtain ⟨rfl, hstream⟩ := h
      exact ⟨_, advance_of_read_eq_ok hread, rfl, hstream⟩
    | error error => simp [TokenStream.ofText_of_read_eq_error hrest hread] at h

/-- A scanner reads what stands in front of its stream. -/
theorem Follows.reads {lexemes : List Lexeme}
    (h : s.Follows (TokenStream.prepend lexemes stream)) :
    ∃ s₁, s.Reads (lexemes.map Lexeme.token) s₁ ∧ s₁.Follows stream := by
  induction lexemes generalizing s with
  | nil => exact ⟨s, .nil s, h⟩
  | cons lexeme lexemes ih =>
    obtain ⟨s₁, hadvance, htoken, hfollows⟩ := h.advance_next
    obtain ⟨s₂, hreads, hs₂⟩ := ih hfollows
    refine ⟨s₂, ?_, hs₂⟩
    rw [List.map_cons, ← htoken]
    exact .cons hadvance hreads

end CommandSyntax.Scanner
