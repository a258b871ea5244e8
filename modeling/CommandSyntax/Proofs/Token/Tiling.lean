import CommandSyntax.Token.Scanner
import CommandSyntax.Token.Stream
import Mathlib.Data.List.Nodup

/-!
# CommandSyntax.Proofs.Token.Tiling

**Token streams tile their input.** The lexemes of a stream follow each other
without a gap, and each of them is read from what is left of the input
(`TokenStream.Tiles`, `TokenStream.tiles_ofText`). So none of them is empty, and
none is an end marker: that one stands for the end itself.

`TokenStream.prepend` puts lexemes in front of a stream. Every fact about the part
of an input that lies behind a cursor is a fact about such a front part.
-/

namespace CommandSyntax

/-! ### Only the end reads as the end marker -/

/-- There is one rule for each kind. -/
theorem Rule.eq_of_kind_eq {rule other : Rule} (h : rule ∈ table) (h' : other ∈ table)
    (hkind : rule.kind = other.kind) : rule = other :=
  List.inj_on_of_nodup_map (map_kind_table ▸ by decide : (table.map kind).Nodup) h h' hkind

namespace Lexeme

variable {position : Nat} {text : List Char} {lexeme : Lexeme}

@[simp] theorem read_nil (position : Nat) : read position [] = .ok (endMarker position) := rfl

/-- Before the end of the input no end marker is read. -/
theorem kind_ne_stop_of_read (htext : text ≠ []) (h : read position text = .ok lexeme) :
    lexeme.kind ≠ .stop := by
  intro hstop
  simp only [read] at h
  split at h
  · rename_i kind length hfirst
    simp only [Except.ok.injEq] at h
    subst h
    obtain ⟨rule, hmem, hkind, hscan⟩ := Rule.mem_of_firstToken_eq_ok hfirst
    -- the rule is `stop`, which accepts nothing before the end
    obtain rfl : rule = Rule.stop :=
      Rule.eq_of_kind_eq hmem (by simp [Rule.table]) (hkind.trans hstop)
    obtain ⟨c, text, rfl⟩ := List.exists_cons_of_ne_nil htext
    simp [Rule.stop] at hscan
  · simp at h

/-- What is read and what is left are the text. -/
theorem text_append_drop_of_read (h : read position text = .ok lexeme) :
    lexeme.text ++ text.drop lexeme.text.length = text := by
  have htext := read_text h
  generalize lexeme.text.length = n at htext
  rw [htext, List.take_append_drop]

/-- A lexeme that some scan reads before the end of its input. -/
def Scanned (lexeme : Lexeme) : Prop :=
  ∃ text, text ≠ [] ∧ read lexeme.start text = .ok lexeme

theorem scanned_of_read (htext : text ≠ []) (h : read position text = .ok lexeme) :
    lexeme.Scanned :=
  ⟨text, htext, by rw [read_start h, h]⟩

theorem Scanned.kind_ne_stop (h : lexeme.Scanned) : lexeme.kind ≠ .stop := by
  obtain ⟨text, htext, hread⟩ := h
  exact kind_ne_stop_of_read htext hread

theorem Scanned.text_ne_nil (h : lexeme.Scanned) : lexeme.text ≠ [] := by
  obtain ⟨text, htext, hread⟩ := h
  exact read_text_ne_nil htext hread

theorem lt_stop_of_text_ne_nil (h : lexeme.text ≠ []) : lexeme.start < lexeme.stop := by
  have := List.length_pos_iff.2 h
  have := Text.length_le_width lexeme.text
  simp only [stop]
  omega

end Lexeme

namespace TokenStream

/-! ### Tiling -/

/-- The lexemes of a stream tile the bytes from a position to the size of the
input, unless the stream fails before. -/
inductive Tiles (size : Nat) : Nat → TokenStream → Prop
  /-- Nothing is left at the end. -/
  | finished : Tiles size size (.finished size)
  /-- A failed stream fails before the end. -/
  | failed {position : Nat} (error : ScanError) (h : position ≤ size) :
      Tiles size position (.failed error)
  /-- Where a lexeme stops the next one starts. -/
  | next {lexeme : Lexeme} {rest : TokenStream} (hscanned : lexeme.Scanned)
      (hrest : Tiles size lexeme.stop rest) : Tiles size lexeme.start (.next lexeme rest)

theorem Tiles.le {size position : Nat} {stream : TokenStream} (h : Tiles size position stream) :
    position ≤ size := by
  induction h with
  | finished => exact Nat.le_refl _
  | failed _ h => exact h
  | next hscanned _ ih =>
    have := Lexeme.lt_stop_of_text_ne_nil hscanned.text_ne_nil
    omega

/-- The stream of a text tiles it. -/
theorem tiles_ofText (position : Nat) (text : List Char) :
    Tiles (position + Text.width text) position (ofText position text) := by
  fun_induction ofText position text with
  | case1 position => simpa using Tiles.finished
  | case2 position text htext error hread => exact .failed error (Nat.le_add_right ..)
  | case3 position text htext lexeme hread ih =>
    -- the lexeme and what is dropped after it make up the text again
    have hwidth := congrArg Text.width (Lexeme.text_append_drop_of_read hread)
    have hsize : lexeme.stop + Text.width (text.drop lexeme.text.length) =
        position + Text.width text := by
      simp only [Text.width_append] at hwidth
      simp only [Lexeme.stop, Lexeme.read_start hread]
      omega
    rw [hsize] at ih
    have := Tiles.next (Lexeme.scanned_of_read htext hread) ih
    rwa [Lexeme.read_start hread] at this

/-! ### Lexemes in front of a stream -/

/-- Lexemes followed by a stream. -/
def prepend : List Lexeme → TokenStream → TokenStream
  | [], stream => stream
  | lexeme :: lexemes, stream => .next lexeme (prepend lexemes stream)

@[simp] theorem prepend_nil (stream : TokenStream) : prepend [] stream = stream := rfl

@[simp] theorem prepend_cons (lexeme : Lexeme) (lexemes : List Lexeme) (stream : TokenStream) :
    prepend (lexeme :: lexemes) stream = .next lexeme (prepend lexemes stream) := rfl

theorem prepend_append (front back : List Lexeme) (stream : TokenStream) :
    prepend (front ++ back) stream = prepend front (prepend back stream) := by
  induction front with
  | nil => rfl
  | cons lexeme front ih => simp [ih]

theorem tokens_prepend_eq_ok {lexemes : List Lexeme} {stream : TokenStream} {tokens : List Token}
    (h : stream.tokens = .ok tokens) :
    (prepend lexemes stream).tokens = .ok (lexemes.map Lexeme.token ++ tokens) := by
  induction lexemes with
  | nil => simpa using h
  | cons lexeme lexemes ih => simp [TokenStream.tokens, ih]

theorem tokens_prepend_eq_error {lexemes : List Lexeme} {stream : TokenStream}
    {error : ScanError} (h : stream.tokens = .error error) :
    (prepend lexemes stream).tokens = .error error := by
  induction lexemes with
  | nil => simpa using h
  | cons lexeme lexemes ih => simp [TokenStream.tokens, ih]

/-- A stream that ends has further lexemes behind those in front. -/
theorem eq_append_of_prepend_eq {front lexemes : List Lexeme} {stream : TokenStream}
    {position : Nat} (h : prepend front stream = prepend lexemes (.finished position)) :
    ∃ back, lexemes = front ++ back ∧ stream = prepend back (.finished position) := by
  induction front generalizing lexemes with
  | nil => exact ⟨lexemes, rfl, h⟩
  | cons lexeme front ih =>
    cases lexemes with
    | nil => simp at h
    | cons lexeme' lexemes =>
      rw [prepend_cons, prepend_cons, next.injEq] at h
      obtain ⟨rfl, h⟩ := h
      obtain ⟨back, rfl, hstream⟩ := ih h
      exact ⟨back, rfl, hstream⟩

/-- A stream without a failure is its lexemes up to the end. -/
theorem eq_prepend_finished {stream : TokenStream} {tokens : List Token}
    (h : stream.tokens = .ok tokens) :
    ∃ position, stream = prepend stream.lexemes (.finished position) ∧
      tokens = stream.lexemes.map Lexeme.token ++ [Token.endMarker position] := by
  induction stream generalizing tokens with
  | finished position =>
    simp only [TokenStream.tokens, Except.ok.injEq] at h
    exact ⟨position, rfl, by simp [← h, TokenStream.lexemes]⟩
  | failed error => simp [TokenStream.tokens] at h
  | next lexeme rest ih =>
    simp only [TokenStream.tokens] at h
    split at h
    · rename_i tokens' htokens
      obtain ⟨position, hrest, rfl⟩ := ih htokens
      simp only [Except.ok.injEq] at h
      refine ⟨position, ?_, by simp [← h, TokenStream.lexemes]⟩
      rw [TokenStream.lexemes, prepend_cons, ← hrest]
    · simp at h

end TokenStream

end CommandSyntax
