import CommandSyntax.Diagnostic
import CommandSyntax.Proofs.Token.Layout
import CommandSyntax.Proofs.Token.Unreadable
import Mathlib.Data.String.Basic

/-!
# CommandSyntax.Proofs.Token.Boundary

**Spans that point into an input**: both ends are boundaries between characters of the string,
in order and not past its end, and the span is located on the line that holds its start
(`Span.PointsInto`).

A piece of the text of an input has such a span (`Span.pointsInto_of_eq_append`), and so have
the lexemes of its stream (`TokenStream.pointsInto_of_mem`), the marker of its end and the bytes
that cannot be cut into tokens.
-/

namespace CommandSyntax

variable {input : String} {before inside after : List Char}

/-- The width of all text is the number of bytes of the string. -/
theorem Text.width_toList (input : String) : width input.toList = input.utf8ByteSize := by
  have hlen (text : List Char) : String.utf8Len text = width text := by
    induction text with
    | nil => rfl
    | cons c text ih => rw [String.utf8Len_cons, ih, width_cons, Nat.add_comm]
  rw [← hlen, ← String.utf8ByteSize_ofList, String.ofList_toList]

/-- An offset of a string that is neither past its end nor inside of a character. -/
def IsBoundary (input : String) (offset : Nat) : Prop := (String.Pos.Raw.mk offset).IsValid input

/-- A boundary is the end of some of the first characters. -/
theorem isBoundary_iff {offset : Nat} :
    IsBoundary input offset ↔
      ∃ before after, input.toList = before ++ after ∧ Text.width before = offset := by
  rw [IsBoundary, String.Pos.Raw.isValid_iff_exists_append]
  constructor
  · rintro ⟨front, back, rfl, hoffset⟩
    refine ⟨front.toList, back.toList, String.toList_append .., ?_⟩
    rw [Text.width_toList]
    exact (congrArg String.Pos.Raw.byteIdx hoffset).symm
  · rintro ⟨before, after, hinput, rfl⟩
    refine ⟨String.ofList before, String.ofList after, ?_, ?_⟩
    · rw [← String.ofList_append, ← hinput, String.ofList_toList]
    · rw [String.Pos.Raw.ext_iff, String.byteIdx_rawEndPos, ← Text.width_toList,
        String.toList_ofList]

namespace Span

variable {span other : Span}

/-- A span lies in an input and is located there. -/
structure PointsInto (span : Span) (input : String) : Prop where
  /-- The ends are in order. -/
  start_le_stop : span.start ≤ span.stop
  /-- The span ends in the input. -/
  stop_le : span.stop ≤ input.utf8ByteSize
  /-- It does not start inside of a character. -/
  start : IsBoundary input span.start
  /-- Nor does it end there. -/
  stop : IsBoundary input span.stop
  /-- The lines are counted by the newlines in front. -/
  line : ∃ before after, input.toList = before ++ after ∧ Text.width before = span.start ∧
    (span.locate input).line = 1 + before.count '\n'

/-- A span is located behind what is in front of it. -/
theorem line_locate (h : input.toList = before ++ after) (hstart : Text.width before = span.start) :
    (span.locate input).line = 1 + before.count '\n' := by
  have hle : span.start ≤ Text.width input.toList := by
    rw [h, Text.width_append, ← hstart]
    exact Nat.le_add_right ..
  have hdivide : Location.divide input.toList span.start = (before, after) := by
    rw [Location.divide, Nat.min_eq_left hle, h, ← hstart, Text.splitAt?_append, Option.getD_some]
  rw [locate, Location.ofOffset, hdivide, Nat.add_comm]

/-- A piece of the text lies in the input. -/
theorem pointsInto_of_eq_append (h : input.toList = before ++ (inside ++ after)) :
    PointsInto ⟨Text.width before, Text.width before + Text.width inside⟩ input where
  start_le_stop := Nat.le_add_right ..
  stop_le := by
    rw [← Text.width_toList, h, Text.width_append, Text.width_append, ← Nat.add_assoc]
    exact Nat.le_add_right ..
  start := isBoundary_iff.2 ⟨before, inside ++ after, h, rfl⟩
  stop := isBoundary_iff.2
    ⟨before ++ inside, after, by rw [h, List.append_assoc], Text.width_append ..⟩
  line := ⟨before, inside ++ after, h, rfl, line_locate h rfl⟩

/-- The end of an input lies in it. -/
theorem pointsInto_end (input : String) : (empty (Text.width input.toList)).PointsInto input := by
  have hend : input.toList = input.toList ++ ([] ++ []) := by simp
  simpa [empty] using pointsInto_of_eq_append hend

/-- A span from the start of one that points into the input to an end of another does too. -/
theorem PointsInto.to (h : span.PointsInto input) {offset : Nat} (hle : span.start ≤ offset)
    (hstop : offset ≤ input.utf8ByteSize) (hboundary : IsBoundary input offset) :
    PointsInto ⟨span.start, offset⟩ input :=
  ⟨hle, hstop, h.start, hboundary, h.line⟩

theorem PointsInto.merge (h : span.PointsInto input) (h' : other.PointsInto input) :
    (span.merge other).PointsInto input := by
  have := h.start_le_stop
  have := h'.start_le_stop
  have hle : max span.stop other.stop ≤ input.utf8ByteSize := Nat.max_le.2 ⟨h.stop_le, h'.stop_le⟩
  have hboundary : IsBoundary input (max span.stop other.stop) := by
    rcases Nat.le_total span.stop other.stop with hmax | hmax
    · rw [Nat.max_eq_right hmax]
      exact h'.stop
    · rw [Nat.max_eq_left hmax]
      exact h.stop
  rcases Nat.le_total span.start other.start with hmin | hmin
  · rw [Span.merge, Nat.min_eq_left hmin]
    exact h.to (by omega) hle hboundary
  · rw [Span.merge, Nat.min_eq_right hmin]
    exact h'.to (by omega) hle hboundary

end Span

/-- A lexeme that stands in an input lies in it. -/
theorem Lexeme.pointsInto {lexeme : Lexeme}
    (hinput : input.toList = before ++ (lexeme.text ++ after))
    (hstart : lexeme.start = Text.width before) : lexeme.span.PointsInto input := by
  rw [span, stop, hstart]
  exact Span.pointsInto_of_eq_append hinput

namespace TokenStream

variable {lexemes : List Lexeme} {stream : TokenStream}

/-- The lexemes of an input lie in it. -/
theorem pointsInto_of_mem (h : ofString input = prepend lexemes stream) :
    ∀ lexeme ∈ lexemes, lexeme.span.PointsInto input := by
  intro lexeme hmem
  obtain ⟨front, back, rfl⟩ := List.append_of_mem hmem
  obtain ⟨before, after, hinput, hstart⟩ := exists_around_of_ofString h
  exact Lexeme.pointsInto hinput hstart

/-- What cannot be cut into tokens lies in the input. -/
theorem pointsInto_of_failed {error : ScanError}
    (h : ofString input = prepend lexemes (.failed error)) : error.span.PointsInto input := by
  obtain ⟨rest, htext, hrest⟩ := eq_append_of_ofText h
  obtain ⟨-, hunreadable⟩ := unreadable_of_ofText hrest.symm
  obtain ⟨inside, after, rfl, -, hspan⟩ := hunreadable.exists_span
  rw [hspan, Nat.zero_add]
  exact Span.pointsInto_of_eq_append htext

end TokenStream

end CommandSyntax
