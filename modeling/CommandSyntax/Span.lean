import CommandSyntax.Text

/-!
# CommandSyntax.Span

**Byte ranges** of a source text. A span is half open: it holds the bytes from
`start` up to, but not including, `stop`.

Spans that a scan or a parse produces are in order and end on character
boundaries. A span may also be read from outside, so nothing here assumes
either: the length of a reversed span is zero, and its slice is empty.
-/

namespace CommandSyntax

/-- A half-open range of bytes of a source text. -/
@[ext] structure Span where
  /-- The offset of the first byte. -/
  start : Nat
  /-- The offset just past the last byte. -/
  stop : Nat
deriving DecidableEq, Repr, Inhabited

namespace Span

/-- The span without bytes at a position. -/
def empty (position : Nat) : Span := ⟨position, position⟩

/-- The number of bytes, zero when the ends are reversed. -/
def length (span : Span) : Nat := span.stop - span.start

/-- Whether both ends coincide. -/
def isEmpty (span : Span) : Bool := span.start == span.stop

/-- The smallest span that covers both. -/
def merge (left right : Span) : Span where
  start := min left.start right.start
  stop := max left.stop right.stop

/-- The text of a source inside the span, empty when the span does not fit. -/
def slice (span : Span) (source : String) : String :=
  String.ofList ((Text.slice? span.start span.stop source.toList).getD [])

@[simp] theorem start_empty (position : Nat) : (empty position).start = position := rfl
@[simp] theorem stop_empty (position : Nat) : (empty position).stop = position := rfl
@[simp] theorem length_empty (position : Nat) : (empty position).length = 0 := by
  simp [length]
@[simp] theorem isEmpty_iff (span : Span) : span.isEmpty = true ↔ span.start = span.stop := by
  simp [isEmpty]

@[simp] theorem start_merge (left right : Span) :
    (left.merge right).start = min left.start right.start := rfl
@[simp] theorem stop_merge (left right : Span) :
    (left.merge right).stop = max left.stop right.stop := rfl

end Span

end CommandSyntax
