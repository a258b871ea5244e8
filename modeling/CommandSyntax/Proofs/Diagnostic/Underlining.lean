import CommandSyntax.Proofs.Diagnostic.Locating

/-!
# CommandSyntax.Proofs.Diagnostic.Underlining

**How carets stand under a span.** The last two rows of a diagnostic are a row of the source and a
row of carets (`lines_diagnostic`). Carets that underline the span would stand behind a bar in the
column of the bar above, from the character at the start of the span on, and would be as many as the
span has characters on that line (`Span.Underlined`).

They never do: a line number takes at least three columns, and a blank stands behind it, but the
caret row has three columns in front of its bar. So the caret row stands to the left of the source
row by one column, and by more when the number has more than three digits. Up to that shift the
first caret is right. There are as many carets as the span has bytes (`Span.Underscored`), which is
right only for a span that is a single byte or that has only characters of one byte and no newline.
-/

namespace CommandSyntax

open Text

variable {source message : String} {span : Span} {place : Location}
variable {before inside after : List Char}

/-! ### The rows of a diagnostic -/

namespace Location

/-- The number of the line, in at least three columns. -/
def number (place : Location) : List Char := (toString place.line).toList.leftpad 3 ' '

/-- The row that shows the line. -/
def sourceRow (place : Location) : List Char :=
  place.number ++ ' ' :: '|' :: ' ' :: place.text.toList

/-- The row with carets below. -/
def caretRow (place : Location) (carets : Nat) : List Char :=
  [' ', ' ', ' ', '|', ' '] ++ (List.replicate place.column ' ' ++ List.replicate carets '^')

theorem length_number (place : Location) :
    place.number.length = max 3 (toString place.line).length := by
  rw [number, List.length_leftpad, String.length_toList]

theorem isDigit_of_mem_number {c : Char} (h : c ∈ place.number) : c = ' ' ∨ c.isDigit := by
  rw [number, List.leftpad, List.mem_append] at h
  rcases h with hblank | hdigit
  · exact .inl (List.eq_of_mem_replicate hblank)
  · rw [Nat.toString_eq_repr, Nat.toList_repr] at hdigit
    exact .inr (Nat.isDigit_of_mem_toDigits (by decide) (by decide) hdigit)

theorem notMem_number {c : Char} (hblank : c ≠ ' ') (hdigit : c.isDigit = false) :
    c ∉ place.number := by
  intro h
  rcases isDigit_of_mem_number h with heq | heq
  · exact hblank heq
  · simp [hdigit] at heq

/-- The bar of the source row stands behind the number and a blank. -/
theorem idxOf_sourceRow (place : Location) :
    place.sourceRow.idxOf '|' = place.number.length + 1 := by
  rw [sourceRow, List.idxOf_append, if_neg (notMem_number (by decide) (by decide)), Nat.add_comm]
  simp

theorem idxOf_bar_caretRow (place : Location) (carets : Nat) :
    (place.caretRow carets).idxOf '|' = 3 := rfl

theorem idxOf_caret_caretRow (place : Location) (carets : Nat) (h : 0 < carets) :
    (place.caretRow carets).idxOf '^' = 5 + place.column := by
  obtain ⟨n, rfl⟩ := Nat.exists_eq_succ_of_ne_zero (Nat.ne_of_gt h)
  rw [caretRow, List.idxOf_append, if_neg (by decide), List.idxOf_append,
    if_neg (by simp [List.mem_replicate])]
  simp [List.replicate_succ]
  omega

theorem count_caretRow (place : Location) (carets : Nat) :
    (place.caretRow carets).count '^' = carets := by
  simp [caretRow, List.count_append, List.count_replicate]

end Location

/-- The rows above the row of the source. -/
def rowsAbove (place : Location) (message : String) : List (List Char) :=
  ["error: ".toList ++ message.toList,
    s!"  --> line {place.line}, column {place.column + 1}".toList,
    "   |".toList]

/-- A decimal number has no newline. -/
theorem newline_notMem_toDigits (n : Nat) : '\n' ∉ Nat.toDigits 10 n := fun h =>
  absurd (Nat.isDigit_of_mem_toDigits (by decide) (by decide) h) (by decide)

theorem newline_notMem_rowsAbove (place : Location) (h : '\n' ∉ message.toList) :
    ∀ row ∈ rowsAbove place message, '\n' ∉ row := by
  have hstring (text : String) : toString text = text := rfl
  simp [rowsAbove, hstring, h, newline_notMem_toDigits]

/-- The rows of a diagnostic. -/
theorem lines_diagnostic (source : String) (span : Span) (h : '\n' ∉ message.toList) :
    lines (diagnostic source span message).toList =
      rowsAbove (span.locate source) message ++
        [(span.locate source).sourceRow, (span.locate source).caretRow (max span.length 1)] := by
  have htext : '\n' ∉ (span.locate source).text.toList :=
    newline_not_mem_of_mem_lines (Location.text_ofOffset_mem source.toList span.start)
  generalize hplace : span.locate source = place at *
  have hrows : ∀ row ∈ rowsAbove place message ++ [place.sourceRow], '\n' ∉ row := by
    have hnumber : '\n' ∉ place.number := Location.notMem_number (by decide) (by decide)
    have hsource : '\n' ∉ place.sourceRow := by simp [Location.sourceRow, hnumber, htext]
    simpa [or_imp, forall_and] using ⟨newline_notMem_rowsAbove place h, hsource⟩
  have hcarets : '\n' ∉ place.caretRow (max span.length 1) := by
    simp [Location.caretRow, List.mem_replicate]
  have hshown : (diagnostic source span message).toList =
      ended (rowsAbove place message ++ [place.sourceRow]) ++
        place.caretRow (max span.length 1) := by
    have hstring (text : String) : toString text = text := rfl
    simp [diagnostic, hplace, hstring, rowsAbove, Location.sourceRow, Location.caretRow,
      Location.number]
  rw [hshown, lines_ended_append hrows, lines_of_newline_not_mem hcarets, List.append_assoc]
  rfl

/-! ### Underlining -/

namespace Span

/-- The characters of a span on the line on which it starts. -/
def onLine (span : Span) (source : String) : List Char :=
  (span.slice source).toList.takeWhile (· ≠ '\n')

/-- The characters from the start of a span to the end of its line. -/
def restOfLine (span : Span) (source : String) : List Char :=
  onLine ⟨span.start, source.utf8ByteSize⟩ source

/-- A row of carets underlines a span in the row of the source above. -/
structure Underlined (span : Span) (source : String) (sourceRow caretRow : List Char) : Prop where
  /-- The bars stand in the same column. -/
  bar_eq : caretRow.idxOf '|' = sourceRow.idxOf '|'
  /-- The first caret stands where the span starts in the row of the source. -/
  caret_eq : ∃ front, sourceRow = front ++ span.restOfLine source ∧
    caretRow.idxOf '^' = front.length
  /-- There are as many carets as characters, but at least one. -/
  count_eq : caretRow.count '^' = max 1 (span.onLine source).length

/-- How a row of carets does stand below the row of the source. -/
structure Underscored (span : Span) (source : String) (sourceRow caretRow : List Char) : Prop where
  /-- The bar of the caret row is in the fourth column. -/
  caretBar_eq : caretRow.idxOf '|' = 3
  /-- The bar of the source row is behind the number of the line, in three columns or more. -/
  sourceBar_eq : sourceRow.idxOf '|' = max 3 (toString (span.locate source).line).length + 1
  /-- The first caret is to the left of where the span starts by as much as the bars differ. -/
  caret_eq : ∃ front, sourceRow = front ++ span.restOfLine source ∧
    caretRow.idxOf '^' + (sourceRow.idxOf '|' - caretRow.idxOf '|') = front.length
  /-- There are as many carets as bytes, but at least one. -/
  count_eq : caretRow.count '^' = max 1 span.length
  /-- That is as many as characters for one byte at most, and for characters of one byte on one
  line; else it is more. -/
  count_eq_iff : caretRow.count '^' = max 1 (span.onLine source).length ↔
    span.length ≤ 1 ∨ ∀ c ∈ (span.slice source).toList, c ≠ '\n' ∧ c.utf8Size = 1
  /-- There are never too few carets. -/
  le_count : max 1 (span.onLine source).length ≤ caretRow.count '^'

/-- Such rows do not underline the span: the bars never stand in the same column. -/
theorem Underscored.not_underlined {sourceRow caretRow : List Char}
    (h : span.Underscored source sourceRow caretRow) :
    ¬ span.Underlined source sourceRow caretRow := by
  intro h'
  have hbar := h'.bar_eq
  rw [h.caretBar_eq, h.sourceBar_eq] at hbar
  omega

/-! ### Characters and bytes of a span -/

/-- Between two boundaries there is a piece of the source. -/
theorem exists_between (hstart : IsBoundary source span.start) (hstop : IsBoundary source span.stop)
    (hle : span.start ≤ span.stop) :
    ∃ before inside after, source.toList = before ++ (inside ++ after) ∧
      width before = span.start ∧ width inside = span.length := by
  obtain ⟨before, rest, hsource, hbefore⟩ := isBoundary_iff.1 hstart
  obtain ⟨front, after, hsource', hfront⟩ := isBoundary_iff.1 hstop
  rcases List.append_eq_append_iff.1 (hsource.symm.trans hsource') with
    ⟨inside, rfl, rfl⟩ | ⟨overlap, rfl, rfl⟩
  · refine ⟨before, inside, after, hsource, hbefore, ?_⟩
    rw [width_append] at hfront
    rw [length]
    omega
  · -- then nothing is between them
    rw [width_append] at hbefore
    exact ⟨front ++ overlap, [], rest, hsource, by rw [width_append, hbefore], by
      rw [length, width_nil]; omega⟩

theorem slice_of_eq_append (hsource : source.toList = before ++ (inside ++ after))
    (hbefore : width before = span.start) (hinside : width inside = span.length)
    (hle : span.start ≤ span.stop) : (span.slice source).toList = inside := by
  have hstop : span.stop = width before + width inside := by
    rw [hbefore, hinside, length]
    omega
  rw [slice, hsource, ← List.append_assoc, ← hbefore, hstop, slice?_append, Option.getD_some,
    String.toList_ofList]

theorem restOfLine_of_eq_append (hsource : source.toList = before ++ after)
    (hbefore : width before = span.start) :
    span.restOfLine source = after.takeWhile (· ≠ '\n') := by
  have hend : source.utf8ByteSize = width before + width after := by
    rw [← Text.width_toList, hsource, width_append]
  have hsource' : source.toList = before ++ (after ++ []) := by rw [List.append_nil, hsource]
  have hrest : (slice ⟨span.start, source.utf8ByteSize⟩ source).toList = after := by
    refine slice_of_eq_append hsource' hbefore ?_ ?_
    · rw [length, hend, ← hbefore, Nat.add_sub_cancel_left]
    · rw [hend, ← hbefore]
      exact Nat.le_add_right ..
  rw [restOfLine, onLine, hrest]

end Span

/-- A text has as many bytes as characters when each is a single byte. -/
theorem Text.width_eq_length_iff (text : List Char) :
    width text = text.length ↔ ∀ c ∈ text, c.utf8Size = 1 := by
  induction text with
  | nil => simp
  | cons c text ih =>
    have hpos := c.utf8Size_pos
    have hle := length_le_width text
    rw [List.forall_mem_cons, ← ih, width_cons, List.length_cons]
    omega

/-- The characters up to the first newline are not more than the bytes. -/
theorem Text.length_takeWhile_le_width (text : List Char) :
    (text.takeWhile (· ≠ '\n')).length ≤ width text :=
  Nat.le_trans (List.takeWhile_prefix _).length_le (length_le_width text)

/-- They are as many only when there is no newline and each is a single byte, or there is one byte
at most. -/
theorem Text.max_width_eq_iff (text : List Char) :
    max 1 (width text) = max 1 (text.takeWhile (· ≠ '\n')).length ↔
      width text ≤ 1 ∨ ∀ c ∈ text, c ≠ '\n' ∧ c.utf8Size = 1 := by
  have hprefix : text.takeWhile (· ≠ '\n') <+: text := List.takeWhile_prefix _
  have hlength := hprefix.length_le
  have hwidth := length_le_width text
  have hall : (text.takeWhile (· ≠ '\n')).length = text.length ↔ ∀ c ∈ text, c ≠ '\n' := by
    constructor
    · intro h
      rw [← hprefix.eq_of_length h]
      intro c hmem
      simpa using List.mem_takeWhile_imp hmem
    · intro h
      rw [takeWhile_of_newline_not_mem fun hmem => h _ hmem rfl]
  rw [forall₂_and, ← hall, ← width_eq_length_iff]
  omega

/-- **The rows of a diagnostic.** The caret row stands to the left of the row of the source, by as
much as the number of the line takes more than two columns, so it never underlines the span; up to
that the first caret stands under the start of the span. The carets are as many as the bytes. -/
theorem underscored_diagnostic (hstart : IsBoundary source span.start)
    (hstop : IsBoundary source span.stop) (hle : span.start ≤ span.stop)
    (hmessage : '\n' ∉ message.toList) :
    ∃ above sourceRow caretRow,
      lines (diagnostic source span message).toList = above ++ [sourceRow, caretRow] ∧
        span.Underscored source sourceRow caretRow ∧
        ¬ span.Underlined source sourceRow caretRow := by
  obtain ⟨before, inside, after, hsource, hbefore, hinside⟩ :=
    Span.exists_between hstart hstop hle
  have hslice := Span.slice_of_eq_append hsource hbefore hinside hle
  have hplace : span.locate source = Location.behind before (inside ++ after) := by
    rw [Span.locate, hsource, ← hbefore, Location.ofOffset_width]
  have hcarets : 0 < max span.length 1 := by omega
  suffices hunder : span.Underscored source (span.locate source).sourceRow
      ((span.locate source).caretRow (max span.length 1)) from
    ⟨_, _, _, lines_diagnostic source span hmessage, hunder, hunder.not_underlined⟩
  constructor
  · exact Location.idxOf_bar_caretRow ..
  · rw [Location.idxOf_sourceRow, Location.length_number]
  · refine ⟨(span.locate source).number ++ ' ' :: '|' :: ' ' :: lastLine before, ?_, ?_⟩
    · rw [Span.restOfLine_of_eq_append hsource hbefore, Location.sourceRow, hplace]
      simp [Location.behind]
    · rw [Location.idxOf_caret_caretRow _ _ hcarets, Location.idxOf_bar_caretRow,
        Location.idxOf_sourceRow, Location.length_number, hplace]
      simp [Location.behind, Location.length_number]
      omega
  · rw [Location.count_caretRow, Nat.max_comm]
  · rw [Location.count_caretRow, Nat.max_comm, Span.onLine, hslice, ← hinside, max_width_eq_iff]
  · have hcount := length_takeWhile_le_width inside
    rw [Location.count_caretRow, Span.onLine, hslice]
    omega

/-- An unclosed quote on the second line, of which one character takes two bytes. -/
theorem underscored_openQuote :
    IsBoundary "ls\n'é" 3 ∧ IsBoundary "ls\n'é" 6 ∧ 3 ≤ 6 ∧ '\n' ∉ "open".toList ∧
      ∃ above sourceRow caretRow,
        lines (diagnostic "ls\n'é" ⟨3, 6⟩ "open").toList = above ++ [sourceRow, caretRow] ∧
          Span.Underscored ⟨3, 6⟩ "ls\n'é" sourceRow caretRow ∧
          ¬ Span.Underlined ⟨3, 6⟩ "ls\n'é" sourceRow caretRow := by
  have hstart : IsBoundary "ls\n'é" 3 := isBoundary_iff.2 ⟨"ls\n".toList, "'é".toList, by decide⟩
  have hstop : IsBoundary "ls\n'é" 6 := isBoundary_iff.2 ⟨"ls\n'é".toList, [], by decide⟩
  have hmessage : '\n' ∉ "open".toList := by decide
  exact ⟨hstart, hstop, by decide, hmessage,
    underscored_diagnostic hstart hstop (by decide) hmessage⟩

/-- Under a single character of two bytes the bar and the first caret stand one column to the left
of where they should, and there are two carets. -/
theorem exists_not_underlined :
    ∃ (source : String) (span : Span) (message : String) (above : List (List Char))
      (sourceRow caretRow : List Char),
      IsBoundary source span.start ∧ IsBoundary source span.stop ∧ span.start ≤ span.stop ∧
        '\n' ∉ message.toList ∧
        lines (diagnostic source span message).toList = above ++ [sourceRow, caretRow] ∧
        caretRow.idxOf '|' + 1 = sourceRow.idxOf '|' ∧
        sourceRow.drop (caretRow.idxOf '^' + 1) = span.restOfLine source ∧
        caretRow.count '^' = (span.onLine source).length + 1 ∧
        ¬ span.Underlined source sourceRow caretRow := by
  refine ⟨"é", ⟨0, 2⟩, "m", ["error: m".toList, "  --> line 1, column 1".toList, "   |".toList],
    "  1 | é".toList, "   | ^^".toList, ?_, ?_, by decide, by decide, by decide, by decide, ?_, ?_,
    ?_⟩
  · exact isBoundary_iff.2 ⟨[], ['é'], by decide⟩
  · exact isBoundary_iff.2 ⟨['é'], [], by decide⟩
  · decide
  · decide
  · intro h
    exact absurd h.bar_eq (by decide)

end CommandSyntax
