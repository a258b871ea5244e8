import CommandSyntax.Proofs.Diagnostic.Lines
import CommandSyntax.Proofs.Token.Boundary

/-!
# CommandSyntax.Proofs.Diagnostic.Locating

**Locating inverts to the offset.** A place marks an offset when its line is the one of that number
among the pieces between newlines, and the bytes of the lines before it with those of the characters
before its column add up to the offset (`Location.Marks`). The places that mark an offset are told
by that alone: there is one if the offset is a boundary of the source, namely where the offset is
located, and none if it is not (`Location.marks_iff`).

Design points:

* Any offset at all is located behind some of the first characters of the source
  (`Location.ofOffset_eq`): up to the offset, or all of them when it is no boundary.
* `Location.bySlices?` locates by searching newlines and cutting at their offsets, each cut being
  refused where it lies past the end or inside of a character. None is ever refused
  (`Location.bySlices?_eq`).
-/

namespace CommandSyntax

open Text

variable {source : List Char} {place : Location} {offset : Nat}

namespace Location

/-! ### Where an offset is located -/

/-- The place behind some text, in front of some more. -/
def behind (before after : List Char) : Location where
  line := before.count '\n' + 1
  column := (lastLine before).length
  text := String.ofList (lastLine before ++ after.takeWhile (· ≠ '\n'))

theorem ofOffset_eq (source : List Char) (offset : Nat) :
    ofOffset source offset = behind (divide source offset).1 (divide source offset).2 := rfl

/-- At a boundary a source is divided there. -/
theorem divide_width (before after : List Char) :
    divide (before ++ after) (width before) = (before, after) := by
  have hle : width before ≤ width (before ++ after) := by
    rw [width_append]
    exact Nat.le_add_right ..
  rw [divide, Nat.min_eq_left hle, splitAt?_append, Option.getD_some]

theorem ofOffset_width (before after : List Char) :
    ofOffset (before ++ after) (width before) = behind before after := by
  rw [ofOffset_eq, divide_width]

/-- An offset past the end stands for the end. -/
theorem ofOffset_of_le (h : width source ≤ offset) :
    ofOffset source offset = ofOffset source (width source) := by
  rw [ofOffset_eq, ofOffset_eq, divide, divide, Nat.min_eq_right h, Nat.min_self]

/-! ### The offset that a place marks -/

/-- A place marks an offset of a source. -/
structure Marks (place : Location) (source : List Char) (offset : Nat) : Prop where
  /-- Lines are counted from 1. -/
  line_pos : 0 < place.line
  /-- The text of the place is the line of its number. -/
  text_eq : (lines source)[place.line - 1]? = some place.text.toList
  /-- The column is on the line, or at its end. -/
  column_le : place.column ≤ place.text.length
  /-- The bytes of the earlier lines, with their newlines, and of the characters before the column
  add up to the offset. -/
  offset_eq : (((lines source).take (place.line - 1)).map fun line => width line + 1).sum +
    width (place.text.toList.take place.column) = offset

/-- The place behind some text marks the width of that text. -/
theorem marks_behind (before after : List Char) :
    (behind before after).Marks (before ++ after) (width before) := by
  obtain ⟨earlier, later, hbefore, hcount, hlines⟩ := exists_lines_append before after
  constructor
  · exact Nat.succ_pos _
  · simp [behind, hlines, ← hcount]
  · simp [behind]
  · calc (((lines (before ++ after)).take (before.count '\n')).map fun line => width line + 1).sum +
          width ((String.ofList (lastLine before ++ after.takeWhile (· ≠ '\n'))).toList.take
            (lastLine before).length)
        = width (ended earlier) + width (lastLine before) := by
          rw [hlines, ← hcount, List.take_left, width_ended, String.toList_ofList, List.take_left]
      _ = width before := by rw [← width_append, ← hbefore]

/-- A place that marks an offset stands behind the text up to there. -/
theorem Marks.exists_eq (h : place.Marks source offset) :
    ∃ before after, source = before ++ after ∧ width before = offset ∧
      place = behind before after := by
  obtain ⟨number, column, text⟩ := place
  obtain ⟨hpos, htext, hcolumn, hoffset⟩ := h
  obtain ⟨earlier, later, rest, hlines, hlength, hsource⟩ := exists_eq_of_lines_getElem? htext
  have hmem (line : List Char) (h : line ∈ earlier ++ text.toList :: later) : '\n' ∉ line :=
    newline_not_mem_of_mem_lines (hlines ▸ h)
  rw [← List.take_append_drop column text.toList, List.append_assoc, ← List.append_assoc] at hsource
  have hearlier : ∀ line ∈ earlier, '\n' ∉ line := fun line h =>
    hmem line (List.mem_append_left _ h)
  have hlead : '\n' ∉ text.toList.take column := fun h =>
    hmem text.toList (by simp) (List.mem_of_mem_take h)
  obtain ⟨hlast, hcount⟩ := of_ended_append hearlier hlead
  refine ⟨_, _, hsource, ?_, ?_⟩
  · rw [hlines, List.take_left' hlength, ← width_ended] at hoffset
    rw [width_append, hoffset]
  · -- both are the line behind as many newlines
    obtain ⟨front, back, -, hfront, hlines'⟩ := exists_lines_append
      (ended earlier ++ text.toList.take column) (text.toList.drop column ++ rest)
    rw [← hsource, hlines] at hlines'
    obtain ⟨-, hline⟩ := List.append_inj hlines' (by rw [hfront, hcount])
    have hcolumn' : (text.toList.take column).length = column := by
      rw [List.length_take]
      exact Nat.min_eq_left hcolumn
    rw [behind, ← (List.cons.inj hline).1, hcount, hlast, hcolumn', hlength, String.ofList_toList,
      Nat.sub_add_cancel hpos]

/-- **The place of an offset is the one that marks it.** -/
theorem marks_iff {source : String} :
    place.Marks source.toList offset ↔
      IsBoundary source offset ∧ place = ofOffset source.toList offset := by
  rw [isBoundary_iff]
  constructor
  · intro h
    obtain ⟨before, after, hsource, hwidth, hplace⟩ := h.exists_eq
    refine ⟨⟨before, after, hsource, hwidth⟩, ?_⟩
    rw [hsource, ← hwidth, ofOffset_width, hplace]
  · intro h
    obtain ⟨⟨before, after, hsource, hwidth⟩, hplace⟩ := h
    rw [hplace, hsource, ← hwidth, ofOffset_width]
    exact marks_behind before after

/-! ### Locating by cuts -/

/-- The place of an offset, found by searching newlines and cutting at their offsets; `none` when
one of the cuts past the first lies past the end of what is cut or inside of a character. -/
def bySlices? (source : List Char) (offset : Nat) : Option Location := do
  let before := ((splitAt? (min offset (width source)) source).map Prod.fst).getD source
  let start := ((lastNewline? before).map (· + 1)).getD 0
  let (_, line) ← splitAt? start source
  let stop := ((firstNewline? line).map (start + ·)).getD (width source)
  let (_, lead) ← splitAt? start before
  let text ← slice? start stop source
  return ⟨before.count '\n' + 1, lead.length, String.ofList text⟩

/-- A line is cut out from where it starts to where it ends. -/
theorem slice?_line (earlier : List (List Char)) (lead after : List Char) :
    slice? (width (ended earlier))
        (width (ended earlier) + width (lead ++ after.takeWhile (· ≠ '\n')))
        (ended earlier ++ (lead ++ after)) =
      some (lead ++ after.takeWhile (· ≠ '\n')) := by
  have hpieces : ended earlier ++ (lead ++ after) =
      ended earlier ++ (lead ++ after.takeWhile (· ≠ '\n')) ++ after.dropWhile (· ≠ '\n') := by
    rw [List.append_assoc, List.append_assoc, List.takeWhile_append_dropWhile]
  rw [hpieces, slice?_append]

/-- **No cut is refused.** -/
theorem bySlices?_eq (source : List Char) (offset : Nat) :
    bySlices? source offset = some (ofOffset source offset) := by
  have hbefore : ((splitAt? (min offset (width source)) source).map Prod.fst).getD source =
      (divide source offset).1 := by
    rw [divide]
    cases splitAt? (min offset (width source)) source <;> rfl
  have hsource := divide_append source offset
  rw [bySlices?, hbefore, ofOffset_eq]
  generalize (divide source offset).1 = before at *
  generalize (divide source offset).2 = after at *
  -- the source is the lines that have ended, the one that has begun, and what comes after
  obtain ⟨earlier, hsplit, -⟩ := exists_eq_ended_append before
  have hpieces : source = ended earlier ++ (lastLine before ++ after) := by
    rw [← List.append_assoc, ← hsplit, hsource]
  have hlead : splitAt? (width (ended earlier)) before = some (ended earlier, lastLine before) :=
    splitAt?_eq_some_iff.2 ⟨hsplit.symm, rfl⟩
  have hstop := getD_map_firstNewline? (width (ended earlier)) (newline_not_mem_lastLine before)
    after
  have htext := slice?_line earlier (lastLine before) after
  rw [← width_append, ← hpieces] at hstop
  rw [← hpieces] at htext
  simp only [getD_lastNewline? hsplit, splitAt?_eq_some_iff.2 ⟨hpieces.symm, rfl⟩, hstop, hlead,
    htext, Option.bind_eq_bind, Option.bind_some, Option.pure_def, behind]

end Location

/-- The text of a place is a whole line, whatever the offset. -/
theorem Location.text_ofOffset_mem (source : List Char) (offset : Nat) :
    (ofOffset source offset).text.toList ∈ lines source := by
  obtain ⟨earlier, later, -, -, hlines⟩ := exists_lines_append
    (divide source offset).1 (divide source offset).2
  rw [divide_append] at hlines
  rw [ofOffset_eq, behind, String.toList_ofList, hlines]
  simp

/-- What is told of the place of a span. -/
structure Span.LocatedAt (span : Span) (source : String) (place : Location) : Prop where
  /-- The place is found without a cut that is refused. -/
  found : Location.bySlices? source.toList span.start = some place
  /-- It is the place that marks the start of the span, which is one exactly at a boundary. -/
  marks : ∀ other : Location, other.Marks source.toList span.start ↔
    IsBoundary source span.start ∧ other = place
  /-- From the end on it is the place of the end. -/
  clamped : source.utf8ByteSize ≤ span.start →
    place = (Span.empty source.utf8ByteSize).locate source
  /-- The text is a whole line, whatever the offset. -/
  text_mem : place.text.toList ∈ lines source.toList

/-- **Locating inverts to the offset.** -/
theorem Span.locatedAt_locate (span : Span) (source : String) :
    span.LocatedAt source (span.locate source) where
  found := Location.bySlices?_eq source.toList span.start
  marks _ := Location.marks_iff
  clamped h := by
    rw [← Text.width_toList] at h ⊢
    exact Location.ofOffset_of_le h
  text_mem := Location.text_ofOffset_mem source.toList span.start

end CommandSyntax
