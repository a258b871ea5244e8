import CommandSyntax.Proofs.Token.Tiling

/-!
# CommandSyntax.Proofs.Token.Layout

**Where lexemes stand.** `Lexeme.LaidOut` says that lexemes cover the bytes between
two positions, one after the other. In a list of lexemes that have characters, the
position after some of the first lexemes says how many they are (`LaidOut.unique`).

The lexemes of a stream are the text of its input (`eq_append_of_ofText`), so the text
that a token cuts out of the input is the text of its lexeme (`text_token_of_ofString`).
-/

namespace CommandSyntax

namespace Lexeme

variable {p q r : Nat} {front back lexemes : List Lexeme}

/-- The lexemes cover the bytes from a position to another. -/
def LaidOut : Nat → List Lexeme → Nat → Prop
  | p, [], q => p = q
  | p, lexeme :: lexemes, q => lexeme.start = p ∧ LaidOut lexeme.stop lexemes q

theorem laidOut_append_iff :
    LaidOut p (front ++ back) r ↔ ∃ q, LaidOut p front q ∧ LaidOut q back r := by
  induction front generalizing p with
  | nil => simp [LaidOut]
  | cons lexeme front ih => simp [LaidOut, ih, and_assoc]

theorem LaidOut.eq_add_width (h : LaidOut p lexemes q) :
    q = p + Text.width (lexemes.flatMap Lexeme.text) := by
  induction lexemes generalizing p with
  | nil => simpa [LaidOut] using h.symm
  | cons lexeme lexemes ih =>
    obtain ⟨rfl, hrest⟩ := h
    rw [ih hrest, List.flatMap_cons, Text.width_append, stop, Nat.add_assoc]

/-- Lexemes that cover no bytes are none. -/
theorem LaidOut.eq_nil (h : LaidOut p lexemes p) (hne : ∀ lexeme ∈ lexemes, lexeme.text ≠ []) :
    lexemes = [] := by
  cases lexemes with
  | nil => rfl
  | cons lexeme lexemes =>
    have hwidth := h.eq_add_width
    have htext := List.length_pos_iff.2 (hne lexeme (by simp))
    have := Text.length_le_width lexeme.text
    simp only [List.flatMap_cons, Text.width_append] at hwidth
    omega

/-- The position after the first lexemes of a list says how many they are. -/
theorem LaidOut.unique {front' back' : List Lexeme} (h : LaidOut p front q)
    (h' : LaidOut p front' q) (heq : front ++ back = front' ++ back')
    (hne : ∀ lexeme ∈ front ++ back, lexeme.text ≠ []) : front = front' ∧ back = back' := by
  suffices hlength : front.length = front'.length from List.append_inj heq hlength
  rcases List.append_eq_append_iff.1 heq with ⟨middle, rfl, -⟩ | ⟨middle, rfl, -⟩
  · obtain ⟨q', hfront, hmiddle⟩ := laidOut_append_iff.1 h'
    obtain rfl : q' = q := by rw [hfront.eq_add_width, h.eq_add_width]
    rw [hmiddle.eq_nil fun lexeme hmem => hne lexeme (by rw [heq]; simp [hmem])]
    simp
  · obtain ⟨q', hfront, hmiddle⟩ := laidOut_append_iff.1 h
    obtain rfl : q' = q := by rw [hfront.eq_add_width, h'.eq_add_width]
    rw [hmiddle.eq_nil fun lexeme hmem => hne lexeme (by simp [hmem])]
    simp

/-- A token cuts the text of its lexeme out of an input in which it stands. -/
theorem text_token {input : String} {lexeme : Lexeme} {before after : List Char}
    (hinput : input.toList = before ++ (lexeme.text ++ after))
    (hstart : lexeme.start = Text.width before) :
    lexeme.token.text input = String.ofList lexeme.text := by
  rw [Token.text, span_token, span, stop, hstart, Span.slice, hinput, ← List.append_assoc,
    Text.slice?_append, Option.getD_some]

end Lexeme

namespace TokenStream

variable {position : Nat} {text : List Char} {lexemes : List Lexeme} {stream : TokenStream}

theorem Tiles.laidOut {size : Nat} (h : Tiles size position (prepend lexemes stream)) :
    ∃ q, Lexeme.LaidOut position lexemes q ∧ stream.Tiles size q := by
  induction lexemes generalizing position with
  | nil => exact ⟨position, rfl, h⟩
  | cons lexeme lexemes ih =>
    cases h with
    | next _ hrest =>
      obtain ⟨q, hlexemes, hstream⟩ := ih hrest
      exact ⟨q, ⟨rfl, hlexemes⟩, hstream⟩

theorem Tiles.scanned {size : Nat} (h : Tiles size position (prepend lexemes stream)) :
    ∀ lexeme ∈ lexemes, lexeme.Scanned := by
  induction lexemes generalizing position with
  | nil => simp
  | cons lexeme lexemes ih =>
    cases h with
    | next hscanned hrest => exact List.forall_mem_cons.2 ⟨hscanned, ih hrest⟩

/-- The first lexeme of a stream is read, and what follows comes of what is left. -/
theorem read_of_ofText_eq_next {lexeme : Lexeme} (h : ofText position text = .next lexeme stream) :
    text ≠ [] ∧ Lexeme.read position text = .ok lexeme ∧
      stream = ofText lexeme.stop (text.drop lexeme.text.length) := by
  by_cases htext : text = []
  · simp [htext] at h
  cases hread : Lexeme.read position text with
  | error error => simp [ofText_of_read_eq_error htext hread] at h
  | ok first =>
    rw [ofText_of_read_eq_ok htext hread, next.injEq] at h
    obtain ⟨rfl, hstream⟩ := h
    exact ⟨htext, rfl, hstream.symm⟩

/-- The lexemes of a stream are the text in front of what is left. -/
theorem eq_append_of_ofText (h : ofText position text = prepend lexemes stream) :
    ∃ rest, text = lexemes.flatMap Lexeme.text ++ rest ∧
      stream = ofText (position + Text.width (lexemes.flatMap Lexeme.text)) rest := by
  induction lexemes generalizing position text with
  | nil => exact ⟨text, rfl, h.symm⟩
  | cons lexeme lexemes ih =>
    obtain ⟨htext, hread, hnext⟩ := read_of_ofText_eq_next h
    obtain ⟨rest, hrest, hstream⟩ := ih hnext.symm
    refine ⟨rest, ?_, ?_⟩
    · rw [← Lexeme.text_append_drop_of_read hread, hrest, List.flatMap_cons, List.append_assoc]
    · rw [hstream, List.flatMap_cons, Text.width_append, Lexeme.stop, Lexeme.read_start hread,
        Nat.add_assoc]

theorem laidOut_of_ofText (h : ofText position text = prepend lexemes stream) :
    Lexeme.LaidOut position lexemes
      (position + Text.width (lexemes.flatMap Lexeme.text)) := by
  obtain ⟨q, hlexemes, -⟩ := (h ▸ tiles_ofText position text).laidOut
  rwa [hlexemes.eq_add_width] at hlexemes

/-- A lexeme of an input stands behind the text of those before it. -/
theorem exists_around_of_ofString {input : String} {front back : List Lexeme} {lexeme : Lexeme}
    (h : ofString input = prepend (front ++ lexeme :: back) stream) :
    ∃ before after, input.toList = before ++ (lexeme.text ++ after) ∧
      lexeme.start = Text.width before := by
  obtain ⟨rest, htext, -⟩ := eq_append_of_ofText h
  obtain ⟨q, hfront, hstart, -⟩ := Lexeme.laidOut_append_iff.1 (laidOut_of_ofText h)
  refine ⟨front.flatMap Lexeme.text, back.flatMap Lexeme.text ++ rest, ?_, ?_⟩
  · rw [htext, List.flatMap_append, List.flatMap_cons, List.append_assoc, List.append_assoc]
  · rw [hstart, hfront.eq_add_width, Nat.zero_add]

/-- A token cuts the text of its lexeme out of the input. -/
theorem text_token_of_ofString {input : String} {front back : List Lexeme} {lexeme : Lexeme}
    (h : ofString input = prepend (front ++ lexeme :: back) stream) :
    lexeme.token.text input = String.ofList lexeme.text := by
  obtain ⟨before, after, hinput, hstart⟩ := exists_around_of_ofString h
  exact Lexeme.text_token hinput hstart

/-- The bytes of neighbouring lexemes cut their texts out of the input. -/
theorem slice_of_ofString {input : String} {front middle back : List Lexeme} {p q : Nat}
    (h : ofString input = prepend (front ++ middle ++ back) stream)
    (hfront : Lexeme.LaidOut 0 front p) (hmiddle : Lexeme.LaidOut p middle q) :
    Span.slice ⟨p, q⟩ input = String.ofList (middle.flatMap Lexeme.text) := by
  obtain ⟨rest, htext, -⟩ := eq_append_of_ofText h
  rw [List.flatMap_append, List.flatMap_append, List.append_assoc] at htext
  rw [Span.slice, hmiddle.eq_add_width, hfront.eq_add_width, Nat.zero_add, htext,
    Text.slice?_append, Option.getD_some]

end TokenStream

end CommandSyntax
