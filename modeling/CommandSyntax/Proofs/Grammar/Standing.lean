import CommandSyntax.Proofs.Grammar.Passing
import CommandSyntax.Proofs.Token.Cutting

/-!
# CommandSyntax.Proofs.Grammar.Standing

**Cursors in front of a text.** A cursor stands in front of a text when what is ahead of
it is what the scanner reads from that text (`Cursor.Stands`). What the scanner cuts off
the head of the text the cursor passes, and then it stands in front of the rest
(`Stands.cut`). With this a production is followed along a text that is known.
-/

namespace CommandSyntax

namespace Cursor

variable {c c' : Cursor} {kind kind' : TokenKind} {text chars rest : List Char}

/-- What the scanner reads from a text is ahead of a cursor. -/
def Stands (c : Cursor) (text : List Char) : Prop :=
  c.Placed ∧ c.stream = TokenStream.ofText c.current.start text

theorem Stands.placed (h : c.Stands text) : c.Placed := h.1

/-- A text that begins with a lexeme can be read on. -/
theorem ofText_ne_failed {position : Nat} (h : Heads kind text) (error : ScanError) :
    TokenStream.ofText position text ≠ .failed error := by
  obtain ⟨chars, hread⟩ := h position
  by_cases htext : text = []
  · simp [htext]
  · simp [TokenStream.ofText_of_read_eq_ok htext hread]

/-- In front of a text that is not empty a cursor stands on the first lexeme of the text. -/
theorem Stands.current_eq (h : c.Stands text) (htext : text ≠ []) {lexeme : Lexeme}
    (hread : Lexeme.read c.current.start text = .ok lexeme) :
    c.current = lexeme ∧
      c.stream = .next lexeme (TokenStream.ofText lexeme.stop (text.drop lexeme.text.length)) := by
  have hstream := h.2.trans (TokenStream.ofText_of_read_eq_ok htext hread)
  by_cases hkind : c.current.kind = .stop
  · simp [h.placed.stream_of_stop hkind] at hstream
  · have hnext := hstream
    rw [stream_of_ne_stop hkind, TokenStream.next.injEq] at hnext
    exact ⟨hnext.1, hstream⟩

theorem Stands.kind_eq (h : c.Stands text) (hheads : Heads kind text) : c.current.kind = kind := by
  obtain ⟨chars, hread⟩ := hheads c.current.start
  by_cases htext : text = []
  · subst htext
    rw [Lexeme.read_nil] at hread
    obtain rfl : .stop = kind := congrArg Lexeme.kind (Except.ok.inj hread)
    by_cases hkind : c.current.kind = .stop
    · exact hkind
    · have hstream := h.2
      simp [stream_of_ne_stop hkind] at hstream
  · rw [(h.current_eq htext hread).1]

/-- A cursor passes what is cut off the head of its text. -/
theorem Stands.cut (h : c.Stands (chars ++ rest)) (hcuts : Cuts kind chars rest)
    (hrest : Heads kind' rest) :
    c.current.kind = kind ∧ c.current.text = chars ∧
      ∃ c', c.Passes [c.current] c' ∧ c'.Stands rest := by
  obtain ⟨hcurrent, hstream⟩ :=
    h.current_eq (by simp [hcuts.1]) (hcuts.2 c.current.start)
  rw [List.drop_left] at hstream
  have hfront : c.stream = TokenStream.prepend [c.current]
      (TokenStream.ofText c.current.stop rest) := by
    rw [hstream, hcurrent]
    rfl
  obtain ⟨c', hpasses, hrestStream⟩ :=
    exists_passes h.placed hfront fun error => ofText_ne_failed hrest error
  have hstart : c.current.stop = c'.current.start := (hpasses.laidOut h.placed).2
  refine ⟨by rw [hcurrent], by rw [hcurrent], c', hpasses, hpasses.placed h.placed, ?_⟩
  rw [hrestStream, hstart]

/-- A cursor in front of something else than whitespace has nothing to skip. -/
theorem Stands.skips (h : c.Stands text) (hheads : Heads kind text) (hkind : kind ≠ .whitespace) :
    c.Skips c :=
  skips_self (h.kind_eq hheads ▸ hkind)

/-- One blank is skipped. -/
theorem Stands.skips_blank {blank : Char} (hblank : isBlank blank = true)
    (h : c.Stands (blank :: rest)) (hrest : Heads kind rest) (hkind : kind ≠ .whitespace) :
    ∃ c', c.Skips c' ∧ c'.Stands rest := by
  have hcuts := cuts_blank hblank hrest hkind
  have hfront : c.Stands ([blank] ++ rest) := h
  obtain ⟨hcurrent, -, c', hpasses, h'⟩ := hfront.cut hcuts hrest
  refine ⟨c', ⟨_, hpasses, by simpa using hcurrent, ?_⟩, h'⟩
  rwa [h'.kind_eq hrest]

/-! ### All that is left -/

/-- A cursor stands in front of a text that reaches up to the end of its input. -/
structure Faces (c : Cursor) (text : List Char) : Prop where
  /-- The text is ahead. -/
  stands : c.Stands text
  /-- Nothing is behind the text. -/
  size_eq : c.current.start + Text.width text = c.size

theorem Faces.of_passes (h : c.Faces (chars ++ rest)) {lexemes : List Lexeme}
    (hpasses : c.Passes lexemes c') (hchars : lexemes.flatMap Lexeme.text = chars)
    (h' : c'.Stands rest) : c'.Faces rest where
  stands := h'
  size_eq := by
    have hstart := (hpasses.laidOut h.stands.placed).eq_add_width
    have hsize := h.size_eq
    rw [Text.width_append] at hsize
    rw [hstart, hchars, hpasses.size_eq h.stands.placed]
    omega

theorem Faces.cut (h : c.Faces (chars ++ rest)) (hcuts : Cuts kind chars rest)
    (hrest : Heads kind' rest) :
    c.current.kind = kind ∧ c.current.text = chars ∧
      ∃ c', c.Passes [c.current] c' ∧ c'.Faces rest := by
  obtain ⟨hkind, htext, c', hpasses, h'⟩ := h.stands.cut hcuts hrest
  exact ⟨hkind, htext, c', hpasses, h.of_passes hpasses (by simp [htext]) h'⟩

/-- What is passed lies between the two places. -/
theorem Faces.start_eq (h : c.Faces (chars ++ rest)) (hreaches : c.Reaches c')
    (h' : c'.Faces rest) : c'.current.start = c.current.start + Text.width chars := by
  obtain ⟨lexemes, hpasses⟩ := hreaches
  have hsize := h.size_eq
  have hsize' := h'.size_eq
  have hsame := hpasses.size_eq h.stands.placed
  rw [Text.width_append] at hsize
  omega

theorem Faces.skips_blank {blank : Char} (hblank : isBlank blank = true)
    (h : c.Faces (blank :: rest)) (hrest : Heads kind rest) (hkind : kind ≠ .whitespace) :
    ∃ c', c.Skips c' ∧ c'.Faces rest := by
  have hfront : c.Faces ([blank] ++ rest) := h
  obtain ⟨hcurrent, -, c', hpasses, h'⟩ := hfront.cut (cuts_blank hblank hrest hkind) hrest
  refine ⟨c', ⟨_, hpasses, by simpa using hcurrent, ?_⟩, h'⟩
  rwa [h'.stands.kind_eq hrest]

end Cursor

end CommandSyntax
