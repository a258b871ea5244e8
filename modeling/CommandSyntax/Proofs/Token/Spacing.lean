import CommandSyntax.Proofs.Token.Cutting

/-!
# CommandSyntax.Proofs.Token.Spacing

**Text made of blanks and escaped newlines.** In front of anything but more of it, such a text is
cut off as one lexeme of whitespace (`cuts_spacing`).
-/

namespace CommandSyntax

variable {text rest : List Char}

/-- A text of blanks and escaped newlines. -/
inductive Spacing : List Char → Prop
  /-- There may be none. -/
  | nil : Spacing []
  /-- A blank. -/
  | blank {c : Char} {text : List Char} (hc : isBlank c = true) (h : Spacing text) :
    Spacing (c :: text)
  /-- A newline that a backslash escapes. -/
  | escapedNewline {text : List Char} (h : Spacing text) : Spacing ('\\' :: '\n' :: text)

namespace Spacing

theorem of_isBlank (h : ∀ c ∈ text, isBlank c = true) : Spacing text := by
  induction text with
  | nil => exact .nil
  | cons c text ih =>
    obtain ⟨hc, htext⟩ := List.forall_mem_cons.1 h
    exact .blank hc (ih htext)

theorem blankRun_append (h : Spacing text) (rest : List Char) :
    Rule.blankRun (text ++ rest) = text.length + Rule.blankRun rest := by
  induction h with
  | nil => simp
  | @blank c text hc _ ih =>
    rw [List.cons_append, Rule.blankRun_cons_of_isBlank hc, ih, List.length_cons]
    omega
  | escapedNewline _ ih =>
    rw [List.cons_append, List.cons_append, Rule.blankRun, ih, List.length_cons, List.length_cons]
    omega

theorem append {more : List Char} (h : Spacing text) (h' : Spacing more) :
    Spacing (text ++ more) := by
  induction h with
  | nil => exact h'
  | blank hc _ ih => exact .blank hc ih
  | escapedNewline _ ih => exact .escapedNewline ih

/-- Spacing does not end in a backslash. -/
theorem getLast?_ne (h : Spacing text) : text.getLast? ≠ some '\\' := by
  induction h with
  | nil => simp
  | @blank c text hc _ ih =>
    have hne : c ≠ '\\' := by
      rintro rfl
      simp [isBlank] at hc
    rw [List.getLast?_cons]
    cases hlast : text.getLast? <;> simp_all
  | @escapedNewline text _ ih =>
    rw [List.getLast?_cons, List.getLast?_cons]
    cases hlast : text.getLast? <;> simp_all

end Spacing

/-- Spacing is cut off in front of anything but more blanks. -/
theorem cuts_spacing (h : Spacing text) (hne : text ≠ []) (hrest : Rule.blankRun rest = 0) :
    Cuts .whitespace text rest := by
  have hrun : Rule.blankRun (text ++ rest) = text.length := by
    rw [h.blankRun_append, hrest, Nat.add_zero]
  have hpos := List.length_pos_iff.2 hne
  refine cuts_of_scan [Rule.stop] (Rule.table.drop 2) rfl hne ?_ ?_
  · obtain ⟨c, more, rfl⟩ := List.exists_cons_of_ne_nil hne
    simp [Rule.stop]
  · exact Verdict.ofRun_eq_accept_iff.2 ⟨hrun, hpos⟩

end CommandSyntax
