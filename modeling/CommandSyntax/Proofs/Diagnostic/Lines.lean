import CommandSyntax.Text
import Mathlib.Algebra.GroupWithZero.Nat
import Mathlib.Data.List.Basic
import Mathlib.Data.List.Induction
import Mathlib.Data.List.TakeWhile

/-!
# CommandSyntax.Proofs.Diagnostic.Lines

**The lines of a text** are its pieces between newlines (`Text.lines`). A text up to some place is
made of the lines that have ended there, each with its newline, and of the beginning of a line
(`Text.exists_eq_ended_append`), and the lines of the whole text are those that have ended, the one
that has begun, and more (`Text.exists_lines_append`).

The width of the lines that have ended is what a reader adds up who counts bytes line by line
(`Text.width_ended`).
-/

namespace CommandSyntax.Text

variable {text before after lead : List Char} {earlier : List (List Char)}

/-- The pieces of a text between its newlines. -/
def lines (text : List Char) : List (List Char) := text.splitOn '\n'

/-- Lines with a newline behind each. -/
def ended (lines : List (List Char)) : List Char := lines.flatMap (· ++ ['\n'])

@[simp] theorem ended_nil : ended [] = [] := rfl

@[simp] theorem ended_cons (line : List Char) (lines : List (List Char)) :
    ended (line :: lines) = line ++ '\n' :: ended lines := by
  simp [ended]

@[simp] theorem ended_append (front back : List (List Char)) :
    ended (front ++ back) = ended front ++ ended back := List.flatMap_append

/-- The bytes of lines with their newlines, added up line by line. -/
theorem width_ended (lines : List (List Char)) :
    width (ended lines) = (lines.map fun line => width line + 1).sum := by
  induction lines with
  | nil => rfl
  | cons line lines ih =>
    have hnewline : '\n'.utf8Size = 1 := by decide
    simp only [ended_cons, width_append, width_cons, hnewline, ih, List.map_cons, List.sum_cons]
    omega

/-! ### The line that has begun -/

theorem lastLine_concat (text : List Char) (c : Char) :
    lastLine (text ++ [c]) = if c = '\n' then [] else lastLine text ++ [c] := by
  by_cases h : c = '\n' <;> simp [lastLine, h]

/-- A text is made of the lines that have ended and the one that has begun. -/
theorem exists_eq_ended_append (text : List Char) :
    ∃ earlier, text = ended earlier ++ lastLine text ∧ (∀ line ∈ earlier, '\n' ∉ line) ∧
      earlier.length = text.count '\n' := by
  induction text using List.reverseRecOn with
  | nil => exact ⟨[], rfl, by simp, rfl⟩
  | append_singleton text c ih =>
    obtain ⟨earlier, htext, hlines, hcount⟩ := ih
    by_cases h : c = '\n'
    · -- the line that had begun has ended
      refine ⟨earlier ++ [lastLine text], ?_, ?_, ?_⟩
      · rw [lastLine_concat, if_pos h, h, ended_append, ended_cons, ← List.append_assoc, ← htext]
        simp
      · simpa [or_imp, forall_and] using ⟨hlines, newline_not_mem_lastLine text⟩
      · simp [h, hcount]
    · refine ⟨earlier, ?_, hlines, ?_⟩
      · rw [lastLine_concat, if_neg h, ← List.append_assoc, ← htext]
      · simp [h, hcount]

/-! ### Lines of what is put together -/

theorem lines_ended_append (h : ∀ line ∈ earlier, '\n' ∉ line) (text : List Char) :
    lines (ended earlier ++ text) = earlier ++ lines text := by
  induction earlier with
  | nil => rfl
  | cons line earlier ih =>
    obtain ⟨hline, hearlier⟩ := List.forall_mem_cons.1 h
    rw [ended_cons, List.append_assoc, List.cons_append, lines,
      List.splitOn_append_cons_self_of_not_mem hline, List.cons_append, ← ih hearlier, lines]

theorem lines_of_newline_not_mem (h : '\n' ∉ text) : lines text = [text] :=
  List.splitOn_eq_singleton h

/-- A text is its lines that have ended and the last one. -/
theorem lines_eq_concat (text : List Char) :
    ∃ earlier, text = ended earlier ++ lastLine text ∧ lines text = earlier ++ [lastLine text] ∧
      ∀ line ∈ earlier, '\n' ∉ line := by
  obtain ⟨earlier, htext, hlines, -⟩ := exists_eq_ended_append text
  refine ⟨earlier, htext, ?_, hlines⟩
  conv_lhs => rw [htext]
  rw [lines_ended_append hlines, lines_of_newline_not_mem (newline_not_mem_lastLine text)]

theorem newline_not_mem_of_mem_lines {line : List Char} (h : line ∈ lines text) :
    '\n' ∉ line := by
  obtain ⟨earlier, -, hlines, hearlier⟩ := lines_eq_concat text
  rw [hlines, List.mem_append, List.mem_singleton] at h
  rcases h with hmem | rfl
  · exact hearlier line hmem
  · exact newline_not_mem_lastLine text

/-- In front of one of its lines a text has the earlier ones. -/
theorem exists_eq_of_lines_eq {line : List Char} {later : List (List Char)}
    (h : lines text = earlier ++ line :: later) :
    ∃ rest, text = ended earlier ++ (line ++ rest) := by
  obtain ⟨front, htext, hlines, -⟩ := lines_eq_concat text
  rw [hlines] at h
  rcases List.eq_nil_or_concat' later with rfl | ⟨later, last, rfl⟩
  · obtain ⟨rfl, hlast⟩ := List.append_inj' h rfl
    exact ⟨[], by rw [← List.singleton_inj.1 hlast, List.append_nil, ← htext]⟩
  · have hfront : front = earlier ++ line :: later :=
      (List.append_inj' (h.trans (by simp : _ = (earlier ++ line :: later) ++ [last])) rfl).1
    refine ⟨'\n' :: ended later ++ lastLine text, htext.trans ?_⟩
    rw [hfront, ended_append, ended_cons]
    simp

/-- The line of a number, with what is in front of it and behind it. -/
theorem exists_eq_of_lines_getElem? {line : List Char} {number : Nat}
    (h : (lines text)[number]? = some line) :
    ∃ earlier later rest, lines text = earlier ++ line :: later ∧ earlier.length = number ∧
      text = ended earlier ++ (line ++ rest) := by
  obtain ⟨hlt, hline⟩ := List.getElem?_eq_some_iff.1 h
  have hlines : lines text =
      (lines text).take number ++ line :: (lines text).drop (number + 1) := by
    rw [← hline, ← List.drop_eq_getElem_cons, List.take_append_drop]
  obtain ⟨rest, hrest⟩ := exists_eq_of_lines_eq hlines
  refine ⟨_, _, rest, hlines, ?_, hrest⟩
  rw [List.length_take]
  exact Nat.min_eq_left (Nat.le_of_lt hlt)

/-- The lines that have ended and the one that has begun are told by the newlines. -/
theorem of_ended_append (h : ∀ line ∈ earlier, '\n' ∉ line) (hlead : '\n' ∉ lead) :
    lastLine (ended earlier ++ lead) = lead ∧
      (ended earlier ++ lead).count '\n' = earlier.length := by
  obtain ⟨front, htext, hfront, hcount⟩ := exists_eq_ended_append (ended earlier ++ lead)
  have hlines := congrArg lines htext
  rw [lines_ended_append h, lines_of_newline_not_mem hlead, lines_ended_append hfront,
    lines_of_newline_not_mem (newline_not_mem_lastLine _)] at hlines
  obtain ⟨hearlier, hlast⟩ := List.append_inj' hlines rfl
  exact ⟨(List.singleton_inj.1 hlast).symm, by rw [← hcount, hearlier]⟩

/-! ### The line that goes on -/

theorem takeWhile_of_newline_not_mem (h : '\n' ∉ text) : text.takeWhile (· ≠ '\n') = text := by
  rw [List.takeWhile_eq_self_iff]
  intro c hc
  have hne : c ≠ '\n' := fun heq => h (heq ▸ hc)
  simpa using hne

theorem takeWhile_lead_append (h : '\n' ∉ lead) (after : List Char) :
    (lead ++ after).takeWhile (· ≠ '\n') = lead ++ after.takeWhile (· ≠ '\n') := by
  rw [List.takeWhile_append, takeWhile_of_newline_not_mem h, if_pos rfl]

theorem takeWhile_append_newline (h : '\n' ∉ before) (after : List Char) :
    (before ++ '\n' :: after).takeWhile (· ≠ '\n') = before := by
  rw [takeWhile_lead_append h]
  simp

/-- A line that has begun goes on up to the next newline. -/
theorem exists_lines_lead (h : '\n' ∉ lead) (after : List Char) :
    ∃ later, lines (lead ++ after) = (lead ++ after.takeWhile (· ≠ '\n')) :: later := by
  by_cases hafter : '\n' ∈ after
  · obtain ⟨inside, rest, rfl, hinside⟩ := List.eq_append_cons_of_mem hafter
    have hline : '\n' ∉ lead ++ inside := by simp [h, hinside]
    refine ⟨lines rest, ?_⟩
    rw [takeWhile_append_newline hinside, ← List.append_assoc, lines,
      List.splitOn_append_cons_self_of_not_mem hline, lines]
  · have hline : '\n' ∉ lead ++ after := by simp [h, hafter]
    exact ⟨[], by rw [takeWhile_of_newline_not_mem hafter, lines_of_newline_not_mem hline]⟩

/-- The lines of a text, seen from a place in it. -/
theorem exists_lines_append (before after : List Char) :
    ∃ earlier later, before = ended earlier ++ lastLine before ∧
      earlier.length = before.count '\n' ∧
      lines (before ++ after) =
        earlier ++ (lastLine before ++ after.takeWhile (· ≠ '\n')) :: later := by
  obtain ⟨earlier, hbefore, hlines, hcount⟩ := exists_eq_ended_append before
  obtain ⟨later, hlater⟩ := exists_lines_lead (newline_not_mem_lastLine before) after
  refine ⟨earlier, later, hbefore, hcount, ?_⟩
  calc lines (before ++ after)
      = lines (ended earlier ++ (lastLine before ++ after)) := by
        rw [← List.append_assoc, ← hbefore]
    _ = earlier ++ lines (lastLine before ++ after) := lines_ended_append hlines _
    _ = earlier ++ (lastLine before ++ after.takeWhile (· ≠ '\n')) :: later := by rw [hlater]

/-! ### Offsets of newlines -/

/-- The offset of the first newline. -/
def firstNewline? : List Char → Option Nat
  | [] => none
  | c :: text => if c = '\n' then some 0 else (firstNewline? text).map (c.utf8Size + ·)

/-- The offset of the last newline. -/
def lastNewline? : List Char → Option Nat
  | [] => none
  | c :: text =>
    match lastNewline? text with
    | some offset => some (c.utf8Size + offset)
    | none => if c = '\n' then some 0 else none

/-- A line ends at the first newline, or with the text. -/
theorem getD_firstNewline? (text : List Char) :
    (firstNewline? text).getD (width text) = width (text.takeWhile (· ≠ '\n')) := by
  induction text with
  | nil => rfl
  | cons c text ih =>
    by_cases h : c = '\n'
    · simp [firstNewline?, h]
    · rw [firstNewline?, if_neg h, width_cons, Option.getD_map (c.utf8Size + ·), ih,
        List.takeWhile_cons_of_pos (by simpa using h), width_cons]

theorem lastNewline?_concat (text : List Char) (c : Char) :
    lastNewline? (text ++ [c]) = if c = '\n' then some (width text) else lastNewline? text := by
  induction text with
  | nil => simp [lastNewline?]
  | cons first text ih =>
    rw [List.cons_append, lastNewline?, ih]
    by_cases h : c = '\n' <;> simp [h, lastNewline?]

/-- The line on which a text goes on ends at the first newline behind it, or with the text. -/
theorem getD_map_firstNewline? (start : Nat) (h : '\n' ∉ lead) (after : List Char) :
    ((firstNewline? (lead ++ after)).map (start + ·)).getD (start + width (lead ++ after)) =
      start + width (lead ++ after.takeWhile (· ≠ '\n')) := by
  rw [Option.getD_map (start + ·), getD_firstNewline?, takeWhile_lead_append h]

/-- The line that has begun starts behind the last newline, or with the text. -/
theorem getD_lastNewline?_add (text : List Char) :
    ((lastNewline? text).map (· + 1)).getD 0 + width (lastLine text) = width text := by
  induction text using List.reverseRecOn with
  | nil => rfl
  | append_singleton text c ih =>
    rw [lastNewline?_concat, lastLine_concat, width_append]
    by_cases h : c = '\n'
    · have hnewline : '\n'.utf8Size = 1 := by decide
      simp [h, hnewline]
    · rw [if_neg h, if_neg h, width_append, ← Nat.add_assoc, ih]

/-- It starts behind the lines that have ended. -/
theorem getD_lastNewline? (h : text = ended earlier ++ lastLine text) :
    ((lastNewline? text).map (· + 1)).getD 0 = width (ended earlier) := by
  have hwidth := congrArg width h
  have hadd := getD_lastNewline?_add text
  rw [width_append] at hwidth
  omega

end CommandSyntax.Text
