import CommandSyntax.Proofs.Token.Cutting

/-!
# CommandSyntax.Proofs.Token.Spelling

**Text written with backslashes.** A word spells a text when it is the text with a backslash
before every character that needs one, and before any others (`Spells`). Without quotes such a
word means the text, however many backslashes there are (`Spells.plain_eq`).

The scanner may cut a word into several lexemes, since any name with an equals sign is one of its
own. No backslash stands in those, so what is left spells what is left of the text
(`Spells.exists_cuts`).
-/

namespace CommandSyntax

/-- A text that begins with an assignment begins with a name and an equals sign. -/
theorem exists_isName_of_scan {text : List Char} (h : Rule.assignmentLhs.scan text ≠ .pass) :
    ∃ name rest, IsName name ∧ text = name ++ '=' :: rest := by
  simp only [Rule.assignmentLhs] at h
  split at h
  · rename_i hname
    obtain ⟨rest, hrest⟩ : ∃ rest, text.drop (Rule.nameRun text) = '=' :: rest := by
      cases hdrop : text.drop (Rule.nameRun text) with
      | nil => simp [hdrop] at hname
      | cons c rest => exact ⟨rest, by simpa [hdrop] using hname.2⟩
    have htake : text.take (Rule.nameRun text) = text.takeWhile isNameChar :=
      (List.prefix_iff_eq_take.1 (List.takeWhile_prefix _)).symm
    refine ⟨text.takeWhile isNameChar, rest, ⟨List.length_pos_iff.1 hname.1, fun c hc => ?_⟩, ?_⟩
    · exact List.all_eq_true.1 List.all_takeWhile c hc
    · rw [← htake, ← hrest, List.take_append_drop]
  · exact absurd rfl h

/-- A word is a text in which each backslash and each delimiter has a backslash before it, and
other characters may have one. -/
inductive Spells : List Char → List Char → Prop
  /-- Nothing is spelled by nothing. -/
  | nil : Spells [] []
  /-- A character that needs no backslash stands for itself. -/
  | bare {c : Char} {text word : List Char} (hbackslash : c ≠ '\\') (hc : isDelimiter c = false)
      (h : Spells text word) : Spells (c :: text) (c :: word)
  /-- Any character may stand behind a backslash. -/
  | escaped (c : Char) {text word : List Char} (h : Spells text word) :
      Spells (c :: text) ('\\' :: c :: word)

namespace Spells

variable {text word rest : List Char}

/-- Without quotes a word means the text that it spells. -/
theorem plain_eq (h : Spells text word) (hnewline : '\n' ∉ text) : Quoting.plain word = text := by
  induction h with
  | nil => rfl
  | @bare c text word hbackslash _ _ ih =>
    have hmore := ih (List.not_mem_of_not_mem_cons hnewline)
    have hstep : Quoting.plain (c :: word) = c :: Quoting.plain word := by
      rw [Quoting.plain] <;> simp_all
    rw [hstep, hmore]
  | @escaped c text word _ ih =>
    have hmore := ih (List.not_mem_of_not_mem_cons hnewline)
    have hc : c ≠ '\n' := fun heq => hnewline (heq ▸ List.mem_cons_self)
    -- an escaped backslash stands for itself, and any other character after the backslash does
    by_cases hbackslash : c = '\\'
    · subst hbackslash
      rw [Quoting.plain, hmore]
    · have hstep : Quoting.plain ('\\' :: c :: word) = c :: Quoting.plain word := by
        rw [Quoting.plain, Quoting.plain] <;> simp_all
      rw [hstep, hmore]

/-- Nothing in a word ends plain text. -/
theorem rawRun_eq (h : Spells text word) : Rule.rawRun word = word.length := by
  induction h with
  | nil => rfl
  | @bare c text word hbackslash hc _ ih =>
    have hstep : Rule.rawRun (c :: word) = Rule.rawRun word + 1 := by
      rw [Rule.rawRun] <;> simp_all
    rw [hstep, ih, List.length_cons]
  | escaped c _ ih => rw [Rule.rawRun, ih, List.length_cons, List.length_cons]

/-- A word begins with no delimiter and no escaped newline. -/
theorem exists_cons (h : Spells text word) (hne : text ≠ []) (hnewline : '\n' ∉ text) :
    ∃ c more, word = c :: more ∧ c ∉ delimiters ∧ Rule.blankRun (c :: more) = 0 := by
  cases h with
  | nil => exact absurd rfl hne
  | @bare c text word hbackslash hc _ =>
    have hdelimiter : c ∉ delimiters := by simpa [isDelimiter] using hc
    exact ⟨c, word, rfl, hdelimiter,
      Rule.blankRun_of_notMem_delimiters hdelimiter fun h => absurd h hbackslash⟩
  | @escaped c text word _ =>
    have hc : c ≠ '\n' := fun heq => hnewline (heq ▸ List.mem_cons_self)
    exact ⟨'\\', c :: word, rfl, by decide,
      Rule.blankRun_of_notMem_delimiters (by decide) fun _ => by simpa using hc⟩

/-- In front of characters without backslashes a word spells them, and behind them what is left
of the text. -/
theorem split {front : List Char} (hfront : '\\' ∉ front) (h : Spells text (front ++ rest)) :
    ∃ text', text = front ++ text' ∧ Spells text' rest := by
  induction front generalizing text with
  | nil => exact ⟨text, rfl, h⟩
  | cons c front ih =>
    obtain ⟨hc, hfront⟩ := not_or.1 (mt List.mem_cons.2 hfront)
    rw [List.cons_append] at h
    generalize hword : front ++ rest = word at h
    cases h with
    | bare _ _ h =>
      subst hword
      obtain ⟨text', rfl, h'⟩ := ih hfront h
      exact ⟨text', rfl, h'⟩
    | escaped => exact absurd rfl hc

/-- What the scanner cuts off a word means the front of the text, and what is left of the word
spells the rest. -/
theorem exists_cuts (h : Spells text word) (hne : text ≠ []) (hnewline : '\n' ∉ text) :
    ∃ kind chars rest text', kind ∈ [.assignmentLhs, .raw] ∧ word = chars ++ rest ∧
      Cuts kind chars rest ∧ text = Quoting.plain chars ++ text' ∧ Spells text' rest := by
  obtain ⟨c, more, rfl, hdelimiter, hblank⟩ := h.exists_cons hne hnewline
  have hpass := scan_of_notMem_delimiters hdelimiter hblank
  by_cases hscan : Rule.assignmentLhs.scan (c :: more) = .pass
  · have htake : Rule.table.take 25 = Rule.table.take 24 ++ [Rule.assignmentLhs] := rfl
    have hcuts : Cuts .raw (c :: more) [] := by
      refine cuts_of_scan (Rule.table.take 25) [] rfl (by simp) ?_ ?_
      · rw [htake, List.append_nil]
        exact List.forall_mem_append.2 ⟨hpass, by simpa using hscan⟩
      · simp [Rule.raw, h.rawRun_eq, Verdict.ofRun]
    exact ⟨.raw, c :: more, [], [], by simp, by simp, hcuts, by simp [h.plain_eq hnewline], .nil⟩
  · obtain ⟨name, rest, hname, hword⟩ := exists_isName_of_scan hscan
    have hbackslash : '\\' ∉ name ++ ['='] := by
      intro hmem
      rcases List.mem_append.1 hmem with hmem | hmem
      · exact (ne_of_isNameChar (hname.2 _ hmem)).1 rfl
      · simp at hmem
    have hsplit : c :: more = (name ++ ['=']) ++ rest := by simp [hword]
    obtain ⟨text', htext, h'⟩ := split hbackslash (hsplit ▸ h)
    exact ⟨.assignmentLhs, name ++ ['='], rest, text', by simp, hsplit,
      cuts_assignmentLhs hname rest, by rw [Quoting.plain_eq_self hbackslash, htext], h'⟩

end Spells

end CommandSyntax
