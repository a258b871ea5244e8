import CommandSyntax.Proofs.Grammar.Alone
import CommandSyntax.Proofs.Parse.RoundTrip
import CommandSyntax.Proofs.Token.Spelling

/-!
# CommandSyntax.Proofs.Parse.Escaping

**Backslashes quote any text.** However a text is spelled, the word that spells it is read as one
literal of that text, over all bytes of the word (`parse_spelled`). A newline cannot be spelled,
since a backslash in front of it removes it.

The scanner may cut the word into several lexemes. All of them are plain text or names with an
equals sign, so the word goes on through them, and what they mean is the text
(`exists_passes_of_spells`).
-/

namespace CommandSyntax

open Production Cursor

variable {text word : List Char} {blank : Char} {c c' : Cursor}

/-! ### The spelled word -/

theorem Spells.heads (h : Spells text word) (hnewline : '\n' ∉ text) :
    ∃ kind ∈ [.stop, .assignmentLhs, .raw], Heads kind word := by
  cases htext : text with
  | nil =>
    subst htext
    cases h
    exact ⟨.stop, by simp, heads_nil⟩
  | cons d more =>
    obtain ⟨kind, chars, rest, -, hkind, rfl, hcuts, -⟩ := h.exists_cuts (by simp [htext]) hnewline
    exact ⟨kind, List.mem_cons_of_mem _ hkind, hcuts.heads⟩

/-- A cursor passes a spelled word as text that means what is spelled. -/
theorem exists_passes_of_spells (h : Spells text word) (hnewline : '\n' ∉ text)
    (hc : c.Faces word) :
    ∃ lexemes c', c.Passes lexemes c' ∧ (∀ lexeme ∈ lexemes, isText false lexeme.kind = true) ∧
      lexemes.flatMap (textOf false) = text ∧ c'.Faces [] := by
  induction hn : word.length using Nat.strongRecOn generalizing text word c with
  | ind n ih =>
    subst hn
    by_cases hne : text = []
    · subst hne
      cases h
      exact ⟨[], c, .nil c, by simp, rfl, hc⟩
    obtain ⟨kind, chars, rest, more, hkind, rfl, hcuts, rfl, hmore⟩ := h.exists_cuts hne hnewline
    have hnewline' : '\n' ∉ more := fun hmem => hnewline (List.mem_append_right _ hmem)
    obtain ⟨next, -, hheads⟩ := hmore.heads hnewline'
    obtain ⟨hcurrent, htext, c₁, hstep, h₁⟩ := hc.cut hcuts hheads
    have hplain : textOf false c.current = Quoting.plain chars := by
      rcases List.mem_pair.1 hkind with rfl | rfl <;> simp [textOf, textOf?, hcurrent, htext]
    have htexts : isText false c.current.kind = true := by
      rcases List.mem_pair.1 hkind with rfl | rfl <;> simp [hcurrent, isText]
    have hshorter : rest.length < (chars ++ rest).length := by
      have := List.length_pos_iff.2 hcuts.1
      rw [List.length_append]
      omega
    obtain ⟨lexemes, c', hpasses, hall, hmeans, h'⟩ := ih _ hshorter hmore hnewline' h₁ rfl
    exact ⟨c.current :: lexemes, c', hstep.trans hpasses, List.forall_mem_cons.2 ⟨htexts, hall⟩,
      by rw [List.flatMap_cons, hplain, hmeans], h'⟩

/-! ### The command of two words -/

/-- The word of a literal, at a span. -/
def Word.ofLiteral (text : String) (span : Span) : Word := ⟨[.literal text], span⟩

/-- The command that echoes a text which takes some bytes. -/
def Command.echo (text : String) (width : Nat) : Command where
  assignments := []
  arguments := [.ofLiteral "echo" ⟨0, 4⟩, .ofLiteral text ⟨5, 5 + width⟩]
  input := none
  output := none
  append := none
  span := ⟨0, 5 + width⟩

/-- The name of the command, as it is written. -/
def echoName : List Char := ['e', 'c', 'h', 'o']

theorem cuts_echoName (hblank : isBlank blank = true) (rest : List Char) :
    Cuts .raw echoName (blank :: rest) :=
  cuts_raw ⟨by decide, by simp [echoName, isNameChar]⟩
    (beginsDelimited_cons (isDelimiter_of_isBlank hblank))

theorem words_of_spells {context : Context} (hcontext : ContextOrderly context)
    (h : Spells text word) (hne : text ≠ []) (hnewline : '\n' ∉ text)
    (hblank : isBlank blank = true) (hstart : c.current.start = 0)
    (hc : c.Faces (echoName ++ blank :: word)) :
    ∃ c', words context c =
        .ok (Command.echo (String.ofList text) (Text.width word)).arguments c' ∧
      c'.Faces [] ∧ c'.lastEnd = 5 + Text.width word := by
  obtain ⟨kind, hkind, hheads⟩ := h.heads hnewline
  have hnotBlank : kind ≠ .whitespace := ne_of_mem_of_not_mem hkind (by simp)
  have hblanks : Heads .whitespace (blank :: word) := (cuts_blank hblank hheads hnotBlank).heads
  -- the name, up to the blank
  obtain ⟨hecho, htext, c₁, hname, h₁⟩ := hc.cut (cuts_echoName hblank word) hblanks
  have hkind₁ := h₁.stands.kind_eq hblanks
  have hmeans : textOf false c.current = echoName := by
    simp [textOf, textOf?, hecho, htext, Quoting.plain_eq_self (by decide : '\\' ∉ echoName)]
  obtain ⟨hword, -⟩ := word?_of_text hcontext hc.stands.placed hname (by simp [hecho, isText])
    (by simpa using hmeans) (by decide) (by rw [hkind₁]; rfl)
  -- the spelled word, up to the end of the input
  obtain ⟨c₂, hskip, h₂⟩ := h₁.skips_blank hblank hheads hnotBlank
  obtain ⟨lexemes, c₃, hpasses, htexts, hspelled, h₃⟩ := exists_passes_of_spells h hnewline h₂
  have hkind₃ := h₃.stands.kind_eq heads_nil
  obtain ⟨hword', hlastEnd⟩ := word?_of_text hcontext h₂.stands.placed hpasses htexts hspelled hne
    (by rw [hkind₃]; rfl)
  have hwords := (words_eq_ok_iff hcontext hc.stands.placed).2
    (.yield ⟨_, c₁, rfl, hword, hkind₁, hskip⟩ (.done (.inr ⟨_, rfl, hword', by simp [hkind₃]⟩)))
  -- where the two words start and end
  have hstart₁ : c₁.current.start = 4 :=
    (hc.start_eq hname.reaches h₁).trans (by rw [hstart]; rfl)
  have hfront₁ : c₁.Faces ([blank] ++ word) := h₁
  have hstart₂ : c₂.current.start = 5 := by
    rw [hfront₁.start_eq hskip.reaches h₂, hstart₁, Text.width_cons, utf8Size_of_isBlank hblank]
    rfl
  have hfront₂ : c₂.Faces (word ++ []) := by rwa [List.append_nil]
  have hstart₃ : c₃.current.start = 5 + Text.width word := by
    rw [hfront₂.start_eq hpasses.reaches h₃, hstart₂]
  rw [hstart, hstart₁, hstart₂, hstart₃] at hwords
  exact ⟨c₃, hwords, h₃, hlastEnd.trans hstart₃⟩

/-- **Backslashes quote any text.** A text without newlines, spelled in any way behind a command
and a blank, is the one argument of the command: a single literal over all bytes of the word. -/
theorem parse_spelled (limits : ParseLimits) {text word : String} {blank : Char} (hne : text ≠ "")
    (hnewline : '\n' ∉ text.toList) (hblank : isBlank blank = true)
    (h : Spells text.toList word.toList) :
    parse limits ("echo" ++ String.singleton blank ++ word) =
      .ok (.ofCommand (.echo text (Text.width word.toList)) ⟨0, 5 + Text.width word.toList⟩) := by
  have hinput : ("echo" ++ String.singleton blank ++ word).toList =
      echoName ++ blank :: word.toList := by
    simp [echoName]
  have hecho := hinput ▸ (cuts_echoName hblank word.toList).heads
  obtain ⟨c, hopens, hstands⟩ := exists_opens_of_heads hecho
  have hcontext := levelContext_orderly limits.nesting limits.nesting false
  have hplaced := hopens.placed
  have hkind : c.current.kind = .raw := hstands.kind_eq hecho
  obtain ⟨c', hwords, h', hlastEnd⟩ := words_of_spells hcontext h (by simpa using hne) hnewline
    hblank hopens.start_eq (hinput ▸ hopens.faces)
  have hstop : c'.current.kind = .stop := h'.stands.kind_eq heads_nil
  have hcommand := command?_of_words hcontext hplaced (by simp [hkind]) (by rw [hkind]; rfl)
    (by simp [Command.echo]) hwords hstop
  have hscript := scriptIn_of_command hcontext hplaced (by simp [hkind])
    (skips_self (by simp [hstop])) (by simp [hstop, goesOn]) hcommand
  rw [hopens.start_eq, hlastEnd, Nat.max_eq_left (Nat.zero_le _), String.ofList_toList] at hscript
  exact parse_eq_ok_iff.2 ⟨c, c', hopens, by rw [script_eq_scriptIn]; exact hscript, hstop⟩

/-- A text with an equals sign, a backslash, a quote, a blank and characters that are not ASCII,
one of which has a backslash that it does not need, behind a tab. -/
theorem parse_spelled_mixed :
    "a=\\é' ü" ≠ "" ∧ '\n' ∉ "a=\\é' ü".toList ∧ isBlank '\t' = true ∧
      Spells "a=\\é' ü".toList "a=\\\\é\\'\\ \\ü".toList ∧
      parse {} ("echo" ++ String.singleton '\t' ++ "a=\\\\é\\'\\ \\ü") =
        .ok (.ofCommand (.echo "a=\\é' ü" 13) ⟨0, 18⟩) := by
  have hne : "a=\\é' ü" ≠ "" := by decide
  have hnewline : '\n' ∉ "a=\\é' ü".toList := by decide
  have hspells : Spells "a=\\é' ü".toList "a=\\\\é\\'\\ \\ü".toList :=
    .bare (by decide) (by decide) <| .bare (by decide) (by decide) <| .escaped '\\' <|
      .bare (by decide) (by decide) <| .escaped '\'' <| .escaped ' ' <| .escaped 'ü' .nil
  have hblank : isBlank '\t' = true := by decide
  exact ⟨hne, hnewline, hblank, hspells, parse_spelled {} hne hnewline hblank hspells⟩

end CommandSyntax
