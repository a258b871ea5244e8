import CommandSyntax.Proofs.Grammar.ScriptRespacing
import CommandSyntax.Proofs.Parse.Trace
import CommandSyntax.Proofs.Token.LayoutEdit
import CommandSyntax.Script.Equality

/-!
# CommandSyntax.Proofs.Parse.Respacing

**Layout does not matter.** The productions of the grammar treat streams alike that differ only in
their layout (`carries_script`), and an edit of the layout makes no other difference between the
streams of two inputs (`LayoutEdit.respaced`). So the edited input is parsed, and into the same
script up to spans.

An edit at the end of an input has to know that nothing is open there. This is a fact about the
parse, and it comes out of the same induction: an input beside itself ends where nothing is open
(`frames_of_parse`).
-/

namespace CommandSyntax

open Production

variable {last : List Frame → Prop} {limits : ParseLimits} {input input' : String}
  {script : Script} {lexemes : List Lexeme}

/-- An input with another layout is parsed in the same way, and what is open at the end is nothing
in both. -/
theorem parse_of_respaced (h : parse limits input = .ok script)
    (hrespaced : TokenStream.Respaced last .start (.ofString input) (.ofString input')) :
    last [] ∧ ∃ script', parse limits input' = .ok script' ∧
      script'.mapSpans eraseSpan = script.mapSpans eraseSpan := by
  obtain ⟨c, c', hopens, hscript, hstop⟩ := parse_eq_ok_iff.1 h
  obtain ⟨d, hopens'⟩ := exists_opens_of_ne_failed hrespaced.ne_failed
  have hbeside : Cursor.Beside last ⟨[], true⟩ c d := by
    refine ⟨hopens.placed, hopens'.placed, ?_⟩
    rw [hopens.stream_eq, hopens'.stream_eq]
    exact hrespaced
  obtain ⟨script', d', hscript', hmeaning, hlevel⟩ :=
    carries_script limits.nesting limits.nesting Frame.Suits.nil hbeside hscript
  have hstop' := hlevel.kind_eq.trans hstop
  refine ⟨?_, script', parse_eq_ok_iff.2 ⟨d, d', hopens', hscript', hstop'⟩, hmeaning⟩
  have hend := hlevel.respaced
  rw [hlevel.placed.stream_of_stop hstop] at hend
  exact hend.of_finished (by rw [hlevel.placed'.headKind_stream, hstop'])

/-- At the end of an input that is parsed nothing is open. -/
theorem frames_of_parse (h : parse limits input = .ok script) (hinput : ReadsAs input lexemes) :
    (Place.behind lexemes).frames = [] := by
  obtain ⟨htext, hcut⟩ := hinput.cut
  have hsame : TokenStream.Respaced ((Place.behind lexemes).frames = ·) .start (.ofString input)
      (.ofString input) := by
    rw [TokenStream.ofString, htext]
    exact .refl hcut rfl 0 0
  exact (parse_of_respaced h hsame).1

/-- **Layout does not matter.** Edits of the layout, any number of them one after the other, turn
an input that is parsed and does not end in a backslash into one that is parsed under the same
limits. Both stand for the same script, up to spans. -/
theorem parse_of_layoutEdits (h : parse limits input = .ok script)
    (hlast : input.toList.getLast? ≠ some '\\')
    (hedits : Relation.ReflTransGen LayoutEdit input input') :
    ∃ script', parse limits input' = .ok script' ∧
      script'.mapSpans eraseSpan = script.mapSpans eraseSpan := by
  suffices hkept : input'.toList.getLast? ≠ some '\\' ∧
      ∃ script', parse limits input' = .ok script' ∧
        script'.mapSpans eraseSpan = script.mapSpans eraseSpan from hkept.2
  induction hedits with
  | refl => exact ⟨hlast, script, h, rfl⟩
  | tail _ hedit ih =>
    obtain ⟨hbackslash, script₁, hparse, hsame₁⟩ := ih
    have hrespaced := hedit.respaced hbackslash fun _ hinput =>
      congrArg Frame.isOpen (frames_of_parse hparse hinput)
    obtain ⟨-, script', hparse', hsame⟩ := parse_of_respaced hparse hrespaced
    exact ⟨hedit.getLast?_ne hbackslash, script', hparse', hsame.trans hsame₁⟩

/-- The script of `"$(a|b)";c`. -/
def quotedPipeline : Script :=
  ⟨[⟨⟨[⟨[], [⟨[.substitution ⟨[⟨⟨[⟨[], [⟨[.literal "a"], ⟨3, 4⟩⟩], none, none, none, ⟨3, 4⟩⟩,
          ⟨[], [⟨[.literal "b"], ⟨5, 6⟩⟩], none, none, none, ⟨5, 6⟩⟩], ⟨3, 6⟩⟩, false, ⟨3, 6⟩⟩],
        ⟨3, 6⟩⟩], ⟨0, 8⟩⟩], none, none, none, ⟨0, 8⟩⟩], ⟨0, 8⟩⟩, false, ⟨0, 8⟩⟩,
      ⟨⟨[⟨[], [⟨[.literal "c"], ⟨9, 10⟩⟩], none, none, none, ⟨9, 10⟩⟩], ⟨9, 10⟩⟩, false, ⟨9, 10⟩⟩],
    ⟨0, 10⟩⟩

/-- Blanks are put in front of a bar in a substitution, though it stands in double quotes, and a
newline comes in place of a semicolon. -/
theorem layoutEdit_quotedPipeline :
    LayoutEdit "\"$(a|b)\";c" "\"$(a \\\n|b)\";c" ∧
      LayoutEdit "\"$(a \\\n|b)\";c" "\"$(a \\\n|b)\"\nc" := by
  have hspacing : Spacing [' ', '\\', '\n'] := .blank rfl (.escapedNewline .nil)
  constructor
  · exact @LayoutEdit.insert _
      [⟨.doubleQuote, 0, ['"']⟩, ⟨.startSubstitution, 1, ['$', '(']⟩, ⟨.raw, 3, ['a']⟩]
      [⟨.pipe, 4, ['|']⟩, ⟨.raw, 5, ['b']⟩, ⟨.rightParen, 6, [')']⟩, ⟨.doubleQuote, 7, ['"']⟩,
        ⟨.statementEnd, 8, [';']⟩, ⟨.raw, 9, ['c']⟩] [' ', '\\', '\n']
      ⟨10, by decide +kernel⟩ (.inr (.inr (.inr ⟨_, rfl, by decide⟩))) (fun _ => rfl)
      ⟨hspacing, ' ', rfl, rfl⟩
  · exact @LayoutEdit.exchange _
      [⟨.doubleQuote, 0, ['"']⟩, ⟨.startSubstitution, 1, ['$', '(']⟩, ⟨.raw, 3, ['a']⟩,
        ⟨.whitespace, 4, [' ', '\\', '\n']⟩, ⟨.pipe, 7, ['|']⟩, ⟨.raw, 8, ['b']⟩,
        ⟨.rightParen, 9, [')']⟩, ⟨.doubleQuote, 10, ['"']⟩]
      [⟨.raw, 12, ['c']⟩] ⟨.statementEnd, 11, [';']⟩ '\n' ⟨13, by decide +kernel⟩ rfl rfl (.inr rfl)

/-- Both edits leave the script as it is, up to spans. -/
theorem parse_quotedPipeline :
    parse ⟨1⟩ "\"$(a|b)\";c" = .ok quotedPipeline ∧
      ("\"$(a|b)\";c".toList.getLast? ≠ some '\\') ∧
      Relation.ReflTransGen LayoutEdit "\"$(a|b)\";c" "\"$(a \\\n|b)\"\nc" ∧
      ∃ script, parse ⟨1⟩ "\"$(a \\\n|b)\"\nc" = .ok script ∧
        script.mapSpans eraseSpan = quotedPipeline.mapSpans eraseSpan := by
  have hparse : parse ⟨1⟩ "\"$(a|b)\";c" = .ok quotedPipeline := by decide +kernel
  have hlast : "\"$(a|b)\";c".toList.getLast? ≠ some '\\' := by decide
  have hedits : Relation.ReflTransGen LayoutEdit "\"$(a|b)\";c" "\"$(a \\\n|b)\"\nc" :=
    .tail (.single layoutEdit_quotedPipeline.1) layoutEdit_quotedPipeline.2
  exact ⟨hparse, hlast, hedits, parse_of_layoutEdits hparse hlast hedits⟩

end CommandSyntax
