import CommandSyntax.Proofs.Grammar.ReadingBack
import CommandSyntax.Proofs.Parse.Trace

/-!
# CommandSyntax.Proofs.Parse.RoundTrip

**A printed tree parses to itself**, up to spans, when it can be written at all
(`Script.WellFormed`) and the limit on nesting is at least its depth. Any text may stand in
its literals: newlines, quotes and backslashes, and characters that are not ASCII.
-/

namespace CommandSyntax

open Cursor Production

/-- A cursor stands in front of an input that begins with a lexeme. -/
theorem exists_opens_of_heads {input : String} {kind : TokenKind} (h : Heads kind input.toList) :
    ∃ c : Cursor, c.Opens input ∧ c.Stands input.toList := by
  obtain ⟨c, hopens⟩ := exists_opens_of_ne_failed fun error => ofText_ne_failed h error
  exact ⟨c, hopens, hopens.stands⟩

/-- The text of a tree parses to the tree, up to spans. -/
theorem parse_text {limits : ParseLimits} {script : Script} (hwellFormed : script.WellFormed)
    (hdepth : script.substitutionDepth ≤ limits.nesting) :
    ∃ script', parse limits script.text = .ok script' ∧
      script'.mapSpans eraseSpan = script.mapSpans eraseSpan := by
  have hread : (Node.script script).ReadsBack limits.nesting := readsBack _ _ hwellFormed
  have htext : script.text.toList = script.print ++ [] := by simp [Script.text]
  obtain ⟨first, -, hheads⟩ := hread.heads heads_nil (by simp [scriptFollows])
  obtain ⟨c, hopens, h⟩ := exists_opens_of_heads (htext ▸ hheads)
  obtain ⟨script', c', hok, h', hlike⟩ :=
    hread.reads hdepth heads_nil (by simp [scriptFollows]) (htext ▸ h)
  refine ⟨script', parse_eq_ok_iff.2 ⟨c, c', hopens, ?_, h'.kind_eq heads_nil⟩, hlike⟩
  rw [script_eq_scriptIn]
  exact hok

/-! ### A tree with everything nested -/

/-- A word with a quote and a newline in its text, next to a parameter. -/
def quotedWord : Word := ⟨[.literal "it's\n", .parameter "?"], Span.empty 0⟩

/-- A background pipeline of two assignments of that word. -/
def innerScript : Script :=
  ⟨[⟨⟨[⟨[⟨"name", some quotedWord, Span.empty 0⟩], [], none, none, none, Span.empty 0⟩,
    ⟨[⟨"name", none, Span.empty 0⟩], [], none, none, some quotedWord, Span.empty 0⟩],
    Span.empty 0⟩, true, Span.empty 0⟩], Span.empty 0⟩

/-- A command with that pipeline substituted. -/
def outerScript : Script :=
  ⟨[⟨⟨[⟨[], [⟨[.substitution innerScript, .glob .star], Span.empty 0⟩], some quotedWord, none, none,
    Span.empty 0⟩], Span.empty 0⟩, false, Span.empty 0⟩], Span.empty 0⟩

theorem parse_text_outerScript :
    outerScript.WellFormed ∧ outerScript.substitutionDepth ≤ 1 ∧
      ∃ script', parse ⟨1⟩ outerScript.text = .ok script' ∧
        script'.mapSpans eraseSpan = outerScript.mapSpans eraseSpan := by
  have hwellFormed : outerScript.WellFormed := by
    simp [Script.WellFormed, Script.nodes_eq_all, Node.all_eq, Node.children, outerScript,
      innerScript, quotedWord, Node.WellFormed, Command.isEmpty, Command.targets, IsName,
      isNameChar]
  have hdepth : outerScript.substitutionDepth ≤ 1 := by
    have heq : outerScript.substitutionDepth = 1 := by decide +kernel
    exact Nat.le_of_eq heq
  exact ⟨hwellFormed, hdepth, parse_text hwellFormed hdepth⟩

end CommandSyntax
