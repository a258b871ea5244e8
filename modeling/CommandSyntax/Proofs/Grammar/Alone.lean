import CommandSyntax.Proofs.Grammar.StatementSuccess

/-!
# CommandSyntax.Proofs.Grammar.Alone

**What stands alone.** A run of text outside double quotes is a word of one literal when nothing
behind it goes on with a word (`word?_of_text`), and words up to the end of the input are a command
(`command?_of_words`). A command is all of its script when nothing behind it goes on with a
pipeline, a statement or a list (`scriptIn_of_command`), and without a command the script has no
statements (`scriptIn_of_no_command`). Both scripts may end in front of a lexeme that no script
takes.
-/

namespace CommandSyntax

/-- The script of a single command. -/
def Script.ofCommand (command : Command) (span : Span) : Script :=
  ⟨[⟨⟨[command], span⟩, false, span⟩], span⟩

namespace Production

open Cursor

variable {c c₁ c' : Cursor} {context : Context}

/-! ### Words -/

/-- Text starts no other part and is no double quote. -/
theorem ne_of_isText {kind : TokenKind} (h : isText false kind = true) :
    kind ≠ .doubleQuote ∧ kind ≠ .whitespace ∧ ∀ inBackticks,
      startsPart inBackticks false kind = false := by
  cases kind <;> simp_all [isText, startsPart]

theorem word?_of_text (hcontext : ContextOrderly context) (hc : c.Placed) {lexemes : List Lexeme}
    (hpasses : c.Passes lexemes c') (htext : ∀ lexeme ∈ lexemes, isText false lexeme.kind = true)
    {text : List Char} (hmeans : lexemes.flatMap (textOf false) = text) (hne : text ≠ [])
    (hend : inWord context.inBackticks c'.current.kind = false) :
    word? context c = .ok
      (some ⟨[.literal (String.ofList text)], ⟨c.current.start, c'.current.start⟩⟩) c' ∧
        c'.lastEnd = c'.current.start := by
  have hlexemes : lexemes ≠ [] := by
    rintro rfl
    exact hne hmeans.symm
  have hfirst : isText false c.current.kind = true := by
    obtain ⟨first, rest, rfl⟩ := List.exists_cons_of_ne_nil hlexemes
    obtain ⟨rfl, -⟩ := passes_cons_iff_step.1 hpasses
    exact htext _ List.mem_cons_self
  have hlastEnd : c'.lastEnd = c'.current.start := by
    obtain ⟨front, last, rfl⟩ := (List.eq_nil_or_concat' lexemes).resolve_left hlexemes
    exact hpasses.lastEnd_eq hc (ne_of_isText (htext last (by simp))).2.1
  obtain ⟨hquote, -, hstarts⟩ := ne_of_isText hfirst
  have htoggle : toggleQuotes false c = .ok false c :=
    (toggleQuotes_eq_ok_iff hc).2 ⟨[], .nil c, by simp, hquote, rfl⟩
  have hpart : part? context false c = .ok (some (.literal (String.ofList text))) c' := by
    refine (part?_eq_ok_iff hc).2 (.text (hstarts _) ((text?_eq_ok_iff hc).2
      ⟨_, hpasses, htext, (endsWord_self hend).isText_eq_false, ?_⟩))
    rw [hmeans, Part.literal?, if_neg (by simpa using hne)]
  exact ⟨(word?_eq_some_iff hcontext hc).2
    ⟨.part htoggle hpart (.done (endsWord_self hend)), by simp, by rw [hlastEnd]⟩, hlastEnd⟩

/-! ### Commands -/

/-- A run of words that reaches up to the end of the input is a command. -/
theorem command?_of_words (hcontext : ContextOrderly context) (hc : c.Placed)
    (hkind : c.current.kind ∉ [.whitespace, .assignmentLhs])
    (hredirect : Redirection.ofKind? c.current.kind = none) {run : List Word} (hne : run ≠ [])
    (hwords : words context c = .ok run c') (hstop : c'.current.kind = .stop) :
    command? context c = .ok (some ⟨[], run, none, none, none,
      ⟨c.current.start, max c'.lastEnd c.current.start⟩⟩) c' := by
  simp only [List.mem_cons, List.not_mem_nil, or_false, not_or] at hkind
  obtain ⟨hblank, hassignment⟩ := hkind
  have hround : commandRound context (.empty (Span.empty c.current.start)) c =
      .ok (.yield ⟨[], run, none, none, none, Span.empty c.current.start⟩) c' :=
    (commandRound_eq_yield_iff hc).2 ⟨c, skips_self hblank, .words hredirect hne hwords⟩
  have hc' := ((commandRound_advances hcontext).left_lt hc hround).1
  have hends : EndsWord context.inBackticks false c' c' := endsWord_self (by rw [hstop]; rfl)
  have hdone {command : Command} : commandRound context command c' = .ok (.done command) c' :=
    (commandRound_eq_done_iff hcontext hc').2
      ⟨rfl, c', skips_self (by simp [hstop]), by rw [hstop]; rfl, hends⟩
  have hcontent : CommandContent context c
      ⟨[], run, none, none, none, Span.empty c.current.start⟩ c' :=
    ⟨c, .done ⟨rfl, skips_self hblank, hassignment⟩, .yield hround (.done hdone)⟩
  refine (command?_eq_ok_iff hcontext hc).2 ⟨c, _, skips_self hblank, hcontent, ?_⟩
  rw [if_neg (by simp [Command.isEmpty, hne])]

/-! ### Scripts -/

/-- The kinds of lexemes that go on behind a command. -/
def goesOn : List TokenKind := [.pipe, .background, .statementEnd]

section Scripts

variable (hcontext : ContextOrderly context) (hc : c.Placed)
  (hkind : c.current.kind ∉ [.whitespace, .stop, .pipe]) (hskip : c₁.Skips c')
  (hend : c'.current.kind ∉ goesOn)
include hcontext hc hkind hskip hend

/-- A command behind which nothing goes on is all of its script. -/
theorem scriptIn_of_command {command : Command}
    (hcommand : command? context c = .ok (some command) c₁) :
    scriptIn context c = .ok (.ofCommand command ⟨command.span.start, c'.lastEnd⟩) c' := by
  simp only [goesOn, List.mem_cons, List.not_mem_nil, or_false, not_or] at hkind hend
  obtain ⟨hblank, hstop, hpipe⟩ := hkind
  have hself : c'.Skips c' := skips_self hskip.kind_ne
  have hstage := (stage?_eq_ok_iff hcontext hc).2
    ⟨c, c₁, skips_self hblank, hstop, hpipe, hcommand, hskip⟩
  have hpipeline := (pipeline?_eq_some_iff hcontext hc).2
    ⟨command, [], c', hstage, .done ⟨rfl, rfl, hend.1⟩, rfl⟩
  have hstatement := (statement?_eq_some_iff hcontext hc).2
    ⟨_, false, c', c', c', hpipeline, hself, accept_of_kind_ne hend.2.1, hself, rfl⟩
  refine (scriptIn_eq_ok_iff hcontext hc).2 ⟨_, .done (.inr
    ⟨some _, c, c', rfl, skips_self hblank, hstop, hstatement, hself, hend.2.2⟩), ?_⟩
  simp [Script.ofCommand, Script.ofStatements, Span.merge]

/-- Where nothing of a command stands the script ends. -/
theorem scriptIn_of_no_command (hcommand : command? context c = .ok none c₁) :
    scriptIn context c = .ok (.empty c.current.start) c' := by
  simp only [goesOn, List.mem_cons, List.not_mem_nil, or_false, not_or] at hkind hend
  obtain ⟨hblank, hstop, hpipe⟩ := hkind
  have hstatement := statement?_eq_none_iff.2 ((stage?_eq_ok_iff hcontext hc).2
    ⟨c, c₁, skips_self hblank, hstop, hpipe, hcommand, hskip⟩)
  exact (scriptIn_eq_ok_iff hcontext hc).2 ⟨[], .done (.inr
    ⟨none, c, c', rfl, skips_self hblank, hstop, hstatement, skips_self hskip.kind_ne,
      hend.2.2⟩), rfl⟩

end Scripts

end Production

end CommandSyntax
