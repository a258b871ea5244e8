import CommandSyntax.Proofs.Grammar.Continuing
import CommandSyntax.Proofs.Parse.Finality
import CommandSyntax.Proofs.Token.Cutting
import CommandSyntax.Proofs.Token.Settling

/-!
# CommandSyntax.Proofs.Parse.Composition

**Parsing composes over statement terminators.** When an input can be parsed, and a semicolon
or a newline is put behind it, what comes then is parsed as if it stood alone
(`parse_append_separator`): the statements are those of both parts, and an error is the error
of the second part, further on.

Three runs are related. The parse of the whole follows the parse of the first part up to the
separator (`inFront`), and from there on the parse of the second part (`behind`). In between
only the separator is passed.
-/

namespace CommandSyntax

open Production Cursor

variable {limits : ParseLimits} {n extra : Nat} {ticks : Bool} {s s₁ s₂ : String}
  {lexeme : Lexeme} {rest : TokenStream} {c c' : Cursor}

/-! ### The statements of an input -/

/-- The context in which an input is parsed. -/
abbrev ParseLimits.context (limits : ParseLimits) : Context :=
  levelContext limits.nesting false limits.nesting

/-- An input that can be parsed consists of statements up to its end, and it can be scanned. -/
theorem loops_of_parse {body : Script} (h : parse limits s = .ok body) :
    ∃ c read last, Cursor.Opens c s ∧ Loops (scriptRound limits.context) [] c read last ∧
      last.current.kind = .stop ∧ last.size = Text.width s.toList ∧
      body = Script.ofStatements 0 read.reverse ∧
      ∃ tokens, (TokenStream.ofString s).tokens = .ok tokens := by
  obtain ⟨c, last, hopens, hscript, hstop⟩ := parse_eq_ok_iff.1 h
  have hcontext := levelContext_orderly limits.nesting limits.nesting false
  obtain ⟨lexemes, hpasses⟩ := (orderly_script _ _ _ hopens.placed).passes hscript
  rw [script_eq_scriptIn, scriptIn, current_bind_apply] at hscript
  obtain ⟨read, last', hloop, hpure⟩ := bind_eq_ok_iff.1 hscript
  obtain ⟨rfl, rfl⟩ := EStateM.Result.ok.inj hpure
  refine ⟨c, read, last', hopens, ?_, hstop, hopens.size_of_passes hpasses,
    by rw [hopens.start_eq], _, (tokens_of_passes_stop hopens hpasses hstop).1⟩
  exact (loop_eq_ok_iff (scriptRound_gathers hcontext).toAdvances hopens.placed).1 hloop

/-- The statements of an input that follow those read so far, and the end after them. -/
def statementsToEnd (limits : ParseLimits) (start : Nat) (read : List Statement) :
    Production Script := do
  let read' ← loop (scriptRound limits.context) read
  toEnd (Script.ofStatements start read'.reverse)

theorem scriptToEnd_apply (limits : ParseLimits) (c : Cursor) :
    scriptToEnd limits.nesting c = statementsToEnd limits c.current.start [] c := by
  rw [scriptToEnd_eq_bind, script_eq_scriptIn, statementsToEnd]
  have hscript : scriptIn limits.context c =
      (loop (scriptRound limits.context) [] >>= fun read =>
        pure (Script.ofStatements c.current.start read.reverse) : Production Script) c := rfl
  cases hloop : loop (scriptRound limits.context) [] c with
  | error error d =>
    rw [bind_of_eq_error _ hloop] at hscript
    rw [bind_of_eq_error _ hscript, bind_of_eq_error _ hloop]
  | ok read d =>
    rw [bind_of_eq_ok _ hloop] at hscript
    rw [bind_of_eq_ok _ hscript, bind_of_eq_ok _ hloop]

/-- A cursor that stands on the first token of an input in front of a terminator goes along. -/
theorem inStep_inFront (hopens : c.Opens s) (hplaced : c'.Placed) (hlastEnd : c'.lastEnd = n)
    (hsize : c'.size = Text.width s.toList + n + extra)
    (hstream : c'.stream = ((TokenStream.ofString s).shift n).glue (.next lexeme rest))
    (hticks : ticks = false → (TokenStream.ofString s).Tickless)
    (hstart : lexeme.start = Text.width s.toList + n) (hstops : stops true lexeme.kind = true)
    (hstop : lexeme.kind ≠ .stop) :
    (inFront (Text.width s.toList) n extra ticks lexeme rest hstart hstops hstop).InStep c c' where
  placed := hopens.placed
  placed' := hplaced
  lastEnd_eq := by
    rw [hlastEnd, hopens.lastEnd_eq, Nat.zero_add]
    rfl
  size_eq := by
    rw [hsize, hopens.size_eq]
    rfl
  along := by
    rw [hopens.stream_eq]
    exact ⟨⟨0, Cursor.Opens.tiles_ofString s⟩, hticks, hstream⟩

/-! ### Separators -/

/-- The token of a separator. -/
def separatorToken (separator : Char) (position : Nat) : Lexeme :=
  ⟨.statementEnd, position, [separator]⟩

theorem kind_separatorToken_ne_stop (separator : Char) (position : Nat) :
    (separatorToken separator position).kind ≠ .stop := by
  simp [separatorToken]

theorem ofText_separator {separator : Char} (h : separator = ';' ∨ separator = '\n')
    (position : Nat) (text : List Char) :
    TokenStream.ofText position (separator :: text) =
      .next (separatorToken separator position) (.ofText (position + 1) text) := by
  have hwidth : Text.width [separator] = 1 := by rcases h with rfl | rfl <;> rfl
  have hcuts : Cuts .statementEnd [separator] text := cuts_of_mem_singles (by simp [singles, h])
  have hstream := hcuts.ofText_eq position
  rwa [hwidth] at hstream

/-- The parse of a text goes along with the parse of a longer one, up to a separator. -/
abbrev upTo (separator : Char) (s₁ s₂ : String) : Simulation :=
  inFront (Text.width s₁.toList) 0 (1 + Text.width s₂.toList) true
    (separatorToken separator (Text.width s₁.toList))
    (.ofText (Text.width s₁.toList + 1) s₂.toList) rfl rfl (kind_separatorToken_ne_stop _ _)

/-- Up to a separator, an input is read like the part in front of it. -/
theorem exists_resume_of_parse {body : Script} (h : parse limits s₁ = .ok body)
    (hlast : s₁.toList.getLast? ≠ some '\\') {separator : Char}
    (hseparator : separator = ';' ∨ separator = '\n')
    (hs : s.toList = s₁.toList ++ separator :: s₂.toList) :
    ∃ c d read, Cursor.Opens c s ∧ d.Placed ∧
      d.current = separatorToken separator (Text.width s₁.toList) ∧
      d.ahead = .ofText (Text.width s₁.toList + 1) s₂.toList ∧ d.size = Text.width s.toList ∧
      loop (scriptRound limits.context) [] c = resume limits.context read d ∧
      read.reverse = body.statements := by
  obtain ⟨c, read, last, hopens, hloops, hstop, hend, rfl, tokens, htokens⟩ := loops_of_parse h
  have hbreak : separator ∈ breaks := by rcases hseparator with rfl | rfl <;> decide
  -- the stream of the first part is glued to the separator and what follows it
  have hstream : TokenStream.ofString s = ((TokenStream.ofString s₁).shift 0).glue
      (.next (separatorToken separator (Text.width s₁.toList))
        (.ofText (Text.width s₁.toList + 1) s₂.toList)) := by
    rw [TokenStream.ofString, hs, TokenStream.ofText_append_shift htokens hlast hbreak,
      ofText_separator hseparator]
    rfl
  obtain ⟨c', hopens'⟩ : ∃ c' : Cursor, c'.Opens s := exists_opens_of_ne_failed fun error hfailed =>
    TokenStream.shift_glue_ne_failed hopens.ne_failed (by simp) error (hstream.symm.trans hfailed)
  have hsize : Text.width s.toList = Text.width s₁.toList + 0 + (1 + Text.width s₂.toList) := by
    have hwidth : separator.utf8Size = 1 := by rcases hseparator with rfl | rfl <;> rfl
    rw [hs, Text.width_append, Text.width_cons, hwidth, Nat.add_zero]
  have hne := kind_separatorToken_ne_stop separator (Text.width s₁.toList)
  have hstep : (upTo separator s₁ s₂).InStep c c' :=
    inStep_inFront hopens hopens'.placed hopens'.lastEnd_eq (hopens'.size_eq.trans hsize)
      (hopens'.stream_eq.trans hstream) (by simp) rfl rfl hne
  have hcontext := levelContext_orderly limits.nesting limits.nesting false
  obtain ⟨d, hd, hloop⟩ := Simulation.loop_in_front hne (fun _ => id)
    (Simulation.contextFollows_levelContext (.inl ⟨rfl, rfl⟩) (fun _ => rfl) rfl) hcontext hcontext
    hloops hstop hstep []
  obtain ⟨hcurrent, hahead⟩ := inFront_current hd hstop
  have hmove (read : List Statement) :
      Simulation.moveStatements (Span.shift 0) [] read = read := by
    simp [Simulation.moveStatements, funext Statement.mapSpans_id]
  refine ⟨c', d, read, hopens', hd.placed', hcurrent, hahead, ?_, ?_, by simp⟩
  · rw [hd.size_eq, hend, hsize]
    rfl
  · change loop _ (Simulation.moveStatements (Span.shift 0) [] []) c' =
      resume _ (Simulation.moveStatements (Span.shift 0) [] read) d at hloop
    rwa [hmove, hmove] at hloop

/-! ### What comes behind a separator -/

/-- The statements of a text that stands some bytes further on, behind other statements. -/
def Script.behind (start : Nat) (before : List Statement) (n : Nat) (body : Script) : Script :=
  Script.ofStatements start
    (before ++ body.statements.map (Statement.mapSpans (Span.shift n)))

/-- A text behind a separator is read like the text alone, after the statements so far. -/
theorem follows_behind (limits : ParseLimits) (n start position : Nat) (read : List Statement) :
    (behind n).Follows (Script.behind start read.reverse n) (statementsToEnd limits position [])
      (statementsToEnd limits start read) := by
  have hfollows : (behind n).ContextFollows limits.context limits.context :=
    Simulation.contextFollows_levelContext (.inl ⟨rfl, rfl⟩) (fun _ => rfl) rfl
  refine (Simulation.follows_loop (Simulation.follows_scriptRound rfl hfollows read) []).bind
    fun read' => ?_
  have htoEnd : (behind n).Follows _ _ _ :=
    Simulation.follows_toEnd rfl (Script.behind start read.reverse n)
      (Script.ofStatements position read'.reverse)
  simpa [Script.behind, Simulation.moveStatements, CommandSyntax.behind] using htoEnd

/-- Behind the lexeme in front of it, a text goes along with the text alone. -/
theorem exists_inStep_behind (hopens : c.Opens s) (hc' : c'.Placed)
    (hkind : c'.current.kind ≠ .stop ∧ c'.current.kind ≠ .whitespace)
    (hahead : c'.ahead = (TokenStream.ofString s).shift n) (hstop : c'.current.stop = n)
    (hsize : c'.size = Text.width s.toList + n) :
    ∃ d, take c' = .ok c'.current d ∧ (behind n).InStep c d := by
  cases htake : take c' with
  | error error d =>
    obtain ⟨-, scanError, -, hfailed⟩ := take_eq_error htake
    have hne := hopens.ne_failed
    rw [hahead] at hfailed
    cases hstream : TokenStream.ofString s with
    | failed error => exact absurd hstream (hne error)
    | finished | next => simp [hstream, TokenStream.shift] at hfailed
  | ok lexeme d =>
    have hleaves := leaves_of_take hc' hkind.1 htake
    obtain rfl := (take_eq_ok htake).1
    refine ⟨d, rfl, hopens.placed, hleaves.placed, ?_, ?_, ?_⟩
    · rw [hleaves.lastEnd_eq, if_neg hkind.2, hstop, hopens.lastEnd_eq, Nat.zero_add]
      rfl
    · rw [hleaves.size_eq, hsize, hopens.size_eq]
      rfl
    · rw [Simulation.stream_of_take hc' hkind.1 htake, hopens.stream_eq, hahead]
      rfl

theorem statementsToEnd_eq_of_eq {start : Nat} {read read' : List Statement}
    (h : loop (scriptRound limits.context) read c = loop (scriptRound limits.context) read' c') :
    statementsToEnd limits start read c = statementsToEnd limits start read' c' := by
  rw [statementsToEnd, statementsToEnd]
  cases hloop : loop (scriptRound limits.context) read' c' with
  | ok value d => rw [bind_of_eq_ok _ hloop, bind_of_eq_ok _ (h.trans hloop)]
  | error error d => rw [bind_of_eq_error _ hloop, bind_of_eq_error _ (h.trans hloop)]

/-- **Parsing composes over statement terminators.** Behind an input that can be parsed and a
separator, another input is parsed as if it stood alone. -/
theorem parse_append_separator {body₁ : Script} (h : parse limits s₁ = .ok body₁)
    (hlast : s₁.toList.getLast? ≠ some '\\') {separator : Char}
    (hseparator : separator = ';' ∨ separator = '\n') (s₂ : String) :
    (∀ body₂, parse limits s₂ = .ok body₂ →
      ∃ body, parse limits (s₁ ++ String.singleton separator ++ s₂) = .ok body ∧
        body.statements = body₁.statements ++
          body₂.statements.map (Statement.mapSpans (Span.shift (Text.width s₁.toList + 1)))) ∧
    ∀ error, parse limits s₂ = .error error →
      parse limits (s₁ ++ String.singleton separator ++ s₂) =
        .error (error.shift (Text.width s₁.toList + 1)) := by
  have hs : (s₁ ++ String.singleton separator ++ s₂).toList =
      s₁.toList ++ separator :: s₂.toList := by simp
  obtain ⟨c, d, read, hopens, hplaced, hcurrent, hahead, hsize, hloop, hread⟩ :=
    exists_resume_of_parse h hlast hseparator hs
  have hkind : d.current.kind = .statementEnd := by rw [hcurrent]; rfl
  have hwidth : separator.utf8Size = 1 := by rcases hseparator with rfl | rfl <;> rfl
  have hahead : d.ahead = (TokenStream.ofString s₂).shift (Text.width s₁.toList + 1) := by
    rw [hahead, TokenStream.ofString, ← TokenStream.ofText_shift, Nat.zero_add]
  rw [parse_of_opens hopens, scriptToEnd_apply]
  rcases opens_or_failed s₂ with ⟨c₂, hopens₂⟩ | ⟨error, hfailed, -⟩
  · have hstop : d.current.stop = Text.width s₁.toList + 1 := by
      rw [hcurrent, Lexeme.stop, separatorToken, Text.width_cons, hwidth, Text.width_nil]
    have hsize' : d.size = Text.width s₂.toList + (Text.width s₁.toList + 1) := by
      rw [hsize, hs, Text.width_append, Text.width_cons, hwidth]
      omega
    obtain ⟨e, htake, hstep⟩ :=
      exists_inStep_behind hopens₂ hplaced (by simp [hkind]) hahead hstop hsize'
    have hfollows := follows_behind limits (Text.width s₁.toList + 1) c.current.start
      c₂.current.start read
    rw [resume_of_take hkind htake] at hloop
    rw [statementsToEnd_eq_of_eq hloop, parse_of_opens hopens₂, scriptToEnd_apply]
    cases hresult : statementsToEnd limits c₂.current.start [] c₂ with
    | ok body₂ d₂ =>
      rcases hfollows.eq_ok hstep hresult with hstrays | ⟨d', hresult', -⟩
      · exact hstrays.astray.elim
      rw [hresult']
      refine ⟨fun body₂' h₂ => ?_, by simp⟩
      obtain rfl := Except.ok.inj h₂
      exact ⟨_, rfl, by rw [Script.behind, Script.statements_ofStatements, hread]⟩
    | error error d₂ =>
      rcases hfollows.eq_error hstep hresult with hlost | ⟨d', hresult'⟩
      · exact hlost.elim
      rw [hresult']
      exact ⟨by simp, fun error' h₂ => by rw [← Except.error.inj h₂]; rfl⟩
  · -- nothing can be read behind the separator
    have htake : take d = .error (.scan (error.shift (Text.width s₁.toList + 1))) d.mark := by
      rw [take_apply, hahead, hfailed, TokenStream.shift]
    rw [resume_of_take_error hkind htake] at hloop
    rw [parse_of_failed hfailed, statementsToEnd, bind_of_eq_error _ hloop]
    exact ⟨fun body₂ h₂ => by simp at h₂, fun error' h₂ => by rw [← Except.error.inj h₂]; rfl⟩

/-- The command of one word. -/
def Command.ofWord (word : Word) (span : Span) : Command := ⟨[], [word], none, none, none, span⟩

/-- The statement of a command of one word of one part. -/
def Statement.ofPart (part : Part) (span : Span) : Statement :=
  ⟨⟨[.ofWord ⟨[part], span⟩ span], span⟩, false, span⟩

/-- Behind a command and a newline, another command and a lone bar. -/
theorem parse_append_newline :
    (∃ body, parse ⟨1⟩ ("a" ++ String.singleton '\n' ++ "b") = .ok body ∧
      body.statements = [.ofPart (.literal "a") ⟨0, 1⟩, .ofPart (.literal "b") ⟨2, 3⟩]) ∧
    parse ⟨1⟩ ("a" ++ String.singleton '\n' ++ "|") = .error (.unexpectedPipe ⟨2, 3⟩) := by
  have ha : parse ⟨1⟩ "a" = .ok ⟨[.ofPart (.literal "a") ⟨0, 1⟩], ⟨0, 1⟩⟩ := by decide +kernel
  have hb : parse ⟨1⟩ "b" = .ok ⟨[.ofPart (.literal "b") ⟨0, 1⟩], ⟨0, 1⟩⟩ := by decide +kernel
  have hbar : parse ⟨1⟩ "|" = .error (.unexpectedPipe ⟨0, 1⟩) := by decide +kernel
  exact ⟨(parse_append_separator ha (by decide) (.inr rfl) "b").1 _ hb,
    (parse_append_separator ha (by decide) (.inr rfl) "|").2 _ hbar⟩

end CommandSyntax
