import CommandSyntax.Proofs.Grammar.WordRespacing
import CommandSyntax.Proofs.Grammar.StatementSuccess

/-!
# CommandSyntax.Proofs.Grammar.ScriptRespacing

**Commands, statements and scripts with another layout.** Two cursors that stand beside each other
read the same commands, pipelines, statements and scripts, up to spans. Each production skips the
blanks before it looks for a separator, so that the cursors are level wherever one is accepted.

With scripts of one level less inside the substitutions this holds of the scripts of each level, by
induction (`carries_script`).
-/

namespace CommandSyntax.Production

open Cursor

variable {last : List Frame → Prop} {frames : List Frame} {loose inBackticks : Bool}
  {context : Context} {c c' c₁ d d₁ : Cursor}

section Scripts

variable (hscripts : ScriptsCarry last context) (hsuits : Frame.Suits context.inBackticks frames)
  (hcontext : ContextOrderly context)
include hscripts hsuits hcontext

/-! ### Assignments -/

/-- An assignment is the same for both. -/
theorem carries_assignment (h : Level last frames c d) :
    Carries (assignment context) (Assignment.mapSpans eraseSpan) (Beside last ⟨frames, false⟩)
      c d := by
  intro result c' hassignment
  obtain ⟨c₁, value, hkind, hname, hvalue, rfl⟩ := (assignment_eq_ok_iff h.placed).1 hassignment
  obtain ⟨d₁, hname', h₁⟩ := h.step_of_notMem hname (by rw [hkind]; decide)
  obtain ⟨value', d', hvalue', hmeaning, h'⟩ := carries_word? hscripts hsuits hcontext h₁ hvalue
  refine ⟨_, d', (assignment_eq_ok_iff h.placed').2
    ⟨d₁, value', h.kind_eq.trans hkind, hname', hvalue', rfl⟩, ?_, h'⟩
  have htext := h.alike.text_eq fun _ => by simp [hkind]
  simp [Assignment.mapSpans, htext, hmeaning, eraseSpan]

/-- The assignments of a command are the same for both. -/
theorem carries_assignments (h : Beside last ⟨frames, loose⟩ c d) {assigned : List Assignment}
    (hgathers : Gathers (MoreAssignments context) LastAssignments c assigned c') :
    ∃ assigned' d', Gathers (MoreAssignments context) LastAssignments d assigned' d' ∧
      assigned'.map (Assignment.mapSpans eraseSpan) =
        assigned.map (Assignment.mapSpans eraseSpan) ∧ Level last frames c' d' := by
  refine carries_gathers (fun h hmore => ?_) (fun h hlast => ?_) h.loosen hgathers
  · obtain ⟨result, c₁, rfl, hskip, hresult⟩ := hmore
    obtain ⟨d₁, hskip', h₁⟩ := h.skips hskip
    obtain ⟨result', d', hresult', hmeaning, h'⟩ :=
      carries_assignment hscripts hsuits hcontext h₁ hresult
    exact ⟨[result'], d', ⟨result', d₁, rfl, hskip', hresult'⟩, by simp [hmeaning], h'.loosen⟩
  · obtain ⟨rfl, hskip, hkind⟩ := hlast
    obtain ⟨d', hskip', h'⟩ := h.skips hskip
    exact ⟨[], d', .done ⟨rfl, hskip', h'.kind_eq ▸ hkind⟩, rfl, h'⟩

/-! ### Redirections and runs of words -/

/-- The file of a redirection is the same for both. -/
theorem carries_target {redirection : Redirection}
    (hkind : Redirection.ofKind? c.current.kind = some redirection) (h : Level last frames c d) :
    Carries (target context) (Word.mapSpans eraseSpan) (Beside last ⟨frames, false⟩) c d := by
  intro word c' htarget
  have hstop := kind_ne_stop_of_ofKind? hkind
  obtain ⟨c₁, c₂, hoperator, hskip, hword⟩ := (target_eq_ok_iff h.placed hstop).1 htarget
  obtain ⟨d₁, hoperator', h₁⟩ := h.step hoperator
  have hbracket : c.current.kind ∉ Frame.brackets := by
    intro hmem
    cases hk : c.current.kind <;> simp [hk, Frame.brackets, Redirection.ofKind?] at hmem hkind
  rw [Frame.pass_of_notMem hbracket] at h₁
  obtain ⟨d₂, hskip', h₂⟩ := h₁.skips hskip
  obtain ⟨word', d', hword', hmeaning, h'⟩ :=
    carries_word? hscripts hsuits hcontext h₂.toBeside hword
  obtain ⟨word', rfl, hsame⟩ := Option.map_eq_some_iff.1 hmeaning
  exact ⟨word', d', (target_eq_ok_iff h.placed' (h.kind_eq ▸ hstop)).2
    ⟨d₁, d₂, hoperator', hskip', hword'⟩, hsame, h'⟩

/-- What a round of a command adds is the same for both. -/
theorem carries_commandItem (h : Level last frames c d) {command command' command₁ : Command}
    (hsame : command₁.mapSpans eraseSpan = command.mapSpans eraseSpan)
    (hitem : CommandItem context c command command' c') :
    ∃ command₁' d', CommandItem context d command₁ command₁' d' ∧
      command₁'.mapSpans eraseSpan = command'.mapSpans eraseSpan ∧
      Beside last ⟨frames, false⟩ c' d' := by
  cases hitem with
  | redirection hkind htarget =>
    obtain ⟨word', d', htarget', hmeaning, h'⟩ :=
      carries_target hscripts hsuits hcontext hkind h htarget
    refine ⟨_, d', .redirection (h.kind_eq ▸ hkind) htarget', ?_, h'⟩
    rw [Command.mapSpans_redirect, Command.mapSpans_redirect, hsame, hmeaning]
  | words hkind hne hwords =>
    obtain ⟨run', d', hwords', hmeaning, h'⟩ :=
      carries_words hscripts hsuits hcontext h.toBeside hwords
    have hne' : run' ≠ [] := by
      rintro rfl
      exact hne (List.map_eq_nil_iff.1 hmeaning.symm)
    refine ⟨_, d', .words (h.kind_eq ▸ hkind) hne' hwords', ?_, h'⟩
    obtain ⟨assignments, arguments, input, output, append, span⟩ := command
    obtain ⟨assignments', arguments', input', output', append', span'⟩ := command₁
    simp only [Command.mapSpans, Assignment.listMapSpans_eq, Word.listMapSpans_eq,
      Word.optionMapSpans_eq, Command.mk.injEq] at hsame ⊢
    simp [hsame, hmeaning]

/-- The redirections and words of a command are the same for both. -/
theorem carries_commandLoops (h : Beside last ⟨frames, loose⟩ c d)
    {command content command₁ : Command}
    (hsame : command₁.mapSpans eraseSpan = command.mapSpans eraseSpan)
    (hloops : Loops (commandRound context) command c content c') :
    ∃ content₁ d', Loops (commandRound context) command₁ d content₁ d' ∧
      content₁.mapSpans eraseSpan = content.mapSpans eraseSpan ∧
      Beside last ⟨frames, false⟩ c' d' := by
  induction hloops generalizing d command₁ loose with
  | done hround =>
    obtain ⟨rfl, c₁, hskip, hkind, hends⟩ :=
      (commandRound_eq_done_iff hcontext h.placed).1 hround
    obtain ⟨d₁, hskip', h₁⟩ := h.skips hskip
    have houtside : Beside last ⟨Frame.within false frames, false⟩ c₁ d₁ := h₁.toBeside
    obtain ⟨d', hends', h'⟩ := carries_endsWord hscripts hsuits houtside hends
    exact ⟨command₁, d', .done ((commandRound_eq_done_iff hcontext h.placed').2
      ⟨rfl, d₁, hskip', h₁.kind_eq ▸ hkind, hends'⟩), hsame, h'⟩
  | yield hround _ ih =>
    obtain ⟨c₁, hskip, hitem⟩ := (commandRound_eq_yield_iff h.placed).1 hround
    obtain ⟨d₁, hskip', h₁⟩ := h.skips hskip
    obtain ⟨command₂, d₂, hitem', hsame', h₂⟩ :=
      carries_commandItem hscripts hsuits hcontext h₁ hsame hitem
    obtain ⟨content₁, d', hloops', hmeaning, h'⟩ := ih h₂ hsame'
    exact ⟨content₁, d', .yield ((commandRound_eq_yield_iff h.placed').2 ⟨d₁, hskip', hitem'⟩)
      hloops', hmeaning, h'⟩

/-! ### Commands and pipelines -/

/-- The content of a command is the same for both. -/
theorem carries_commandContent (h : Level last frames c d) {content : Command}
    (hcontent : CommandContent context c content c') :
    ∃ content' d', CommandContent context d content' d' ∧
      content'.mapSpans eraseSpan = content.mapSpans eraseSpan ∧
      Beside last ⟨frames, false⟩ c' d' := by
  obtain ⟨c₁, hgathers, hloops⟩ := hcontent
  obtain ⟨assigned, d₁, hgathers', hassigned, h₁⟩ :=
    carries_assignments hscripts hsuits hcontext h.toBeside hgathers
  have hstart : { Command.empty (Span.empty d.current.start) with
        assignments := assigned }.mapSpans eraseSpan =
      { Command.empty (Span.empty c.current.start) with
        assignments := content.assignments }.mapSpans eraseSpan := by
    simp [Command.empty, Command.mapSpans, hassigned, eraseSpan]
  obtain ⟨content', d', hloops', hmeaning, h'⟩ :=
    carries_commandLoops hscripts hsuits hcontext h₁.toBeside hstart hloops
  obtain rfl : content'.assignments = assigned :=
    (assignments_of_loops h₁.placed' hcontext hloops').1
  exact ⟨content', d', ⟨d₁, hgathers', hloops'⟩, hmeaning, h'⟩

/-- A command is the same for both. -/
theorem carries_command? (h : Beside last ⟨frames, loose⟩ c d) :
    Carries (command? context) (Option.map (Command.mapSpans eraseSpan))
      (Beside last ⟨frames, false⟩) c d := by
  intro result c' hcommand
  obtain ⟨c₁, content, hskip, hcontent, rfl⟩ := (command?_eq_ok_iff hcontext h.placed).1 hcommand
  obtain ⟨d₁, hskip', h₁⟩ := h.skips hskip
  obtain ⟨content', d', hcontent', hmeaning, h'⟩ :=
    carries_commandContent hscripts hsuits hcontext h₁ hcontent
  refine ⟨_, d', (command?_eq_ok_iff hcontext h.placed').2
    ⟨d₁, content', hskip', hcontent', rfl⟩, ?_, h'⟩
  have hempty : content'.isEmpty = content.isEmpty := by
    rw [← Command.isEmpty_mapSpans eraseSpan, hmeaning, Command.isEmpty_mapSpans]
  rw [hempty]
  cases content.isEmpty with
  | true => rfl
  | false =>
    simp only [Bool.false_eq_true, if_false, Option.map_some, Command.mapSpans_eraseSpan_span,
      hmeaning]

/-- So is a stage of a pipeline. -/
theorem carries_stage? (h : Beside last ⟨frames, loose⟩ c d) :
    Carries (stage? context) (Option.map (Command.mapSpans eraseSpan)) (Level last frames)
      c d := by
  intro result c' hstage
  obtain ⟨c₁, c₂, hskip, hstop, hpipe, hcommand, hskip'⟩ :=
    (stage?_eq_ok_iff hcontext h.placed).1 hstage
  obtain ⟨d₁, hblanks, h₁⟩ := h.skips hskip
  obtain ⟨result', d₂, hcommand', hmeaning, h₂⟩ :=
    carries_command? hscripts hsuits hcontext h₁.toBeside hcommand
  obtain ⟨d', hblanks', h'⟩ := h₂.skips hskip'
  exact ⟨result', d', (stage?_eq_ok_iff hcontext h.placed').2 ⟨d₁, d₂, hblanks,
    h₁.kind_eq ▸ hstop, h₁.kind_eq ▸ hpipe, hcommand', hblanks'⟩, hmeaning, h'⟩

/-- The later stages of a pipeline are the same for both. -/
theorem carries_stages (h : Level last frames c d) {commands : List Command}
    (hgathers : Gathers (MoreStages context) LastStages c commands c') :
    ∃ commands' d', Gathers (MoreStages context) LastStages d commands' d' ∧
      commands'.map (Command.mapSpans eraseSpan) = commands.map (Command.mapSpans eraseSpan) ∧
      Level last frames c' d' := by
  refine carries_gathers (fun h hmore => ?_) (fun h hlast => ?_) h hgathers
  · obtain ⟨command, c₁, rfl, hkind, hpasses, hstage⟩ := hmore
    obtain ⟨d₁, hpasses', h₁⟩ := h.step hpasses
    rw [hkind, Frame.pass_of_notMem (by decide)] at h₁
    obtain ⟨command', d', hstage', hmeaning, h'⟩ :=
      carries_stage? hscripts hsuits hcontext h₁ hstage
    obtain ⟨command', rfl, hsame⟩ := Option.map_eq_some_iff.1 hmeaning
    exact ⟨[command'], d', ⟨command', d₁, rfl, h.kind_eq.trans hkind, hpasses', hstage'⟩,
      by simp [hsame], h'⟩
  · obtain ⟨rfl, rfl, hkind⟩ := hlast
    exact ⟨[], _, .done ⟨rfl, rfl, h.kind_eq ▸ hkind⟩, rfl, h⟩

/-- A pipeline is the same for both. -/
theorem carries_pipeline? (h : Beside last ⟨frames, loose⟩ c d) :
    Carries (pipeline? context) (Option.map (Pipeline.mapSpans eraseSpan)) (Level last frames)
      c d := by
  intro result c' hpipeline
  cases result with
  | none =>
    obtain ⟨first', d', hstage', hmeaning, h'⟩ :=
      carries_stage? hscripts hsuits hcontext h (pipeline?_eq_none_iff.1 hpipeline)
    obtain rfl := Option.map_eq_none_iff.1 hmeaning
    exact ⟨none, d', pipeline?_eq_none_iff.2 hstage', rfl, h'⟩
  | some pipeline =>
    obtain ⟨first, commands, c₁, hstage, hgathers, rfl⟩ :=
      (pipeline?_eq_some_iff hcontext h.placed).1 hpipeline
    obtain ⟨first', d₁, hstage', hmeaning, h₁⟩ :=
      carries_stage? hscripts hsuits hcontext h hstage
    obtain ⟨first', rfl, hfirst⟩ := Option.map_eq_some_iff.1 hmeaning
    obtain ⟨commands', d', hgathers', hcommands, h'⟩ :=
      carries_stages hscripts hsuits hcontext h₁ hgathers
    refine ⟨some ⟨first' :: commands', ⟨first'.span.start, d'.lastEnd⟩⟩, d',
      (pipeline?_eq_some_iff hcontext h.placed').2
        ⟨first', commands', d₁, hstage', hgathers', rfl⟩, ?_, h'⟩
    simp [Pipeline.mapSpans, hfirst, hcommands, eraseSpan]

/-! ### Statements -/

omit hscripts hsuits hcontext in
/-- A separator is accepted by both or by neither. -/
theorem carries_accept {kind : TokenKind} (hkind : kind ∈ separators) (h : Level last frames c d) :
    Carries (accept kind) id (Beside last ⟨frames, true⟩) c d := by
  intro accepted c' haccept
  have hstop : kind ≠ .stop := by
    rintro rfl
    exact absurd hkind (by decide)
  have hbracket : kind ∉ Frame.brackets := by
    intro hmem
    cases kind <;> simp [Frame.brackets, separators] at hmem hkind
  rcases (accept_eq_ok_iff hstop).1 haccept with ⟨rfl, rfl, hpasses⟩ | ⟨hne, rfl, rfl⟩
  · obtain ⟨d', hpasses', h'⟩ := h.step hpasses
    rw [Frame.pass_of_notMem hbracket] at h'
    exact ⟨true, d', (accept_eq_ok_iff hstop).2 (.inl ⟨h.kind_eq, rfl, hpasses'⟩), rfl, h'.loosen⟩
  · exact ⟨false, d, (accept_eq_ok_iff hstop).2 (.inr ⟨h.kind_eq ▸ hne, rfl, rfl⟩), rfl, h.loosen⟩

/-- A statement is the same for both. -/
theorem carries_statement? (h : Beside last ⟨frames, loose⟩ c d) :
    Carries (statement? context) (Option.map (Statement.mapSpans eraseSpan)) (Level last frames)
      c d := by
  intro result c' hstatement
  cases result with
  | none =>
    obtain ⟨first', d', hstage', hmeaning, h'⟩ :=
      carries_stage? hscripts hsuits hcontext h (statement?_eq_none_iff.1 hstatement)
    obtain rfl := Option.map_eq_none_iff.1 hmeaning
    exact ⟨none, d', statement?_eq_none_iff.2 hstage', rfl, h'⟩
  | some statement =>
    obtain ⟨pipeline, background, c₁, c₂, c₃, hpipeline, hskip, haccept, hskip', rfl⟩ :=
      (statement?_eq_some_iff hcontext h.placed).1 hstatement
    obtain ⟨pipeline', d₁, hpipeline', hmeaning, h₁⟩ :=
      carries_pipeline? hscripts hsuits hcontext h hpipeline
    obtain ⟨pipeline', rfl, hsame⟩ := Option.map_eq_some_iff.1 hmeaning
    obtain ⟨d₂, hblanks, h₂⟩ := h₁.skips hskip
    obtain ⟨background', d₃, haccept', hbackground, h₃⟩ := carries_accept (by decide) h₂ haccept
    obtain rfl : background' = background := hbackground
    obtain ⟨d', hblanks', h'⟩ := h₃.skips hskip'
    refine ⟨some ⟨pipeline', background', ⟨pipeline'.span.start, d₃.lastEnd⟩⟩, d',
      (statement?_eq_some_iff hcontext h.placed').2
        ⟨pipeline', background', d₁, d₂, d₃, hpipeline', hblanks, haccept', hblanks', rfl⟩, ?_, h'⟩
    simp [Statement.mapSpans, hsame, eraseSpan]

/-! ### Scripts -/

/-- One line of a script, possibly empty, is the same for both. -/
theorem carries_line (h : Beside last ⟨frames, loose⟩ c d) {statement : Option Statement}
    {c₂ c₃ : Cursor} (hskip : c.Skips c₁) (hstatement : statement? context c₁ = .ok statement c₂)
    (hskip' : c₂.Skips c₃) :
    ∃ statement' d₁ d₂ d₃, d.Skips d₁ ∧ d₁.current.kind = c₁.current.kind ∧
      statement? context d₁ = .ok statement' d₂ ∧ d₂.Skips d₃ ∧
      statement'.toList.map (Statement.mapSpans eraseSpan) =
        statement.toList.map (Statement.mapSpans eraseSpan) ∧ Level last frames c₃ d₃ := by
  obtain ⟨d₁, hblanks, h₁⟩ := h.skips hskip
  obtain ⟨statement', d₂, hstatement', hmeaning, h₂⟩ :=
    carries_statement? hscripts hsuits hcontext h₁.toBeside hstatement
  obtain ⟨d₃, hblanks', h₃⟩ := h₂.skips hskip'
  refine ⟨statement', d₁, d₂, d₃, hblanks, h₁.kind_eq, hstatement', hblanks', ?_, h₃⟩
  rw [← Option.toList_map, ← Option.toList_map, hmeaning]

/-- The statements of a script are the same for both. -/
theorem carries_statements (h : Beside last ⟨frames, loose⟩ c d) {statements : List Statement}
    (hgathers : Gathers (MoreStatements context) (LastStatements context) c statements c') :
    ∃ statements' d', Gathers (MoreStatements context) (LastStatements context) d statements' d' ∧
      statements'.map (Statement.mapSpans eraseSpan) =
        statements.map (Statement.mapSpans eraseSpan) ∧ Level last frames c' d' := by
  refine carries_gathers (fun h hmore => ?_) (fun h hlast => ?_) h.loosen hgathers
  · obtain ⟨statement, c₁, c₂, c₃, rfl, hskip, hstop, hstatement, hskip', hkind, hpasses⟩ := hmore
    obtain ⟨statement', d₁, d₂, d₃, hblanks, hkind₁, hstatement', hblanks', hmeaning, h₃⟩ :=
      carries_line hscripts hsuits hcontext h hskip hstatement hskip'
    obtain ⟨d', hpasses', h'⟩ := h₃.step hpasses
    rw [hkind, Frame.pass_of_notMem (by decide)] at h'
    exact ⟨_, d', ⟨statement', d₁, d₂, d₃, rfl, hblanks, hkind₁ ▸ hstop, hstatement', hblanks',
      h₃.kind_eq.trans hkind, hpasses'⟩, hmeaning, h'.loosen⟩
  · rcases hlast with ⟨rfl, hskip, hstop⟩ |
      ⟨statement, c₁, c₂, rfl, hskip, hstop, hstatement, hskip', hkind⟩
    · obtain ⟨d', hblanks, h'⟩ := h.skips hskip
      exact ⟨[], d', .done (.inl ⟨rfl, hblanks, h'.kind_eq.trans hstop⟩), rfl, h'⟩
    · obtain ⟨statement', d₁, d₂, d', hblanks, hkind₁, hstatement', hblanks', hmeaning, h'⟩ :=
        carries_line hscripts hsuits hcontext h hskip hstatement hskip'
      exact ⟨_, d', .done (.inr ⟨statement', d₁, d₂, rfl, hblanks, hkind₁ ▸ hstop, hstatement',
        hblanks', h'.kind_eq ▸ hkind⟩), hmeaning, h'⟩

/-- A script in a context is the same for both. -/
theorem carries_scriptIn (h : Beside last ⟨frames, loose⟩ c d) :
    Carries (scriptIn context) (Script.mapSpans eraseSpan) (Level last frames) c d := by
  intro body c' hscript
  obtain ⟨statements, hgathers, rfl⟩ := (scriptIn_eq_ok_iff hcontext h.placed).1 hscript
  obtain ⟨statements', d', hgathers', hmeaning, h'⟩ :=
    carries_statements hscripts hsuits hcontext h hgathers
  refine ⟨_, d', (scriptIn_eq_ok_iff hcontext h.placed').2 ⟨statements', hgathers', rfl⟩, ?_, h'⟩
  rw [Script.eraseSpans_eq_iff, Script.statements_ofStatements, Script.statements_ofStatements,
    hmeaning]

end Scripts

/-- A script of any number of levels is the same for both. -/
theorem carries_script (limit levels : Nat) (hsuits : Frame.Suits inBackticks frames)
    (h : Beside last ⟨frames, loose⟩ c d) :
    Carries (script limit levels inBackticks) (Script.mapSpans eraseSpan) (Level last frames)
      c d := by
  induction levels generalizing inBackticks frames loose c d with
  | zero =>
    rw [script_eq_scriptIn]
    refine carries_scriptIn (fun script hscript => ?_) (by simpa) (levelContext_orderly _ _ _) h
    simp [levelContext] at hscript
  | succ levels ih =>
    rw [script_eq_scriptIn]
    refine carries_scriptIn (fun script hscript => ?_) (by simpa) (levelContext_orderly _ _ _) h
    obtain rfl := Option.some.inj hscript
    exact fun inBackticks frames hsuits c d h => ih hsuits h

end CommandSyntax.Production
