import CommandSyntax.Proofs.Grammar.CommandSuccess

/-!
# CommandSyntax.Proofs.Grammar.StatementSuccess

**When pipelines, statements and scripts succeed**, and what they give then, each by
one equivalence. With these the productions need not be opened again: a script of any
number of levels is the gathered statements (`scriptIn_eq_ok_iff`), read in the context of
its level (`levelContext`).

A lexeme that ends a list, a statement or a command begins none of them, so that the
productions find nothing in front of it (`statement?_of_stops`).
-/

namespace CommandSyntax.Production

open Cursor

variable {c c' : Cursor} {context : Context}

/-! ### Pipelines -/

theorem stage?_eq_bind (context : Context) :
    stage? context = (do
      skipWhitespace
      let lexeme ← current
      if lexeme.kind = .stop then fail (.unexpectedEnd lexeme.span)
      else if lexeme.kind = .pipe then fail (.unexpectedPipe lexeme.span)
      else
        let command ← command? context
        skipWhitespace
        return command) := by
  unfold stage?
  congr
  funext _
  congr
  funext lexeme
  split <;> simp_all

theorem stage?_eq_ok_iff (hcontext : ContextOrderly context) (hc : c.Placed)
    {result : Option Command} :
    stage? context c = .ok result c' ↔
      ∃ c₁ c₂, c.Skips c₁ ∧ c₁.current.kind ≠ .stop ∧ c₁.current.kind ≠ .pipe ∧
        command? context c₁ = .ok result c₂ ∧ c₂.Skips c' := by
  rw [stage?_eq_bind]
  constructor
  · intro h
    obtain ⟨_, c₁, hskip, h⟩ := bind_eq_ok_iff.1 h
    have hskip := (skipWhitespace_eq_ok_iff hc).1 hskip
    have hc₁ := hskip.placed hc
    rw [current_bind_apply] at h
    by_cases hstop : c₁.current.kind = .stop
    · simp [hstop] at h
    by_cases hpipe : c₁.current.kind = .pipe
    · simp [hpipe] at h
    rw [if_neg hstop, if_neg hpipe] at h
    obtain ⟨command, c₂, hcommand, hresult⟩ := bind_eq_ok_iff.1 h
    obtain ⟨_, c₃, hskip', hresult⟩ := bind_eq_ok_iff.1 hresult
    obtain ⟨rfl, rfl⟩ := EStateM.Result.ok.inj hresult
    have hc₂ := (orderly_command? hcontext hc₁).placed hc₁ hcommand
    exact ⟨c₁, c₂, hskip, hstop, hpipe, hcommand, (skipWhitespace_eq_ok_iff hc₂).1 hskip'⟩
  · intro h
    obtain ⟨c₁, c₂, hskip, hstop, hpipe, hcommand, hskip'⟩ := h
    have hc₁ := hskip.placed hc
    have hc₂ := (orderly_command? hcontext hc₁).placed hc₁ hcommand
    refine bind_eq_ok_iff.2 ⟨(), c₁, (skipWhitespace_eq_ok_iff hc).2 hskip, ?_⟩
    rw [current_bind_apply, if_neg hstop, if_neg hpipe]
    refine bind_eq_ok_iff.2 ⟨result, c₂, hcommand, ?_⟩
    exact bind_eq_ok_iff.2 ⟨(), c', (skipWhitespace_eq_ok_iff hc₂).2 hskip', rfl⟩

/-- One more stage of a pipeline, after a bar. -/
def MoreStages (context : Context) (c : Cursor) (commands : List Command) (c' : Cursor) : Prop :=
  ∃ command c₁, commands = [command] ∧ c.current.kind = .pipe ∧ c.Passes [c.current] c₁ ∧
    stage? context c₁ = .ok (some command) c'

/-- No more stages. -/
def LastStages (c : Cursor) (commands : List Command) (c' : Cursor) : Prop :=
  commands = [] ∧ c = c' ∧ c.current.kind ≠ .pipe

theorem pipelineRound_eq_yield_iff {read read' : List Command} :
    pipelineRound context read c = .ok (.yield read') c' ↔
      ∃ items, MoreStages context c items c' ∧ read' = items.reverse ++ read := by
  constructor
  · intro h
    obtain ⟨accepted, c₁, haccept, h⟩ := bind_eq_ok_iff.1 h
    rcases (accept_eq_ok_iff (by simp)).1 haccept with ⟨hkind, rfl, hpasses⟩ | ⟨-, rfl, -⟩
    · obtain ⟨command, c₂, hcommand, hresult⟩ := bind_eq_ok_iff.1 h
      cases command with
      | none => simp at hresult
      | some command =>
        obtain ⟨hyield, rfl⟩ := EStateM.Result.ok.inj hresult
        exact ⟨[command], ⟨command, c₁, rfl, hkind, hpasses, hcommand⟩,
          (ForInStep.yield.inj hyield).symm⟩
    · simp at h
  · intro h
    obtain ⟨_, ⟨command, c₁, rfl, hkind, hpasses, hcommand⟩, rfl⟩ := h
    exact bind_eq_ok_iff.2
      ⟨true, c₁, (accept_eq_ok_iff (by simp)).2 (.inl ⟨hkind, rfl, hpasses⟩),
        bind_eq_ok_iff.2 ⟨some command, c', hcommand, rfl⟩⟩

theorem pipelineRound_eq_done_iff {read read' : List Command} :
    pipelineRound context read c = .ok (.done read') c' ↔
      ∃ items, LastStages c items c' ∧ read' = items.reverse ++ read := by
  constructor
  · intro h
    obtain ⟨accepted, c₁, haccept, h⟩ := bind_eq_ok_iff.1 h
    rcases (accept_eq_ok_iff (by simp)).1 haccept with ⟨-, rfl, -⟩ | ⟨hkind, rfl, rfl⟩
    · obtain ⟨command, c₂, -, hresult⟩ := bind_eq_ok_iff.1 h
      cases command <;> simp at hresult
    · obtain ⟨hdone, rfl⟩ := EStateM.Result.ok.inj h
      exact ⟨[], ⟨rfl, rfl, hkind⟩, (ForInStep.done.inj hdone).symm⟩
  · intro h
    obtain ⟨_, ⟨rfl, rfl, hkind⟩, rfl⟩ := h
    exact bind_eq_ok_iff.2
      ⟨false, c, (accept_eq_ok_iff (by simp)).2 (.inr ⟨hkind, rfl, rfl⟩), rfl⟩

theorem pipelineRound_gathers (hcontext : ContextOrderly context) :
    GathersBy (pipelineRound context) (MoreStages context) LastStages where
  orderly := orderly_pipelineRound hcontext
  ne_nil hc hround hpasses := by
    obtain ⟨_, ⟨command, c₁, -, -, hbar, hcommand⟩, -⟩ := pipelineRound_eq_yield_iff.1 hround
    obtain ⟨lexemes, hlexemes⟩ := (orderly_stage? hcontext (hbar.placed hc)).passes hcommand
    simp [hpasses.unique (hbar.trans hlexemes) hc]
  yield_iff _ := pipelineRound_eq_yield_iff
  done_iff _ := pipelineRound_eq_done_iff

theorem pipeline?_eq_some_iff (hcontext : ContextOrderly context) (hc : c.Placed)
    {pipeline : Pipeline} :
    pipeline? context c = .ok (some pipeline) c' ↔
      ∃ first commands c₁, stage? context c = .ok (some first) c₁ ∧
        Gathers (MoreStages context) LastStages c₁ commands c' ∧
        pipeline = ⟨first :: commands, ⟨first.span.start, c'.lastEnd⟩⟩ := by
  constructor
  · intro h
    obtain ⟨first, c₁, hfirst, h⟩ := bind_eq_ok_iff.1 h
    have hc₁ := (orderly_stage? hcontext hc).placed hc hfirst
    cases first with
    | none => simp at h
    | some first =>
      obtain ⟨commands, c₂, hloop, hresult⟩ := bind_eq_ok_iff.1 h
      obtain ⟨items, hgathers, rfl⟩ :=
        (loop_eq_ok_iff_gathers (pipelineRound_gathers hcontext) hc₁).1 hloop
      simp only [lastEnd_bind_apply, pure_apply, EStateM.Result.ok.injEq,
        Option.some.injEq] at hresult
      obtain ⟨rfl, rfl⟩ := hresult
      exact ⟨first, items, c₁, hfirst, hgathers, by simp⟩
  · intro h
    obtain ⟨first, commands, c₁, hfirst, hgathers, rfl⟩ := h
    have hc₁ := (orderly_stage? hcontext hc).placed hc hfirst
    have hloop : loop (pipelineRound context) [first] c₁ = .ok (commands.reverse ++ [first]) c' :=
      (loop_eq_ok_iff_gathers (pipelineRound_gathers hcontext) hc₁).2 ⟨commands, hgathers, rfl⟩
    exact bind_eq_ok_iff.2 ⟨some first, c₁, hfirst, bind_eq_ok_iff.2 ⟨_, c', hloop, by simp⟩⟩

theorem pipeline?_eq_none_iff :
    pipeline? context c = .ok none c' ↔ stage? context c = .ok none c' := by
  constructor
  · intro h
    obtain ⟨first, c₁, hfirst, h⟩ := bind_eq_ok_iff.1 h
    cases first with
    | none =>
      obtain ⟨-, rfl⟩ := EStateM.Result.ok.inj h
      exact hfirst
    | some first =>
      obtain ⟨_, _, -, h⟩ := bind_eq_ok_iff.1 h
      simp at h
  · exact fun h => bind_eq_ok_iff.2 ⟨none, c', h, rfl⟩

/-! ### Statements -/

theorem statement?_eq_some_iff (hcontext : ContextOrderly context) (hc : c.Placed)
    {statement : Statement} :
    statement? context c = .ok (some statement) c' ↔
      ∃ pipeline background c₁ c₂ c₃, pipeline? context c = .ok (some pipeline) c₁ ∧
        c₁.Skips c₂ ∧ accept .background c₂ = .ok background c₃ ∧ c₃.Skips c' ∧
        statement = ⟨pipeline, background, ⟨pipeline.span.start, c₃.lastEnd⟩⟩ := by
  constructor
  · intro h
    obtain ⟨pipeline, c₁, hpipeline, h⟩ := bind_eq_ok_iff.1 h
    have hc₁ := (orderly_pipeline? hcontext hc).placed hc hpipeline
    cases pipeline with
    | none => simp at h
    | some pipeline =>
      obtain ⟨_, c₂, hskip, h⟩ := bind_eq_ok_iff.1 h
      have hskip := (skipWhitespace_eq_ok_iff hc₁).1 hskip
      have hc₂ := hskip.placed hc₁
      obtain ⟨background, c₃, haccept, h⟩ := bind_eq_ok_iff.1 h
      have hc₃ := (orderly_accept (by simp) hc₂).placed hc₂ haccept
      rw [lastEnd_bind_apply] at h
      obtain ⟨_, c₄, hskip', hresult⟩ := bind_eq_ok_iff.1 h
      obtain ⟨hstatement, rfl⟩ := EStateM.Result.ok.inj hresult
      exact ⟨pipeline, background, c₁, c₂, c₃, hpipeline, hskip, haccept,
        (skipWhitespace_eq_ok_iff hc₃).1 hskip', (Option.some.inj hstatement).symm⟩
  · intro h
    obtain ⟨pipeline, background, c₁, c₂, c₃, hpipeline, hskip, haccept, hskip', rfl⟩ := h
    have hc₁ := (orderly_pipeline? hcontext hc).placed hc hpipeline
    have hc₂ := hskip.placed hc₁
    have hc₃ := (orderly_accept (by simp) hc₂).placed hc₂ haccept
    refine bind_eq_ok_iff.2 ⟨some pipeline, c₁, hpipeline, ?_⟩
    refine bind_eq_ok_iff.2 ⟨(), c₂, (skipWhitespace_eq_ok_iff hc₁).2 hskip, ?_⟩
    refine bind_eq_ok_iff.2 ⟨background, c₃, haccept, ?_⟩
    rw [lastEnd_bind_apply]
    exact bind_eq_ok_iff.2 ⟨(), c', (skipWhitespace_eq_ok_iff hc₃).2 hskip', rfl⟩

theorem statement?_eq_none_iff :
    statement? context c = .ok none c' ↔ stage? context c = .ok none c' := by
  rw [← pipeline?_eq_none_iff]
  constructor
  · intro h
    obtain ⟨pipeline, c₁, hpipeline, h⟩ := bind_eq_ok_iff.1 h
    cases pipeline with
    | none =>
      obtain ⟨-, rfl⟩ := EStateM.Result.ok.inj h
      exact hpipeline
    | some pipeline =>
      obtain ⟨_, _, -, h⟩ := bind_eq_ok_iff.1 h
      obtain ⟨_, _, -, h⟩ := bind_eq_ok_iff.1 h
      rw [lastEnd_bind_apply] at h
      obtain ⟨_, _, -, h⟩ := bind_eq_ok_iff.1 h
      simp at h
  · exact fun h => bind_eq_ok_iff.2 ⟨none, c', h, rfl⟩

/-! ### Where nothing stands -/

/-- A list ends at the end of the input and where a substitution is closed. -/
def closes (inBackticks : Bool) : TokenKind → Bool
  | .stop | .rightParen => true
  | .backtick => inBackticks
  | _ => false

/-- A statement ends where its list does, and where another one follows. -/
def stops (inBackticks : Bool) (kind : TokenKind) : Bool :=
  closes inBackticks kind || kind == .statementEnd

/-- A command ends there too, and where its pipeline or its statement goes on. -/
def ends (inBackticks : Bool) (kind : TokenKind) : Bool :=
  stops inBackticks kind || kind == .pipe || kind == .background

section

variable {inBackticks : Bool} {kind : TokenKind}

theorem stops_stop : stops inBackticks .stop = true := rfl

theorem stops_of_closes (h : closes inBackticks kind = true) : stops inBackticks kind = true := by
  simp [stops, h]

theorem ends_of_stops (h : stops inBackticks kind = true) : ends inBackticks kind = true := by
  simp [ends, h]

theorem ne_of_stops (h : stops inBackticks kind = true) :
    kind ≠ .pipe ∧ kind ≠ .background := by
  cases kind <;> simp_all [stops, closes]

/-- Where a command ends nothing of one stands. -/
theorem inWord_of_ends (h : ends inBackticks kind = true) : inWord inBackticks kind = false := by
  cases kind <;> simp_all [ends, stops, closes, inWord, startsPart, isText]

theorem ne_of_ends (h : ends inBackticks kind = true) :
    kind ≠ .whitespace ∧ kind ≠ .assignmentLhs ∧ Redirection.ofKind? kind = none := by
  cases kind <;> simp_all [ends, stops, closes, Redirection.ofKind?]

end

/-- Nothing of a command starts with a lexeme of a kind. -/
structure StartsNothing (inBackticks : Bool) (kind : TokenKind) : Prop where
  /-- It is not skipped. -/
  ne_whitespace : kind ≠ .whitespace
  /-- It starts no assignment. -/
  ne_assignmentLhs : kind ≠ .assignmentLhs
  /-- It starts no redirection. -/
  ofKind?_eq_none : Redirection.ofKind? kind = none
  /-- It starts no word. -/
  inWord_eq_false : inWord inBackticks kind = false

theorem startsNothing_of_ends {inBackticks : Bool} {kind : TokenKind}
    (h : ends inBackticks kind = true) : StartsNothing inBackticks kind :=
  ⟨(ne_of_ends h).1, (ne_of_ends h).2.1, (ne_of_ends h).2.2, inWord_of_ends h⟩

theorem command?_of_startsNothing (hcontext : ContextOrderly context) (hc : c.Placed)
    (h : StartsNothing context.inBackticks c.current.kind) : command? context c = .ok none c :=
  (command?_eq_none_iff hcontext hc).2 ⟨c, skips_self h.ne_whitespace, h.ne_assignmentLhs,
    h.ofKind?_eq_none, endsWord_self h.inWord_eq_false⟩

/-- Where nothing of a command starts there is no statement, unless that is an error. -/
theorem statement?_of_startsNothing (hcontext : ContextOrderly context) (hc : c.Placed)
    (h : StartsNothing context.inBackticks c.current.kind) (hstop : c.current.kind ≠ .stop)
    (hpipe : c.current.kind ≠ .pipe) : statement? context c = .ok none c := by
  have hskip : c.Skips c := skips_self h.ne_whitespace
  exact statement?_eq_none_iff.2 ((stage?_eq_ok_iff hcontext hc).2
    ⟨c, c, hskip, hstop, hpipe, command?_of_startsNothing hcontext hc h, hskip⟩)

/-- At the end of the input a statement is an error, but where one ends elsewhere there is
none. -/
theorem statement?_of_stops (hcontext : ContextOrderly context) (hc : c.Placed)
    (h : stops context.inBackticks c.current.kind = true) (hstop : c.current.kind ≠ .stop) :
    statement? context c = .ok none c :=
  statement?_of_startsNothing hcontext hc (startsNothing_of_ends (ends_of_stops h)) hstop
    (ne_of_stops h).1

/-! ### Scripts -/

/-- One more statement, possibly empty, with the token that ends it. -/
def MoreStatements (context : Context) (c : Cursor) (statements : List Statement)
    (c' : Cursor) : Prop :=
  ∃ statement c₁ c₂ c₃, statements = statement.toList ∧ c.Skips c₁ ∧ c₁.current.kind ≠ .stop ∧
    statement? context c₁ = .ok statement c₂ ∧ c₂.Skips c₃ ∧ c₃.current.kind = .statementEnd ∧
    c₃.Passes [c₃.current] c'

/-- The last statement, possibly empty, or the end of the input. -/
def LastStatements (context : Context) (c : Cursor) (statements : List Statement)
    (c' : Cursor) : Prop :=
  (statements = [] ∧ c.Skips c' ∧ c'.current.kind = .stop) ∨
    ∃ statement c₁ c₂, statements = statement.toList ∧ c.Skips c₁ ∧ c₁.current.kind ≠ .stop ∧
      statement? context c₁ = .ok statement c₂ ∧ c₂.Skips c' ∧ c'.current.kind ≠ .statementEnd

theorem scriptRound_eq_yield_iff (hcontext : ContextOrderly context) (hc : c.Placed)
    {read read' : List Statement} :
    scriptRound context read c = .ok (.yield read') c' ↔
      ∃ items, MoreStatements context c items c' ∧ read' = items.reverse ++ read := by
  have hreverse (statement : Option Statement) :
      statement.toList.reverse = statement.toList := by cases statement <;> rfl
  constructor
  · intro h
    obtain ⟨_, c₁, hskip, h⟩ := bind_eq_ok_iff.1 h
    have hskip := (skipWhitespace_eq_ok_iff hc).1 hskip
    have hc₁ := hskip.placed hc
    rw [current_bind_apply] at h
    by_cases hstop : c₁.current.kind = .stop
    · simp [hstop] at h
    rw [if_neg hstop] at h
    obtain ⟨statement, c₂, hstatement, h⟩ := bind_eq_ok_iff.1 h
    have hc₂ := (orderly_statement? hcontext hc₁).placed hc₁ hstatement
    obtain ⟨_, c₃, hskip', h⟩ := bind_eq_ok_iff.1 h
    obtain ⟨accepted, c₄, haccept, h⟩ := bind_eq_ok_iff.1 h
    rcases (accept_eq_ok_iff (by simp)).1 haccept with ⟨hkind, rfl, hpasses⟩ | ⟨-, rfl, -⟩
    · obtain ⟨hyield, rfl⟩ := EStateM.Result.ok.inj h
      exact ⟨statement.toList, ⟨statement, c₁, c₂, c₃, rfl, hskip, hstop, hstatement,
        (skipWhitespace_eq_ok_iff hc₂).1 hskip', hkind, hpasses⟩,
        by rw [hreverse, ForInStep.yield.inj hyield]⟩
    · simp at h
  · intro h
    obtain ⟨_, ⟨statement, c₁, c₂, c₃, rfl, hskip, hstop, hstatement, hskip', hkind, hpasses⟩,
      rfl⟩ := h
    have hc₁ := hskip.placed hc
    have hc₂ := (orderly_statement? hcontext hc₁).placed hc₁ hstatement
    refine bind_eq_ok_iff.2 ⟨(), c₁, (skipWhitespace_eq_ok_iff hc).2 hskip, ?_⟩
    rw [current_bind_apply, if_neg hstop]
    refine bind_eq_ok_iff.2 ⟨statement, c₂, hstatement, ?_⟩
    refine bind_eq_ok_iff.2 ⟨(), c₃, (skipWhitespace_eq_ok_iff hc₂).2 hskip', ?_⟩
    refine bind_eq_ok_iff.2
      ⟨true, c', (accept_eq_ok_iff (by simp)).2 (.inl ⟨hkind, rfl, hpasses⟩), ?_⟩
    simp [hreverse]

theorem scriptRound_eq_done_iff (hcontext : ContextOrderly context) (hc : c.Placed)
    {read read' : List Statement} :
    scriptRound context read c = .ok (.done read') c' ↔
      ∃ items, LastStatements context c items c' ∧ read' = items.reverse ++ read := by
  have hreverse (statement : Option Statement) :
      statement.toList.reverse = statement.toList := by cases statement <;> rfl
  constructor
  · intro h
    obtain ⟨_, c₁, hskip, h⟩ := bind_eq_ok_iff.1 h
    have hskip := (skipWhitespace_eq_ok_iff hc).1 hskip
    have hc₁ := hskip.placed hc
    rw [current_bind_apply] at h
    by_cases hstop : c₁.current.kind = .stop
    · rw [if_pos hstop] at h
      obtain ⟨hdone, rfl⟩ := EStateM.Result.ok.inj h
      exact ⟨[], .inl ⟨rfl, hskip, hstop⟩, (ForInStep.done.inj hdone).symm⟩
    rw [if_neg hstop] at h
    obtain ⟨statement, c₂, hstatement, h⟩ := bind_eq_ok_iff.1 h
    have hc₂ := (orderly_statement? hcontext hc₁).placed hc₁ hstatement
    obtain ⟨_, c₃, hskip', h⟩ := bind_eq_ok_iff.1 h
    obtain ⟨accepted, c₄, haccept, h⟩ := bind_eq_ok_iff.1 h
    rcases (accept_eq_ok_iff (by simp)).1 haccept with ⟨-, rfl, -⟩ | ⟨hkind, rfl, rfl⟩
    · simp at h
    · obtain ⟨hdone, rfl⟩ := EStateM.Result.ok.inj h
      exact ⟨statement.toList, .inr ⟨statement, c₁, c₂, rfl, hskip, hstop, hstatement,
        (skipWhitespace_eq_ok_iff hc₂).1 hskip', hkind⟩,
        by rw [hreverse, ForInStep.done.inj hdone]⟩
  · rintro ⟨_, ⟨rfl, hskip, hstop⟩ |
      ⟨statement, c₁, c₂, rfl, hskip, hstop, hstatement, hskip', hkind⟩, rfl⟩
    · refine bind_eq_ok_iff.2 ⟨(), c', (skipWhitespace_eq_ok_iff hc).2 hskip, ?_⟩
      rw [current_bind_apply, if_pos hstop]
      rfl
    · have hc₁ := hskip.placed hc
      have hc₂ := (orderly_statement? hcontext hc₁).placed hc₁ hstatement
      refine bind_eq_ok_iff.2 ⟨(), c₁, (skipWhitespace_eq_ok_iff hc).2 hskip, ?_⟩
      rw [current_bind_apply, if_neg hstop]
      refine bind_eq_ok_iff.2 ⟨statement, c₂, hstatement, ?_⟩
      refine bind_eq_ok_iff.2 ⟨(), c', (skipWhitespace_eq_ok_iff hc₂).2 hskip', ?_⟩
      refine bind_eq_ok_iff.2
        ⟨false, c', (accept_eq_ok_iff (by simp)).2 (.inr ⟨hkind, rfl, rfl⟩), ?_⟩
      simp [hreverse]

theorem scriptRound_gathers (hcontext : ContextOrderly context) :
    GathersBy (scriptRound context) (MoreStatements context) (LastStatements context) where
  orderly := orderly_scriptRound hcontext
  ne_nil hc hround hpasses := by
    obtain ⟨_, ⟨statement, c₁, c₂, c₃, -, ⟨blanks, hblanks, -⟩, -, hstatement,
      ⟨blanks', hblanks', -⟩, -, hend⟩, -⟩ := (scriptRound_eq_yield_iff hcontext hc).1 hround
    obtain ⟨lexemes, hlexemes⟩ :=
      (orderly_statement? hcontext (hblanks.placed hc)).passes hstatement
    have := hpasses.unique (hblanks.trans (hlexemes.trans (hblanks'.trans hend))) hc
    simp [this]
  yield_iff hc := scriptRound_eq_yield_iff hcontext hc
  done_iff hc := scriptRound_eq_done_iff hcontext hc

theorem scriptIn_eq_ok_iff (hcontext : ContextOrderly context) (hc : c.Placed)
    {body : Script} :
    scriptIn context c = .ok body c' ↔
      ∃ statements, Gathers (MoreStatements context) (LastStatements context) c statements c' ∧
        body = Script.ofStatements c.current.start statements := by
  rw [scriptIn, current_bind_apply]
  refine bind_eq_ok_iff.trans ?_
  simp only [loop_eq_ok_iff_gathers (scriptRound_gathers hcontext) hc]
  constructor
  · intro h
    obtain ⟨_, _, ⟨items, h, rfl⟩, hpure⟩ := h
    obtain ⟨rfl, rfl⟩ := EStateM.Result.ok.inj hpure
    exact ⟨items, h, by simp⟩
  · intro h
    obtain ⟨statements, h, rfl⟩ := h
    exact ⟨_, c', ⟨statements, h, rfl⟩, by simp⟩

/-! ### Levels -/

/-- The context of a script inside which scripts may be nested some number of levels. -/
def levelContext (limit : Nat) (inBackticks : Bool) : (levels : Nat) → Context
  | 0 => ⟨limit, inBackticks, none⟩
  | levels + 1 => ⟨limit, inBackticks, some (script limit levels)⟩

theorem script_eq_scriptIn (limit levels : Nat) (inBackticks : Bool) :
    script limit levels inBackticks = scriptIn (levelContext limit inBackticks levels) := by
  cases levels <;> rfl

@[simp] theorem inBackticks_levelContext (limit levels : Nat) (inBackticks : Bool) :
    (levelContext limit inBackticks levels).inBackticks = inBackticks := by
  cases levels <;> rfl

theorem levelContext_orderly (limit levels : Nat) (inBackticks : Bool) :
    ContextOrderly (levelContext limit inBackticks levels) := by
  cases levels with
  | zero => simp [ContextOrderly, levelContext]
  | succ levels =>
    intro script hscript inBackticks
    obtain rfl := Option.some.inj hscript
    exact orderly_script limit levels inBackticks

end CommandSyntax.Production
