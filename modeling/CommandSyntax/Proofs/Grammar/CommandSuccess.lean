import CommandSyntax.Proofs.Grammar.WordSuccess

/-!
# CommandSyntax.Proofs.Grammar.CommandSuccess

**When the productions of commands succeed**, and what they give then: assignments,
redirections, commands, pipelines, statements and scripts, each by one equivalence.

The lists of a tree (assignments, stages, statements) come from loops that gather
(`Gathers`). A command comes from a loop over its redirections and runs of words,
whose rounds are told by `commandRound_eq_yield_iff` and `commandRound_eq_done_iff`.
-/

namespace CommandSyntax

/-! ### Redirected commands -/

/-- The file of a command for one of the three ways to redirect it. -/
def Command.file? (command : Command) : Redirection → Option Word
  | .input => command.input
  | .output => command.output
  | .append => command.append

namespace Command

variable (command : Command) (target : Word) (redirection : Redirection)

@[simp] theorem assignments_redirect :
    (command.redirect target redirection).assignments = command.assignments := by
  cases redirection <;> rfl

@[simp] theorem arguments_redirect :
    (command.redirect target redirection).arguments = command.arguments := by
  cases redirection <;> rfl

@[simp] theorem span_redirect : (command.redirect target redirection).span = command.span := by
  cases redirection <;> rfl

@[simp] theorem isEmpty_redirect : (command.redirect target redirection).isEmpty = false := by
  cases redirection <;> simp [redirect, isEmpty, targets]

end Command

namespace Production

open Cursor

variable {c c' : Cursor} {context : Context}

/-! ### Assignments -/

/-- The equals sign of an assignment can always be stripped. -/
theorem assignment_eq_bind (hc : c.Placed) (hkind : c.current.kind = .assignmentLhs) :
    assignment context c = (do
      let _ ← take
      let value ← word? context
      return ⟨String.ofList c.current.text.dropLast, value, c.current.start, ← lastEnd⟩ :
        Production Assignment) c := by
  have hscanned := hc.scanned (by simp [hkind])
  rw [assignment, current_bind_apply]
  exact tokenText_nil_bind_of_strip? hkind (hscanned.strip?_of_assignmentLhs hkind) _

theorem kind_of_assignment {result : Assignment} (h : assignment context c = .ok result c') :
    c.current.kind = .assignmentLhs := by
  rw [assignment, current_bind_apply] at h
  obtain ⟨name, c₁, hname, -⟩ := bind_eq_ok_iff.1 h
  exact kind_of_tokenText hname

theorem assignment_eq_ok_iff (hc : c.Placed) {result : Assignment} :
    assignment context c = .ok result c' ↔
      ∃ c₁ value, c.current.kind = .assignmentLhs ∧ c.Passes [c.current] c₁ ∧
        word? context c₁ = .ok value c' ∧
        result =
          ⟨String.ofList c.current.text.dropLast, value, ⟨c.current.start, c'.lastEnd⟩⟩ := by
  constructor
  · intro h
    have hkind := kind_of_assignment h
    rw [assignment_eq_bind hc hkind] at h
    obtain ⟨name, c₁, hname, h⟩ := bind_eq_ok_iff.1 h
    obtain ⟨value, c₂, hvalue, h⟩ := bind_eq_ok_iff.1 h
    obtain ⟨rfl, rfl⟩ := EStateM.Result.ok.inj h
    exact ⟨c₁, value, hkind, ((take_eq_ok_iff (by simp [hkind])).1 hname).2, hvalue, rfl⟩
  · intro h
    obtain ⟨c₁, value, hkind, hpasses, hvalue, rfl⟩ := h
    rw [assignment_eq_bind hc hkind]
    exact bind_eq_ok_iff.2 ⟨c.current, c₁, (take_eq_ok_iff (by simp [hkind])).2 ⟨rfl, hpasses⟩,
      bind_eq_ok_iff.2 ⟨value, c', hvalue, rfl⟩⟩

/-- One more assignment, after any whitespace. -/
def MoreAssignments (context : Context) (c : Cursor) (assignments : List Assignment)
    (c' : Cursor) : Prop :=
  ∃ result c₁, assignments = [result] ∧ c.Skips c₁ ∧ assignment context c₁ = .ok result c'

/-- No more assignments, after any whitespace. -/
def LastAssignments (c : Cursor) (assignments : List Assignment) (c' : Cursor) : Prop :=
  assignments = [] ∧ c.Skips c' ∧ c'.current.kind ≠ .assignmentLhs

theorem assignmentsRound_eq_yield_iff (hc : c.Placed) {read read' : List Assignment} :
    assignmentsRound context read c = .ok (.yield read') c' ↔
      ∃ items, MoreAssignments context c items c' ∧ read' = items.reverse ++ read := by
  constructor
  · intro h
    obtain ⟨_, c₁, hskip, h⟩ := bind_eq_ok_iff.1 h
    rw [current_bind_apply] at h
    by_cases hkind : c₁.current.kind = .assignmentLhs
    · rw [if_pos hkind] at h
      obtain ⟨result, c₂, hresult, h⟩ := bind_eq_ok_iff.1 h
      obtain ⟨hyield, rfl⟩ := EStateM.Result.ok.inj h
      exact ⟨[result], ⟨result, c₁, rfl, (skipWhitespace_eq_ok_iff hc).1 hskip, hresult⟩,
        (ForInStep.yield.inj hyield).symm⟩
    · simp [hkind] at h
  · intro h
    obtain ⟨_, ⟨result, c₁, rfl, hskip, hresult⟩, rfl⟩ := h
    have hkind := kind_of_assignment hresult
    refine bind_eq_ok_iff.2 ⟨(), c₁, (skipWhitespace_eq_ok_iff hc).2 hskip, ?_⟩
    rw [current_bind_apply, if_pos hkind]
    exact bind_eq_ok_iff.2 ⟨result, c', hresult, rfl⟩

theorem assignmentsRound_eq_done_iff (hc : c.Placed) {read read' : List Assignment} :
    assignmentsRound context read c = .ok (.done read') c' ↔
      ∃ items, LastAssignments c items c' ∧ read' = items.reverse ++ read := by
  constructor
  · intro h
    obtain ⟨_, c₁, hskip, h⟩ := bind_eq_ok_iff.1 h
    rw [current_bind_apply] at h
    by_cases hkind : c₁.current.kind = .assignmentLhs
    · rw [if_pos hkind] at h
      obtain ⟨result, c₂, -, h⟩ := bind_eq_ok_iff.1 h
      simp at h
    · rw [if_neg hkind] at h
      obtain ⟨hdone, rfl⟩ := EStateM.Result.ok.inj h
      exact ⟨[], ⟨rfl, (skipWhitespace_eq_ok_iff hc).1 hskip, hkind⟩,
        (ForInStep.done.inj hdone).symm⟩
  · intro h
    obtain ⟨_, ⟨rfl, hskip, hkind⟩, rfl⟩ := h
    refine bind_eq_ok_iff.2 ⟨(), c', (skipWhitespace_eq_ok_iff hc).2 hskip, ?_⟩
    rw [current_bind_apply, if_neg hkind]
    rfl

theorem assignmentsRound_gathers (hcontext : ContextOrderly context) :
    GathersBy (assignmentsRound context) (MoreAssignments context) LastAssignments where
  orderly := orderly_assignmentsRound hcontext
  ne_nil hc hround hpasses := by
    obtain ⟨_, ⟨result, c₁, -, ⟨blanks, hblanks, -⟩, hresult⟩, -⟩ :=
      (assignmentsRound_eq_yield_iff hc).1 hround
    have hc₁ := hblanks.placed hc
    obtain ⟨c₂, value, hkind, hname, hvalue, -⟩ := (assignment_eq_ok_iff hc₁).1 hresult
    obtain ⟨lexemes, hlexemes⟩ := (orderly_word? hcontext (hname.placed hc₁)).passes hvalue
    simp [hpasses.unique (hblanks.trans (hname.trans hlexemes)) hc]
  yield_iff hc := assignmentsRound_eq_yield_iff hc
  done_iff hc := assignmentsRound_eq_done_iff hc

theorem assignments_eq_ok_iff (hcontext : ContextOrderly context) (hc : c.Placed)
    {result : List Assignment} :
    assignments context c = .ok result c' ↔
      Gathers (MoreAssignments context) LastAssignments c result c' := by
  refine bind_eq_ok_iff.trans ?_
  simp only [loop_eq_ok_iff_gathers (assignmentsRound_gathers hcontext) hc]
  constructor
  · intro h
    obtain ⟨_, _, ⟨items, h, rfl⟩, hpure⟩ := h
    obtain ⟨rfl, rfl⟩ := EStateM.Result.ok.inj hpure
    simpa using h
  · intro h
    exact ⟨_, c', ⟨result, h, rfl⟩, by simp⟩

/-! ### Redirections and runs of words -/

theorem target_eq_ok_iff (hc : c.Placed) (hkind : c.current.kind ≠ .stop) {word : Word} :
    target context c = .ok word c' ↔
      ∃ c₁ c₂, c.Passes [c.current] c₁ ∧ c₁.Skips c₂ ∧
        word? context c₂ = .ok (some word) c' := by
  constructor
  · intro h
    obtain ⟨operator, c₁, hoperator, h⟩ := bind_eq_ok_iff.1 h
    obtain ⟨-, hpasses⟩ := (take_eq_ok_iff hkind).1 hoperator
    obtain ⟨_, c₂, hskip, h⟩ := bind_eq_ok_iff.1 h
    obtain ⟨found, c₃, hword, h⟩ := bind_eq_ok_iff.1 h
    cases found with
    | none => simp at h
    | some found =>
      obtain ⟨rfl, rfl⟩ := EStateM.Result.ok.inj h
      exact ⟨c₁, c₂, hpasses, (skipWhitespace_eq_ok_iff (hpasses.placed hc)).1 hskip, hword⟩
  · intro h
    obtain ⟨c₁, c₂, hpasses, hskip, hword⟩ := h
    refine bind_eq_ok_iff.2 ⟨c.current, c₁, (take_eq_ok_iff hkind).2 ⟨rfl, hpasses⟩, ?_⟩
    refine bind_eq_ok_iff.2 ⟨(), c₂, (skipWhitespace_eq_ok_iff (hpasses.placed hc)).2 hskip, ?_⟩
    exact bind_eq_ok_iff.2 ⟨some word, c', hword, rfl⟩

/-- What a round of a command adds to it: a redirection or a run of words. -/
inductive CommandItem (context : Context) (c : Cursor) (command : Command) :
    Command → Cursor → Prop
  /-- A redirection. -/
  | redirection {redirection : Redirection} {word : Word} {c' : Cursor}
      (hkind : Redirection.ofKind? c.current.kind = some redirection)
      (h : target context c = .ok word c') :
      CommandItem context c command (command.redirect word redirection) c'
  /-- A run of words. -/
  | words {run : List Word} {c' : Cursor}
      (hkind : Redirection.ofKind? c.current.kind = none) (hne : run ≠ [])
      (h : words context c = .ok run c') :
      CommandItem context c command { command with arguments := command.arguments ++ run } c'

theorem commandRound_eq_yield_iff (hc : c.Placed) {command command' : Command} :
    commandRound context command c = .ok (.yield command') c' ↔
      ∃ c₁, c.Skips c₁ ∧ CommandItem context c₁ command command' c' := by
  constructor
  · intro h
    obtain ⟨_, c₁, hskip, h⟩ := bind_eq_ok_iff.1 h
    refine ⟨c₁, (skipWhitespace_eq_ok_iff hc).1 hskip, ?_⟩
    rw [current_bind_apply] at h
    cases hkind : Redirection.ofKind? c₁.current.kind with
    | some redirection =>
      simp only [hkind] at h
      obtain ⟨word, c₂, hword, h⟩ := bind_eq_ok_iff.1 h
      obtain ⟨hyield, rfl⟩ := EStateM.Result.ok.inj h
      exact ForInStep.yield.inj hyield ▸ .redirection hkind hword
    | none =>
      simp only [hkind] at h
      obtain ⟨run, c₂, hrun, h⟩ := bind_eq_ok_iff.1 h
      -- a round without words is the last one
      cases run with
      | nil => simp at h
      | cons word run =>
        obtain ⟨hyield, rfl⟩ := EStateM.Result.ok.inj h
        exact ForInStep.yield.inj hyield ▸ .words hkind (by simp) hrun
  · intro h
    obtain ⟨c₁, hskip, hitem⟩ := h
    refine bind_eq_ok_iff.2 ⟨(), c₁, (skipWhitespace_eq_ok_iff hc).2 hskip, ?_⟩
    rw [current_bind_apply]
    cases hitem with
    | redirection hkind hword =>
      simp only [hkind]
      exact bind_eq_ok_iff.2 ⟨_, c', hword, rfl⟩
    | words hkind hne hrun =>
      simp only [hkind]
      refine bind_eq_ok_iff.2 ⟨_, c', hrun, ?_⟩
      simp [hne]

theorem commandRound_eq_done_iff (hcontext : ContextOrderly context) (hc : c.Placed)
    {command command' : Command} :
    commandRound context command c = .ok (.done command') c' ↔
      command' = command ∧ ∃ c₁, c.Skips c₁ ∧ Redirection.ofKind? c₁.current.kind = none ∧
        EndsWord context.inBackticks false c₁ c' := by
  constructor
  · intro h
    obtain ⟨_, c₁, hskip, h⟩ := bind_eq_ok_iff.1 h
    have hskip := (skipWhitespace_eq_ok_iff hc).1 hskip
    have hc₁ := hskip.placed hc
    rw [current_bind_apply] at h
    cases hkind : Redirection.ofKind? c₁.current.kind with
    | some redirection =>
      simp only [hkind] at h
      obtain ⟨word, c₂, -, h⟩ := bind_eq_ok_iff.1 h
      simp at h
    | none =>
      simp only [hkind] at h
      obtain ⟨run, c₂, hrun, h⟩ := bind_eq_ok_iff.1 h
      cases run with
      | cons => simp at h
      | nil =>
        obtain ⟨hdone, rfl⟩ := EStateM.Result.ok.inj h
        refine ⟨(ForInStep.done.inj hdone).symm, c₁, hskip, hkind, ?_⟩
        exact (word?_eq_none_iff hcontext hc₁).1 (word?_of_words_eq_nil hcontext hc₁ hrun)
  · intro h
    obtain ⟨rfl, c₁, hskip, hkind, hends⟩ := h
    refine bind_eq_ok_iff.2 ⟨(), c₁, (skipWhitespace_eq_ok_iff hc).2 hskip, ?_⟩
    have hc₁ := hskip.placed hc
    have hword := (word?_eq_none_iff hcontext hc₁).2 hends
    rw [current_bind_apply]
    simp only [hkind]
    exact bind_eq_ok_iff.2
      ⟨[], c', (words_eq_ok_iff hcontext hc₁).2 (.done (.inl ⟨rfl, hword⟩)), rfl⟩

/-- A redirection or a run of words passes a lexeme. -/
theorem CommandItem.passes (hcontext : ContextOrderly context) (hc : c.Placed)
    {command command' : Command} (h : CommandItem context c command command' c') :
    ∃ lexemes, c.Passes lexemes c' ∧ lexemes ≠ [] := by
  cases h with
  | redirection hkind h =>
    obtain ⟨c₁, c₂, hoperator, ⟨blanks, hblanks, -⟩, hword⟩ :=
      (target_eq_ok_iff hc (kind_ne_stop_of_ofKind? hkind)).1 h
    have hfront := hoperator.trans hblanks
    obtain ⟨lexemes, hlexemes⟩ := (orderly_word? hcontext (hfront.placed hc)).passes hword
    exact ⟨_, hfront.trans hlexemes, by simp⟩
  | words hkind hne h => exact passes_of_words hcontext hc hne h

theorem commandRound_advances (hcontext : ContextOrderly context) :
    Advances (commandRound context) where
  orderly := orderly_commandRound hcontext
  ne_nil hc hround hpasses := by
    obtain ⟨c₁, ⟨blanks, hblanks, -⟩, hitem⟩ := (commandRound_eq_yield_iff hc).1 hround
    obtain ⟨lexemes, hlexemes, hne⟩ := hitem.passes hcontext (hblanks.placed hc)
    simp [hpasses.unique (hblanks.trans hlexemes) hc, hne]

/-! ### Commands -/

theorem CommandItem.isEmpty_eq_false {command command' : Command}
    (h : CommandItem context c command command' c') : command'.isEmpty = false := by
  cases h with
  | redirection => exact Command.isEmpty_redirect ..
  | words _ hne => simp [Command.isEmpty, hne]

/-- A command that has content keeps having some. -/
theorem isEmpty_of_loops (hc : c.Placed) (hcontext : ContextOrderly context)
    {command command' : Command} (h : Loops (commandRound context) command c command' c')
    (hempty : command'.isEmpty = true) :
    command.isEmpty = true ∧ commandRound context command c = .ok (.done command') c' := by
  induction h with
  | done hround =>
    obtain ⟨rfl, -⟩ := (commandRound_eq_done_iff hcontext hc).1 hround
    exact ⟨hempty, hround⟩
  | yield hround _ ih =>
    obtain ⟨c₁, -, hitem⟩ := (commandRound_eq_yield_iff hc).1 hround
    -- what this round added would still be there at the end
    have := (ih ((commandRound_advances hcontext).left_lt hc hround).1 hempty).1
    simp [hitem.isEmpty_eq_false] at this

/-- The content of a command between its first lexeme and its end: assignments come first,
then redirections and runs of words. -/
def CommandContent (context : Context) (c : Cursor) (content : Command) (c' : Cursor) : Prop :=
  ∃ c₁, Gathers (MoreAssignments context) LastAssignments c content.assignments c₁ ∧
    Loops (commandRound context)
      { Command.empty (Span.empty c.current.start) with assignments := content.assignments }
      c₁ content c'

/-- No round changes the assignments or the place of a command. -/
theorem assignments_of_loops (hc : c.Placed) (hcontext : ContextOrderly context)
    {command command' : Command} (h : Loops (commandRound context) command c command' c') :
    command'.assignments = command.assignments ∧ command'.span = command.span := by
  induction h with
  | done hround =>
    obtain ⟨rfl, -⟩ := (commandRound_eq_done_iff hcontext hc).1 hround
    exact ⟨rfl, rfl⟩
  | yield hround _ ih =>
    have hc₁ := ((commandRound_advances hcontext).left_lt hc hround).1
    obtain ⟨c₁, -, hitem⟩ := (commandRound_eq_yield_iff hc).1 hround
    obtain ⟨hassignments, hspan⟩ := ih hc₁
    rw [hassignments, hspan]
    cases hitem <;> simp

/-- The content of a command passes a lexeme unless it is empty. -/
theorem passes_of_commandContent (hcontext : ContextOrderly context) (hc : c.Placed)
    {content : Command} (h : CommandContent context c content c')
    (hne : content.isEmpty = false) : ∃ lexemes, c.Passes lexemes c' ∧ lexemes ≠ [] := by
  obtain ⟨c₁, hgathers, hloops⟩ := h
  have hadvances := commandRound_advances hcontext
  obtain ⟨front, hfront⟩ := (assignmentsRound_gathers hcontext).passes hc hgathers
  have hc₁ := hfront.placed hc
  obtain ⟨back, hback⟩ := (orderly_loop hadvances.orderly _ hc₁).passes
    ((loop_eq_ok_iff hadvances hc₁).2 hloops)
  refine ⟨front ++ back, hfront.trans hback, fun hnil => ?_⟩
  obtain ⟨rfl, rfl⟩ := List.append_eq_nil_iff.1 hnil
  obtain rfl := passes_nil_iff.1 hfront
  obtain rfl := passes_nil_iff.1 hback
  -- neither loop went on, so nothing was added to the empty command
  cases hloops with
  | yield hround hrest =>
    obtain ⟨hc₂, hlt⟩ := hadvances.left_lt hc hround
    obtain ⟨lexemes, hlexemes⟩ := (orderly_loop hadvances.orderly _ hc₂).passes
      ((loop_eq_ok_iff hadvances hc₂).2 hrest)
    have := hlexemes.left_le hc₂
    omega
  | done hround =>
    have hcontent := ((commandRound_eq_done_iff hcontext hc).1 hround).1
    generalize hassigned : content.assignments = assigned at hgathers
    cases hgathers with
    | done hlast =>
      obtain ⟨rfl, -⟩ := hlast
      rw [hcontent, hassigned] at hne
      simp [Command.empty, Command.isEmpty, Command.targets] at hne
    | yield hmore hrest =>
      have hgathersBy := assignmentsRound_gathers hcontext
      have hround : assignmentsRound context [] c = .ok (.yield _) _ :=
        (hgathersBy.yield_iff hc).2 ⟨_, hmore, rfl⟩
      obtain ⟨hc₂, hlt⟩ := hgathersBy.left_lt hc hround
      obtain ⟨lexemes, hlexemes⟩ := hgathersBy.passes hc₂ hrest
      have := hlexemes.left_le hc₂
      omega

theorem command?_eq_ok_iff (hcontext : ContextOrderly context) (hc : c.Placed)
    {result : Option Command} :
    command? context c = .ok result c' ↔
      ∃ c₁ content, c.Skips c₁ ∧ CommandContent context c₁ content c' ∧
        result = if content.isEmpty then none else
          some { content with
            span := ⟨c₁.current.start, max c'.lastEnd c₁.current.start⟩ } := by
  constructor
  · intro h
    obtain ⟨_, c₁, hskip, h⟩ := bind_eq_ok_iff.1 h
    have hskip := (skipWhitespace_eq_ok_iff hc).1 hskip
    have hc₁ := hskip.placed hc
    rw [current_bind_apply] at h
    obtain ⟨assigned, c₂, hassigned, h⟩ := bind_eq_ok_iff.1 h
    have hc₂ := (orderly_assignments hcontext hc₁).placed hc₁ hassigned
    obtain ⟨content, c₃, hcontent, hresult⟩ := bind_eq_ok_iff.1 h
    have hloops := (loop_eq_ok_iff (commandRound_advances hcontext) hc₂).1 hcontent
    have hsame : content.assignments = assigned := (assignments_of_loops hc₂ hcontext hloops).1
    have hgathers := (assignments_eq_ok_iff hcontext hc₁).1 hassigned
    subst hsame
    cases hempty : content.isEmpty with
    | true =>
      simp only [hempty, if_true, pure_apply, EStateM.Result.ok.injEq] at hresult
      obtain ⟨rfl, rfl⟩ := hresult
      exact ⟨c₁, content, hskip, ⟨c₂, hgathers, hloops⟩, by simp [hempty]⟩
    | false =>
      simp only [hempty, Bool.false_eq_true, if_false, lastEnd_bind_apply, pure_apply,
        EStateM.Result.ok.injEq] at hresult
      obtain ⟨rfl, rfl⟩ := hresult
      exact ⟨c₁, content, hskip, ⟨c₂, hgathers, hloops⟩, by simp [hempty]⟩
  · intro h
    obtain ⟨c₁, content, hskip, ⟨c₂, hgathers, hloops⟩, rfl⟩ := h
    have hc₁ := hskip.placed hc
    have hc₂ := ((assignmentsRound_gathers hcontext).passes hc₁ hgathers).elim
      fun _ h => h.placed hc₁
    refine bind_eq_ok_iff.2 ⟨(), c₁, (skipWhitespace_eq_ok_iff hc).2 hskip, ?_⟩
    rw [current_bind_apply]
    refine bind_eq_ok_iff.2 ⟨_, c₂, (assignments_eq_ok_iff hcontext hc₁).2 hgathers, ?_⟩
    refine bind_eq_ok_iff.2 ⟨content, c',
      (loop_eq_ok_iff (commandRound_advances hcontext) hc₂).2 hloops, ?_⟩
    cases hempty : content.isEmpty <;> simp

/-- Where there is no command, neither an assignment nor a redirection nor a word stands
behind the whitespace. -/
theorem command?_eq_none_iff (hcontext : ContextOrderly context) (hc : c.Placed) :
    command? context c = .ok none c' ↔
      ∃ c₁, c.Skips c₁ ∧ c₁.current.kind ≠ .assignmentLhs ∧
        Redirection.ofKind? c₁.current.kind = none ∧
        EndsWord context.inBackticks false c₁ c' := by
  rw [command?_eq_ok_iff hcontext hc]
  constructor
  · intro h
    obtain ⟨c₁, content, hskip, ⟨c₂, hgathers, hloops⟩, hresult⟩ := h
    have hc₁ := hskip.placed hc
    obtain ⟨lexemes, hlexemes⟩ := (assignmentsRound_gathers hcontext).passes hc₁ hgathers
    have hc₂ := hlexemes.placed hc₁
    have hempty : content.isEmpty = true := by
      cases hempty : content.isEmpty with
      | true => rfl
      | false => simp [hempty] at hresult
    have hnil : content.assignments = [] := by
      simp only [Command.isEmpty, Bool.and_eq_true, List.isEmpty_iff] at hempty
      exact hempty.1.1
    rw [hnil] at hgathers
    -- with the blanks skipped already, none of the two loops moves
    obtain ⟨-, hskip', hkind⟩ := hgathers.last_of_nil (by simp [MoreAssignments])
    obtain rfl := (skips_iff_of_kind_ne hskip.kind_ne).1 hskip'
    obtain ⟨-, c₃, hskip'', hofKind, hends⟩ :=
      (commandRound_eq_done_iff hcontext hc₁).1 (isEmpty_of_loops hc₁ hcontext hloops hempty).2
    obtain rfl := (skips_iff_of_kind_ne hskip.kind_ne).1 hskip''
    exact ⟨c₁, hskip, hkind, hofKind, hends⟩
  · intro h
    obtain ⟨c₁, hskip, hkind, hofKind, hends⟩ := h
    have hc₁ := hskip.placed hc
    have hself := skips_self hskip.kind_ne
    exact ⟨c₁, Command.empty (Span.empty c₁.current.start), hskip,
      ⟨c₁, .done ⟨rfl, hself, hkind⟩,
        .done ((commandRound_eq_done_iff hcontext hc₁).2 ⟨rfl, c₁, hself, hofKind, hends⟩)⟩, rfl⟩

end Production

end CommandSyntax
