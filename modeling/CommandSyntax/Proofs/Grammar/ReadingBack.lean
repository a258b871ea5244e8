import CommandSyntax.Proofs.Grammar.CommandReadingBack

/-!
# CommandSyntax.Proofs.Grammar.ReadingBack

**Productions read printed trees back.** In front of the text of a well-formed tree the
production of its type succeeds, stands in front of what follows then, and gives the
tree up to spans (`readsBack`). The proof is by induction over the nodes of the tree,
with one lemma for each type of node; those of pipelines, statements and scripts are here.
-/

namespace CommandSyntax

open Cursor Production

variable {limit : Nat} {c c' : Cursor} {kind : TokenKind} {text rest : List Char}

/-! ### Pipelines -/

/-- A bar is cut off in front of a command. -/
theorem cuts_pipe (htext : Heads kind text) (hkind : kind ∈ commandStarts) :
    Cuts .pipe ['|'] text :=
  cuts_openMark '|' (by simp [openMarks]) (by simp [commandStarts, partStarts, longer]) hkind htext

theorem stage?_of_stands {levels : Nat} {command : Command}
    (hread : (Node.command command).ReadsBack limit)
    (hlevels : (Node.command command).substitutionDepth ≤ levels) (hrest : Heads kind rest)
    (hkind : kind ∈ commandFollows) (h : c.Stands (command.print ++ rest)) :
    ∃ command' c', stage? (levelContext limit false levels) c = .ok (some command') c' ∧
      c'.Stands rest ∧ command'.mapSpans eraseSpan = command.mapSpans eraseSpan := by
  obtain ⟨first, hfirst, hheads⟩ := hread.heads hrest hkind
  obtain ⟨value, c', hvalue, h', hlike⟩ := hread.reads hlevels hrest hkind h
  obtain ⟨command', rfl, hcommand'⟩ := Option.map_eq_some_iff.1 hlike
  have hfirstKind : first ≠ .whitespace ∧ first ≠ .stop ∧ first ≠ .pipe := by
    refine ⟨?_, ?_, ?_⟩
    all_goals exact ne_of_mem_of_not_mem hfirst (by simp [commandStarts, partStarts])
  have hcurrent := h.kind_eq hheads
  refine ⟨command', c', (stage?_eq_ok_iff (levelContext_orderly _ _ _) h.placed).2
    ⟨c, c', h.skips hheads hfirstKind.1, hcurrent ▸ hfirstKind.2.1, hcurrent ▸ hfirstKind.2.2,
      hvalue, h'.skips hrest (ne_of_ends (ends_of_mem_commandFollows hkind)).1⟩, h', hcommand'⟩

/-- The stages of a pipeline behind the first as text. -/
def printStages (commands : List Command) : List Char :=
  commands.flatMap fun command => ['|'] ++ command.print

theorem Pipeline.print_eq (first : Command) (commands : List Command) (span : Span) :
    (Pipeline.mk (first :: commands) span).print = first.print ++ printStages commands := by
  induction commands generalizing first with
  | nil => simp [Pipeline.print, printStages]
  | cons next commands ih =>
    have hnext := ih next
    simp only [Pipeline.print, Command.listPrint_eq, List.map_cons] at hnext ⊢
    rw [intercalate_cons_cons, hnext]
    simp [printStages]

section Stages

variable {commands : List Command}
  (hread : ∀ command ∈ commands, (Node.command command).ReadsBack limit)
include hread

theorem heads_printStages (hrest : Heads kind rest) (hkind : kind ∈ commandFollows) :
    ∃ next ∈ commandFollows, Heads next (printStages commands ++ rest) := by
  induction commands with
  | nil => exact ⟨kind, hkind, hrest⟩
  | cons command commands ih =>
    obtain ⟨hcommand, hmore⟩ := List.forall_mem_cons.1 hread
    obtain ⟨next, hnext, hheads⟩ := ih hmore
    obtain ⟨first, hfirst, hheads'⟩ := hcommand.heads hheads hnext
    refine ⟨.pipe, by simp [commandFollows], ?_⟩
    simpa [printStages] using (cuts_pipe hheads' hfirst).heads

theorem gathers_stages {levels : Nat}
    (hdepth : ∀ command ∈ commands, (Node.command command).substitutionDepth ≤ levels)
    (hrest : Heads kind rest) (hkind : kind ∈ [.background, .statementEnd])
    (h : c.Stands (printStages commands ++ rest)) :
    ∃ commands' c', Gathers (MoreStages (levelContext limit false levels)) LastStages
        c commands' c' ∧ c'.Stands rest ∧
      commands'.map (Command.mapSpans eraseSpan) = commands.map (Command.mapSpans eraseSpan) := by
  have hfollows : kind ∈ commandFollows := List.mem_cons_of_mem _ hkind
  induction commands generalizing c with
  | nil =>
    refine ⟨[], c, .done ⟨rfl, rfl, ?_⟩, h, rfl⟩
    rw [h.kind_eq hrest]
    exact ne_of_mem_of_not_mem hkind (by simp)
  | cons command commands ih =>
    obtain ⟨hcommand, hmore⟩ := List.forall_mem_cons.1 hread
    obtain ⟨hcommandDepth, hmoreDepth⟩ := List.forall_mem_cons.1 hdepth
    obtain ⟨next, hnext, hheads⟩ := heads_printStages hmore hrest hfollows
    obtain ⟨first, hfirst, hheads'⟩ := hcommand.heads hheads hnext
    have htext : printStages (command :: commands) ++ rest =
        ['|'] ++ (command.print ++ (printStages commands ++ rest)) := by simp [printStages]
    obtain ⟨hbar, -, c₁, hpasses, h₁⟩ := (htext ▸ h).cut (cuts_pipe hheads' hfirst) hheads'
    obtain ⟨command', c₂, hstage, h₂, hlike⟩ :=
      stage?_of_stands hcommand hcommandDepth hheads hnext h₁
    obtain ⟨commands', c', hgathers, h', hlikes⟩ := ih hmore hmoreDepth h₂
    exact ⟨command' :: commands', c', .yield ⟨command', c₁, rfl, hbar, hpasses, hstage⟩ hgathers,
      h', by simp [hlike, hlikes]⟩

end Stages

theorem readsBack_pipeline {pipeline : Pipeline} (hne : pipeline.commands ≠ [])
    (hread : ∀ command ∈ pipeline.commands, (Node.command command).ReadsBack limit) :
    (Node.pipeline pipeline).ReadsBack limit := by
  obtain ⟨commands, span⟩ := pipeline
  obtain ⟨first, commands, rfl⟩ := List.exists_cons_of_ne_nil hne
  obtain ⟨hfirst, hmore⟩ := List.forall_mem_cons.1 hread
  refine ⟨fun {rest kind} hrest hkind => ?_, fun {levels rest kind c} hlevels hrest hkind h => ?_⟩
  · obtain ⟨next, hnext, hheads⟩ :=
      heads_printStages hmore hrest (List.mem_cons_of_mem _ hkind)
    rw [Pipeline.print_eq, List.append_assoc]
    exact hfirst.heads hheads hnext
  · have hdepth : ∀ command ∈ first :: commands,
        (Node.command command).substitutionDepth ≤ levels := fun _ hmem =>
      Nat.le_trans (Node.substitutionDepth_le_of_mem_children (List.mem_map_of_mem hmem)) hlevels
    obtain ⟨hfirstDepth, hmoreDepth⟩ := List.forall_mem_cons.1 hdepth
    obtain ⟨next, hnext, hheads⟩ :=
      heads_printStages hmore hrest (List.mem_cons_of_mem _ hkind)
    rw [Pipeline.print_eq, List.append_assoc] at h
    obtain ⟨first', c₁, hstage, h₁, hlike⟩ := stage?_of_stands hfirst hfirstDepth hheads hnext h
    obtain ⟨commands', c', hgathers, h', hlikes⟩ := gathers_stages hmore hmoreDepth hrest hkind h₁
    refine ⟨_, c', (pipeline?_eq_some_iff (levelContext_orderly _ _ _) h.placed).2
      ⟨first', commands', c₁, hstage, hgathers, rfl⟩, h', ?_⟩
    simp [Pipeline.mapSpans, hlike, hlikes, eraseSpan]

/-! ### Statements -/

theorem readsBack_statement {statement : Statement}
    (hread : (Node.pipeline statement.pipeline).ReadsBack limit) :
    (Node.statement statement).ReadsBack limit := by
  obtain ⟨pipeline, background, span⟩ := statement
  have hdepth : (Node.pipeline pipeline).substitutionDepth ≤
      (Node.statement ⟨pipeline, background, span⟩).substitutionDepth :=
    Node.substitutionDepth_le_of_mem_children List.mem_cons_self
  -- in the background the pipeline is followed by its mark, otherwise by the end itself
  cases background with
  | false =>
    have htext : (Statement.mk pipeline false span).print = pipeline.print := by
      simp [Statement.print]
    refine ⟨fun {rest kind} hrest hkind => ?_, fun {levels rest kind c} hlevels hrest hkind h => ?_⟩
    · exact htext ▸ hread.heads hrest (List.mem_cons_of_mem _ hkind)
    · obtain ⟨value, c', hvalue, h', hlike⟩ := hread.reads (Nat.le_trans hdepth hlevels) hrest
        (List.mem_cons_of_mem _ hkind) (htext ▸ h)
      obtain ⟨pipeline', rfl, hpipeline'⟩ := Option.map_eq_some_iff.1 hlike
      obtain rfl := List.mem_singleton.1 hkind
      have hskip : c'.Skips c' := h'.skips hrest (by simp)
      refine ⟨_, c', (statement?_eq_some_iff (levelContext_orderly _ _ _) h.placed).2
        ⟨pipeline', false, c', c', c', hvalue, hskip,
          accept_of_kind_ne (by simp [h'.kind_eq hrest]), hskip, rfl⟩, h', ?_⟩
      simp [Statement.mapSpans, hpipeline', eraseSpan]
  | true =>
    have htext (rest : List Char) : (Statement.mk pipeline true span).print ++ rest =
        pipeline.print ++ (['&'] ++ rest) := by simp [Statement.print]
    have hcuts {rest : List Char} (hrest : Heads .statementEnd rest) :
        Cuts .background ['&'] rest :=
      cuts_openMark '&' (by simp [openMarks]) (by simp [longer]) (List.mem_singleton_self _) hrest
    refine ⟨fun {rest kind} hrest hkind => ?_, fun {levels rest kind c} hlevels hrest hkind h => ?_⟩
    · obtain rfl := List.mem_singleton.1 hkind
      rw [htext]
      exact hread.heads (hcuts hrest).heads (by simp)
    · obtain rfl := List.mem_singleton.1 hkind
      have hbackground := hcuts hrest
      obtain ⟨value, c₁, hvalue, h₁, hlike⟩ := hread.reads (Nat.le_trans hdepth hlevels)
        hbackground.heads (by simp) (htext rest ▸ h)
      obtain ⟨pipeline', rfl, hpipeline'⟩ := Option.map_eq_some_iff.1 hlike
      obtain ⟨hcurrent, -, c', hpasses, h'⟩ := h₁.cut hbackground hrest
      refine ⟨_, c', (statement?_eq_some_iff (levelContext_orderly _ _ _) h.placed).2
        ⟨pipeline', true, c₁, c₁, c', hvalue, h₁.skips hbackground.heads (by simp),
          (accept_eq_ok_iff (by simp)).2 (.inl ⟨hcurrent, rfl, hpasses⟩),
          h'.skips hrest (by simp), rfl⟩, h', ?_⟩
      simp [Statement.mapSpans, hpipeline', eraseSpan]

/-! ### Scripts -/

/-- Statements as text. -/
def printStatements (statements : List Statement) : List Char :=
  statements.flatMap fun statement => statement.print ++ [';']

theorem Script.print_eq (script : Script) : script.print = printStatements script.statements := by
  obtain ⟨statements, span⟩ := script
  simp [Script.print, printStatements, List.flatMap_map]

section Statements

variable {statements : List Statement}
  (hread : ∀ statement ∈ statements, (Node.statement statement).ReadsBack limit)
include hread

theorem heads_printStatements (hrest : Heads kind rest) (hkind : kind ∈ scriptFollows) :
    ∃ first ∈ commandStarts ++ scriptFollows, Heads first (printStatements statements ++ rest) := by
  cases statements with
  | nil => exact ⟨kind, List.mem_append_right _ hkind, hrest⟩
  | cons statement statements =>
    have hend : Cuts .statementEnd [';'] (printStatements statements ++ rest) :=
      cuts_of_mem_marks (by simp [marks])
    obtain ⟨first, hfirst, hheads⟩ :=
      (hread statement List.mem_cons_self).heads hend.heads (by simp)
    exact ⟨first, List.mem_append_left _ hfirst, by simpa [printStatements] using hheads⟩

theorem gathers_statements {levels : Nat}
    (hdepth : ∀ statement ∈ statements, (Node.statement statement).substitutionDepth ≤ levels)
    (hrest : Heads kind rest) (hkind : kind ∈ scriptFollows)
    (h : c.Stands (printStatements statements ++ rest)) :
    ∃ statements' c', Gathers (MoreStatements (levelContext limit false levels))
        (LastStatements (levelContext limit false levels)) c statements' c' ∧ c'.Stands rest ∧
      statements'.map (Statement.mapSpans eraseSpan) =
        statements.map (Statement.mapSpans eraseSpan) := by
  induction statements generalizing c with
  | nil =>
    have hcurrent := h.kind_eq hrest
    simp only [scriptFollows, List.mem_cons, List.not_mem_nil, or_false] at hkind
    rcases hkind with rfl | rfl
    · exact ⟨[], c, .done (.inl ⟨rfl, h.skips hrest (by simp), hcurrent⟩), h, rfl⟩
    · -- a statement is looked for, and there is none
      have hskip : c.Skips c := h.skips hrest (by simp)
      have hnone : statement? (levelContext limit false levels) c = .ok none c :=
        statement?_of_stops (levelContext_orderly _ _ _) h.placed
          (by simp [hcurrent, stops, closes]) (by simp [hcurrent])
      exact ⟨[], c, .done (.inr ⟨none, c, c, rfl, hskip, by simp [hcurrent], hnone, hskip,
        by simp [hcurrent]⟩), h, rfl⟩
  | cons statement statements ih =>
    obtain ⟨hstatement, hmore⟩ := List.forall_mem_cons.1 hread
    obtain ⟨hstatementDepth, hmoreDepth⟩ := List.forall_mem_cons.1 hdepth
    have hend : Cuts .statementEnd [';'] (printStatements statements ++ rest) :=
      cuts_of_mem_marks (by simp [marks])
    have htext : printStatements (statement :: statements) ++ rest =
        statement.print ++ ([';'] ++ (printStatements statements ++ rest)) := by
      simp [printStatements]
    rw [htext] at h
    obtain ⟨first, hfirst, hheads⟩ := hstatement.heads hend.heads (by simp)
    have hfirstKind : first ≠ .whitespace ∧ first ≠ .stop := by
      refine ⟨?_, ?_⟩
      all_goals exact ne_of_mem_of_not_mem hfirst (by simp [commandStarts, partStarts])
    obtain ⟨value, c₁, hvalue, h₁, hlike⟩ :=
      hstatement.reads hstatementDepth hend.heads (by simp) h
    obtain ⟨statement', rfl, hstatement'⟩ := Option.map_eq_some_iff.1 hlike
    obtain ⟨next, -, hnext⟩ := heads_printStatements hmore hrest hkind
    obtain ⟨hcurrent, -, c₂, hpasses, h₂⟩ := h₁.cut hend hnext
    obtain ⟨statements', c', hgathers, h', hlikes⟩ := ih hmore hmoreDepth h₂
    exact ⟨statement' :: statements', c', .yield ⟨some statement', c, c₁, c₁, rfl,
      h.skips hheads hfirstKind.1, h.kind_eq hheads ▸ hfirstKind.2, hvalue,
      h₁.skips hend.heads (by simp), hcurrent, hpasses⟩ hgathers, h', by
        simp [hstatement', hlikes]⟩

end Statements

theorem readsBack_script {script : Script}
    (hread : ∀ statement ∈ script.statements, (Node.statement statement).ReadsBack limit) :
    (Node.script script).ReadsBack limit := by
  refine ⟨fun {rest kind} hrest hkind => ?_, fun {levels rest kind c} hlevels hrest hkind h => ?_⟩
  · rw [script.print_eq]
    exact heads_printStatements hread hrest hkind
  · have hdepth : ∀ statement ∈ script.statements,
        (Node.statement statement).substitutionDepth ≤ levels := fun _ hmem =>
      Nat.le_trans (Node.substitutionDepth_le_of_mem_children (List.mem_map_of_mem hmem)) hlevels
    rw [script.print_eq] at h
    obtain ⟨statements, c', hgathers, h', hlikes⟩ := gathers_statements hread hdepth hrest hkind h
    refine ⟨_, c', (scriptIn_eq_ok_iff (levelContext_orderly _ _ _) h.placed).2
      ⟨statements, hgathers, rfl⟩, h', ?_⟩
    rw [Script.eraseSpans_eq_iff, Script.statements_ofStatements, hlikes]

/-! ### All nodes -/

/-- Every node that can be written is read back. -/
theorem readsBack (limit : Nat) (node : Node) (h : ∀ other ∈ node.all, other.WellFormed) :
    node.ReadsBack limit := by
  induction node using Node.induction with
  | step node ih =>
    -- a well-formed node has well-formed children, all of them read back by induction
    have hself := h node (Node.mem_all_self node)
    have hchildren : ∀ child ∈ node.children, child.ReadsBack limit := fun child hchild =>
      ih child hchild fun other hmem => h other (Node.mem_all_of_child hchild hmem)
    cases node with
    | script s => exact readsBack_script fun _ hmem => hchildren _ (List.mem_map_of_mem hmem)
    | statement s => exact readsBack_statement (hchildren _ List.mem_cons_self)
    | pipeline p =>
      exact readsBack_pipeline hself fun _ hmem => hchildren _ (List.mem_map_of_mem hmem)
    | command c => exact readsBack_command hchildren hself
    | assignment a =>
      exact readsBack_assignment hself fun word hmem =>
        hchildren _ (List.mem_map_of_mem (Option.mem_toList.2 hmem))
    | word w => exact readsBack_word hself fun _ hmem => hchildren _ (List.mem_map_of_mem hmem)
    | part p =>
      cases p with
      | literal text => exact readsBack_literal hself
      | parameter name => exact readsBack_parameter hself
      | glob pattern =>
        exact readsBack_glob (h _ (Node.mem_all_of_child List.mem_cons_self (Node.mem_all_self _)))
      | substitution body => exact readsBack_substitution (hchildren _ List.mem_cons_self)
    | glob g => trivial
    | substitution body => exact hchildren (.script body) List.mem_cons_self

end CommandSyntax
