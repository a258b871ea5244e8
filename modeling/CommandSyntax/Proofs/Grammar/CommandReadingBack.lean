import CommandSyntax.Proofs.Grammar.WordReadingBack

/-!
# CommandSyntax.Proofs.Grammar.CommandReadingBack

**Commands are read back from their text** (`readsBack_command`), when all words and
assignments in them are: the assignments first, then the arguments in one run of words,
then the redirections one by one. Each of them takes the blank after it along, so that
the next one, or what follows the command, stands behind no blank.
-/

namespace CommandSyntax

open Cursor Production

variable {limit : Nat} {c c' : Cursor} {kind : TokenKind} {text rest : List Char}

/-! ### Pieces of commands -/

/-- Spaced pieces begin as the first of them does, and what follows them follows no blank. -/
theorem heads_spaced {α : Type} {print : α → List Char} {items : List α}
    (starts : List TokenKind) (hstarts : .whitespace ∉ starts)
    (hitems : ∀ item ∈ items, ∀ {rest}, Heads .whitespace rest →
      ∃ first ∈ starts, Heads first (print item ++ rest))
    (hrest : Heads kind rest) (hkind : kind ≠ .whitespace) :
    ∃ first, (first ∈ starts ∨ items = [] ∧ first = kind) ∧ first ≠ .whitespace ∧
      Heads first (spaced (items.map print) ++ rest) := by
  induction items with
  | nil => exact ⟨kind, .inr ⟨rfl, rfl⟩, hkind, hrest⟩
  | cons item items ih =>
    obtain ⟨hitem, hmore⟩ := List.forall_mem_cons.1 hitems
    obtain ⟨next, -, hnext, hheads⟩ := ih hmore
    obtain ⟨first, hfirst, hheads'⟩ := hitem (cuts_blank isBlank_space hheads hnext).heads
    refine ⟨first, .inl hfirst, fun heq => hstarts (heq ▸ hfirst), ?_⟩
    simpa using hheads'

theorem gathers_assignments {levels : Nat} {assignments : List Assignment}
    (hread : ∀ target ∈ assignments, (Node.assignment target).ReadsBack limit)
    (hdepth : ∀ target ∈ assignments, (Node.assignment target).substitutionDepth ≤ levels)
    (hrest : Heads kind rest) (hkind : kind ≠ .whitespace ∧ kind ≠ .assignmentLhs) {c₁ : Cursor}
    (hskip : c.Skips c₁) (h : c₁.Stands (spaced (assignments.map Assignment.print) ++ rest)) :
    ∃ assignments' c', Gathers (MoreAssignments (levelContext limit false levels))
        LastAssignments c assignments' c' ∧ c'.Stands rest ∧
      assignments'.map (Assignment.mapSpans eraseSpan) =
        assignments.map (Assignment.mapSpans eraseSpan) := by
  induction assignments generalizing c c₁ with
  | nil => exact ⟨[], c₁, .done ⟨rfl, hskip, h.kind_eq hrest ▸ hkind.2⟩, h, rfl⟩
  | cons target assignments ih =>
    obtain ⟨htarget, hmore⟩ := List.forall_mem_cons.1 hread
    obtain ⟨htargetDepth, hmoreDepth⟩ := List.forall_mem_cons.1 hdepth
    obtain ⟨next, -, hnext, hheads⟩ := heads_spaced [.assignmentLhs] (by simp)
      (fun target hmem _ hblank => (hmore target hmem).heads hblank (by simp)) hrest hkind.1
    simp only [List.map_cons, spaced_cons, List.append_assoc, List.cons_append] at h
    obtain ⟨result, c₂, hok, h₂, hlike⟩ :=
      htarget.reads htargetDepth (cuts_blank isBlank_space hheads hnext).heads (by simp) h
    obtain ⟨c₃, hskip', h₃⟩ := h₂.skips_blank isBlank_space hheads hnext
    obtain ⟨assignments', c', hgathers, h', hlikes⟩ := ih hmore hmoreDepth hskip' h₃
    exact ⟨result :: assignments', c', .yield ⟨result, c₁, rfl, hskip, hok⟩ hgathers, h', by
      simp [hlike, hlikes]⟩

theorem gathers_words {levels : Nat} {words : List Word}
    (hread : ∀ word ∈ words, (Node.word word).ReadsBack limit)
    (hdepth : ∀ word ∈ words, (Node.word word).substitutionDepth ≤ levels)
    (hrest : Heads kind rest) (hkind : kind ≠ .whitespace ∧ inWord false kind = false)
    (h : c.Stands (spaced (words.map Word.print) ++ rest)) :
    ∃ words' c', Gathers (MoreWords (levelContext limit false levels))
        (LastWords (levelContext limit false levels)) c words' c' ∧ c'.Stands rest ∧
      words'.map (Word.mapSpans eraseSpan) = words.map (Word.mapSpans eraseSpan) := by
  induction words generalizing c with
  | nil =>
    have hnone : word? (levelContext limit false levels) c = .ok none c :=
      word?_of_stands h hrest hkind.2
    exact ⟨[], c, .done (.inl ⟨rfl, hnone⟩), h, rfl⟩
  | cons word words ih =>
    obtain ⟨hword, hmore⟩ := List.forall_mem_cons.1 hread
    obtain ⟨hwordDepth, hmoreDepth⟩ := List.forall_mem_cons.1 hdepth
    obtain ⟨next, -, hnext, hheads⟩ := heads_spaced partStarts (by simp [partStarts])
      (fun word hmem _ hblank => (hmore word hmem).heads hblank (by simp)) hrest hkind.1
    simp only [List.map_cons, spaced_cons, List.append_assoc, List.cons_append] at h
    have hblank := (cuts_blank isBlank_space hheads hnext).heads
    obtain ⟨value, c₁, hvalue, h₁, hlike⟩ := hword.reads hwordDepth hblank (by simp) h
    obtain ⟨word', rfl, hword'⟩ := Option.map_eq_some_iff.1 hlike
    obtain ⟨c₂, hskip, h₂⟩ := h₁.skips_blank isBlank_space hheads hnext
    obtain ⟨words', c', hgathers, h', hlikes⟩ := ih hmore hmoreDepth h₂
    exact ⟨word' :: words', c', .yield ⟨word', c₁, rfl, hvalue, h₁.kind_eq hblank, hskip⟩
      hgathers, h', by simp [hword', hlikes]⟩

/-! ### Redirections -/

/-- The kinds of the operators. -/
def redirectionStarts : List TokenKind := [.readRedirect, .writeRedirect, .appendRedirect]

/-- An operator is cut off in front of a word. -/
theorem cuts_operator (redirection : Redirection) (htext : Heads kind text)
    (hkind : kind ∈ partStarts) :
    ∃ operator ∈ redirectionStarts, Redirection.ofKind? operator = some redirection ∧
      Cuts operator redirection.operator text := by
  cases redirection with
  | input => exact ⟨.readRedirect, by simp [redirectionStarts], rfl,
      cuts_of_mem_marks (by simp [Redirection.operator, marks])⟩
  | output =>
    exact ⟨.writeRedirect, by simp [redirectionStarts], rfl,
      cuts_openMark '>' (by simp [Redirection.operator, openMarks]) (by simp [partStarts, longer])
        hkind htext⟩
  | append => exact ⟨.appendRedirect, by simp [redirectionStarts], rfl,
      cuts_of_mem_marks (by simp [Redirection.operator, marks])⟩

theorem heads_printRedirection {redirection : Redirection × Word}
    (hread : (Node.word redirection.2).ReadsBack limit) (hrest : Heads .whitespace rest) :
    ∃ first ∈ redirectionStarts, Heads first (printRedirection redirection ++ rest) := by
  obtain ⟨first, hfirst, hheads⟩ := hread.heads hrest (by simp)
  obtain ⟨operator, hoperator, -, hcuts⟩ := cuts_operator redirection.1 hheads hfirst
  refine ⟨operator, hoperator, ?_⟩
  simpa [printRedirection] using hcuts.heads

/-- Redirects a command to some files, one after the other. -/
def Command.redirectAll (command : Command) (redirections : List (Redirection × Word)) : Command :=
  redirections.foldl (fun command redirection => command.redirect redirection.2 redirection.1)
    command

/-- Redirections are read back one by one, each after the blank before it. -/
theorem loops_redirections {levels : Nat} {redirections : List (Redirection × Word)}
    (hread : ∀ redirection ∈ redirections, (Node.word redirection.2).ReadsBack limit)
    (hdepth : ∀ redirection ∈ redirections, (Node.word redirection.2).substitutionDepth ≤ levels)
    (hrest : Heads kind rest) (hkind : kind ∈ commandFollows) (hc : c.Placed) {c₁ : Cursor}
    (hskip : c.Skips c₁)
    (h : c₁.Stands (spaced (redirections.map printRedirection) ++ rest)) (command : Command) :
    ∃ redirections' c', Loops (commandRound (levelContext limit false levels)) command c
        (command.redirectAll redirections') c' ∧ c'.Stands rest ∧
      redirections'.map (Prod.map id (Word.mapSpans eraseSpan)) =
        redirections.map (Prod.map id (Word.mapSpans eraseSpan)) := by
  have hends := ends_of_mem_commandFollows hkind
  obtain ⟨hblank, -, hoperator⟩ := ne_of_ends hends
  induction redirections generalizing c c₁ command with
  | nil =>
    exact ⟨[], c₁, .done ((commandRound_eq_done_iff (levelContext_orderly _ _ _) hc).2
      ⟨rfl, c₁, hskip, h.kind_eq hrest ▸ hoperator,
        endsWord_of_stands h hrest (inWord_of_ends hends)⟩), h, rfl⟩
  | cons redirection redirections ih =>
    obtain ⟨hword, hmore⟩ := List.forall_mem_cons.1 hread
    obtain ⟨hwordDepth, hmoreDepth⟩ := List.forall_mem_cons.1 hdepth
    obtain ⟨next, -, hnext, hheads⟩ := heads_spaced redirectionStarts (by simp [redirectionStarts])
      (fun redirection hmem _ hblank => heads_printRedirection (hmore redirection hmem) hblank)
      hrest hblank
    simp only [List.map_cons, spaced_cons, List.append_assoc, List.cons_append,
      printRedirection] at h
    have hblank := (cuts_blank isBlank_space hheads hnext).heads
    obtain ⟨first, hfirst, hfirstHeads⟩ := hword.heads hblank (by simp)
    obtain ⟨operator, hoperator, hredirects, hcuts⟩ :=
      cuts_operator redirection.1 hfirstHeads hfirst
    obtain ⟨hcurrent, -, c₂, hpasses, h₂⟩ := h.cut hcuts hfirstHeads
    obtain ⟨value, c₃, hvalue, h₃, hlike⟩ := hword.reads hwordDepth hblank (by simp) h₂
    obtain ⟨word', rfl, hword'⟩ := Option.map_eq_some_iff.1 hlike
    have htarget : target (levelContext limit false levels) c₁ = .ok word' c₃ := by
      refine (target_eq_ok_iff h.placed ?_).2 ⟨c₂, c₂, hpasses, h₂.skips hfirstHeads ?_, hvalue⟩
      · exact hpasses.kind_ne_stop _ (by simp)
      · exact ne_of_mem_of_not_mem hfirst (by simp [partStarts])
    obtain ⟨c₄, hskip', h₄⟩ := h₃.skips_blank isBlank_space hheads hnext
    obtain ⟨redirections', c', hloops, h', hlikes⟩ :=
      ih hmore hmoreDepth h₃.placed hskip' h₄ (command.redirect word' redirection.1)
    refine ⟨(redirection.1, word') :: redirections', c', .yield ((commandRound_eq_yield_iff hc).2
      ⟨c₁, hskip, .redirection (hcurrent ▸ hredirects) htarget⟩) hloops, h', ?_⟩
    simp [hword', hlikes, Prod.map]

/-! ### Commands -/

namespace Command

variable (command : Command) (redirections : List (Redirection × Word)) (f : Span → Span)

@[simp] theorem assignments_redirectAll :
    (command.redirectAll redirections).assignments = command.assignments := by
  induction redirections generalizing command with
  | nil => rfl
  | cons redirection redirections ih => exact (ih _).trans (assignments_redirect ..)

theorem mapSpans_redirectAll :
    (command.redirectAll redirections).mapSpans f =
      (command.mapSpans f).redirectAll (redirections.map (Prod.map id (Word.mapSpans f))) := by
  induction redirections generalizing command with
  | nil => rfl
  | cons redirection redirections ih =>
    refine (ih _).trans ?_
    rw [mapSpans_redirect]
    rfl

@[simp] theorem map_snd_redirections : command.redirections.map Prod.snd = command.targets := by
  simp [redirections, targets, Function.comp_def]

theorem mem_children_of_mem_assignments {target : Assignment} (h : target ∈ command.assignments) :
    Node.assignment target ∈ (Node.command command).children :=
  List.mem_append_left _ (List.mem_map_of_mem h)

theorem mem_children_of_mem_arguments {word : Word} (h : word ∈ command.arguments) :
    Node.word word ∈ (Node.command command).children :=
  List.mem_append_right _ (List.mem_map_of_mem (List.mem_append_left _ h))

theorem mem_children_of_mem_redirections {redirection : Redirection × Word}
    (h : redirection ∈ command.redirections) :
    Node.word redirection.2 ∈ (Node.command command).children := by
  have htarget : redirection.2 ∈ command.targets :=
    command.map_snd_redirections ▸ List.mem_map_of_mem h
  exact List.mem_append_right _ (List.mem_map_of_mem (List.mem_append_right _ htarget))

/-- A command is its assignments and arguments, redirected to its files. -/
theorem redirectAll_redirections :
    (Command.mk command.assignments command.arguments none none none command.span).redirectAll
      command.redirections = command := by
  obtain ⟨assignments, arguments, input, output, append, span⟩ := command
  cases input <;> cases output <;> cases append <;> rfl

end Command

/-- The content of a command is that of the command that is written, up to spans. -/
theorem mapSpans_content {command : Command} {assignments : List Assignment} {arguments : List Word}
    {redirections : List (Redirection × Word)} (span : Span)
    (hassignments : assignments.map (Assignment.mapSpans eraseSpan) =
      command.assignments.map (Assignment.mapSpans eraseSpan))
    (harguments : arguments.map (Word.mapSpans eraseSpan) =
      command.arguments.map (Word.mapSpans eraseSpan))
    (hredirections : redirections.map (Prod.map id (Word.mapSpans eraseSpan)) =
      command.redirections.map (Prod.map id (Word.mapSpans eraseSpan))) :
    ((Command.mk assignments arguments none none none span).redirectAll redirections).mapSpans
      eraseSpan = command.mapSpans eraseSpan := by
  calc ((Command.mk assignments arguments none none none span).redirectAll redirections).mapSpans
        eraseSpan
      = ((Command.mk command.assignments command.arguments none none none
          command.span).mapSpans eraseSpan).redirectAll
          (command.redirections.map (Prod.map id (Word.mapSpans eraseSpan))) := by
        rw [Command.mapSpans_redirectAll, hredirections]
        simp [Command.mapSpans, hassignments, harguments, eraseSpan]
    _ = command.mapSpans eraseSpan := by
        rw [← Command.mapSpans_redirectAll, Command.redirectAll_redirections]

section Pieces

variable {command : Command}
  (hread : ∀ child ∈ (Node.command command).children, child.ReadsBack limit)
include hread

/-- How the assignments, the arguments and the redirections of a command begin. -/
theorem heads_pieces (hrest : Heads kind rest) (hkind : kind ∈ commandFollows) :
    ∃ first second third,
      (first = .assignmentLhs ∨ command.assignments = [] ∧ first = second) ∧
      (second ∈ partStarts ∨ command.arguments = [] ∧ second = third) ∧
      (third ∈ redirectionStarts ∨ command.redirections = [] ∧ third = kind) ∧
      Heads first (command.print ++ rest) ∧
      Heads second (spaced (command.arguments.map Word.print) ++
        (spaced (command.redirections.map printRedirection) ++ rest)) ∧
      Heads third (spaced (command.redirections.map printRedirection) ++ rest) := by
  have hblank : kind ≠ .whitespace := (ne_of_ends (ends_of_mem_commandFollows hkind)).1
  obtain ⟨third, hthird, hblank₃, hheads₃⟩ := heads_spaced redirectionStarts
    (by simp [redirectionStarts]) (fun _ hmem _ hspace =>
      heads_printRedirection (hread _ (command.mem_children_of_mem_redirections hmem)) hspace)
    hrest hblank
  obtain ⟨second, hsecond, hblank₂, hheads₂⟩ := heads_spaced partStarts (by simp [partStarts])
    (fun word hmem _ hspace =>
      ReadsText.heads (hread _ (command.mem_children_of_mem_arguments hmem)) hspace (by simp))
    hheads₃ hblank₃
  obtain ⟨first, hfirst, -, hheads₁⟩ := heads_spaced [.assignmentLhs] (by simp)
    (fun target hmem _ hspace =>
      ReadsText.heads (hread _ (command.mem_children_of_mem_assignments hmem)) hspace (by simp))
    hheads₂ hblank₂
  refine ⟨first, second, third, by simpa using hfirst, hsecond, hthird, ?_, hheads₂, hheads₃⟩
  simpa [command.print_eq] using hheads₁

/-- A command that is not empty begins with one of its pieces. -/
theorem heads_command (hne : command.isEmpty = false) (hrest : Heads kind rest)
    (hkind : kind ∈ commandFollows) :
    ∃ first ∈ commandStarts, Heads first (command.print ++ rest) := by
  obtain ⟨first, second, third, hfirst, hsecond, hthird, hheads, -, -⟩ :=
    heads_pieces hread hrest hkind
  refine ⟨first, ?_, hheads⟩
  simp only [commandStarts, List.mem_append]
  rcases hfirst with rfl | ⟨hassignments, rfl⟩
  · simp
  rcases hsecond with hsecond | ⟨harguments, rfl⟩
  · exact .inl hsecond
  rcases hthird with hthird | ⟨hredirections, -⟩
  · exact .inr (List.mem_cons_of_mem _ hthird)
  · have htargets : command.targets = [] := by simp [← command.map_snd_redirections, hredirections]
    simp [Command.isEmpty, hassignments, harguments, htargets] at hne

/-- The arguments and the redirections of a command are read back, each kind in one go. -/
theorem loops_of_stands {levels : Nat}
    (hlevels : (Node.command command).substitutionDepth ≤ levels) (hrest : Heads kind rest)
    (hkind : kind ∈ commandFollows)
    (h : c.Stands (spaced (command.arguments.map Word.print) ++
      (spaced (command.redirections.map printRedirection) ++ rest))) (start : Command) :
    ∃ arguments redirections c', Loops (commandRound (levelContext limit false levels)) start c
        ({ start with arguments := start.arguments ++ arguments }.redirectAll redirections) c' ∧
      c'.Stands rest ∧
      arguments.map (Word.mapSpans eraseSpan) = command.arguments.map (Word.mapSpans eraseSpan) ∧
      redirections.map (Prod.map id (Word.mapSpans eraseSpan)) =
        command.redirections.map (Prod.map id (Word.mapSpans eraseSpan)) := by
  have hdepth : ∀ child ∈ (Node.command command).children, child.substitutionDepth ≤ levels :=
    fun _ hchild => Nat.le_trans (Node.substitutionDepth_le_of_mem_children hchild) hlevels
  obtain ⟨-, second, third, -, hsecond, hthird, -, hheads₂, hheads₃⟩ :=
    heads_pieces hread hrest hkind
  have hthirdKind : third ≠ .whitespace ∧ inWord false third = false := by
    rcases hthird with hthird | ⟨-, rfl⟩
    · simp only [redirectionStarts, List.mem_cons, List.not_mem_nil, or_false] at hthird
      rcases hthird with rfl | rfl | rfl <;> simp [inWord, startsPart, isText]
    · have hends := ends_of_mem_commandFollows hkind
      exact ⟨(ne_of_ends hends).1, inWord_of_ends hends⟩
  have hredirections : ∀ redirection ∈ command.redirections,
      (Node.word redirection.2).ReadsBack limit :=
    fun _ hmem => hread _ (command.mem_children_of_mem_redirections hmem)
  have hredirectionsDepth : ∀ redirection ∈ command.redirections,
      (Node.word redirection.2).substitutionDepth ≤ levels :=
    fun _ hmem => hdepth _ (command.mem_children_of_mem_redirections hmem)
  -- without arguments there is no round for them, as a run of words is never empty
  by_cases harguments : command.arguments = []
  · rw [harguments, List.map_nil, spaced_nil, List.nil_append] at h
    obtain ⟨redirections, c', hloops, h', hlikes⟩ := loops_redirections hredirections
      hredirectionsDepth hrest hkind h.placed (h.skips hheads₃ hthirdKind.1) h start
    have hstart : { start with arguments := start.arguments ++ [] } = start := by
      cases start
      simp
    exact ⟨[], redirections, c', hstart.symm ▸ hloops, h', by simp [harguments], hlikes⟩
  · have hsecond : second ∈ partStarts := hsecond.resolve_right fun hnone => harguments hnone.1
    have hsecondKind : second ≠ .whitespace ∧ Redirection.ofKind? second = none := by
      simp only [partStarts, List.mem_cons, List.not_mem_nil, or_false] at hsecond
      rcases hsecond with rfl | rfl | rfl | rfl | rfl | rfl <;> simp [Redirection.ofKind?]
    obtain ⟨arguments, c₁, hgathers, h₁, hwords⟩ := gathers_words
      (fun _ hmem => hread _ (command.mem_children_of_mem_arguments hmem))
      (fun _ hmem => hdepth _ (command.mem_children_of_mem_arguments hmem)) hheads₃ hthirdKind h
    have hrun : words (levelContext limit false levels) c = .ok arguments c₁ :=
      (words_eq_ok_iff (levelContext_orderly _ _ _) h.placed).2 hgathers
    have hne : arguments ≠ [] := by
      rintro rfl
      exact harguments (List.map_eq_nil_iff.1 hwords.symm)
    obtain ⟨redirections, c', hloops, h', hlikes⟩ := loops_redirections hredirections
      hredirectionsDepth hrest hkind h₁.placed (h₁.skips hheads₃ hthirdKind.1) h₁
      { start with arguments := start.arguments ++ arguments }
    have hitem : CommandItem (levelContext limit false levels) c start
        { start with arguments := start.arguments ++ arguments } c₁ :=
      .words (h.kind_eq hheads₂ ▸ hsecondKind.2) hne hrun
    exact ⟨arguments, redirections, c', .yield ((commandRound_eq_yield_iff h.placed).2
      ⟨c, h.skips hheads₂ hsecondKind.1, hitem⟩) hloops, h', hwords, hlikes⟩

theorem readsBack_command (hne : command.isEmpty = false) :
    (Node.command command).ReadsBack limit := by
  refine ⟨heads_command hread hne, fun {levels rest kind c} hlevels hrest hkind h => ?_⟩
  obtain ⟨first, hfirst, hheads⟩ := heads_command hread hne hrest hkind
  obtain ⟨-, second, third, -, hsecond, hthird, -, hheads₂, -⟩ := heads_pieces hread hrest hkind
  have hskip : c.Skips c :=
    h.skips hheads (ne_of_mem_of_not_mem hfirst (by simp [commandStarts, partStarts]))
  -- the assignments end at whatever comes next
  have hsecondMem : second ∈ partStarts ++ redirectionStarts ++ commandFollows := by
    rcases hsecond with hsecond | ⟨-, rfl⟩
    · simp [hsecond]
    rcases hthird with hthird | ⟨-, rfl⟩
    · simp [hthird]
    · simp [hkind]
  have hsecondKind : second ≠ .whitespace ∧ second ≠ .assignmentLhs :=
    ⟨ne_of_mem_of_not_mem hsecondMem (by simp [partStarts, redirectionStarts, commandFollows]),
      ne_of_mem_of_not_mem hsecondMem (by simp [partStarts, redirectionStarts, commandFollows])⟩
  have hdepth : ∀ target ∈ command.assignments,
      (Node.assignment target).substitutionDepth ≤ levels := fun _ hmem =>
    Nat.le_trans (Node.substitutionDepth_le_of_mem_children
      (command.mem_children_of_mem_assignments hmem)) hlevels
  rw [command.print_eq, List.append_assoc, List.append_assoc] at h
  obtain ⟨assignments, c₁, hgathers, h₁, hassignments⟩ := gathers_assignments
    (fun _ hmem => hread _ (command.mem_children_of_mem_assignments hmem)) hdepth hheads₂
    hsecondKind hskip h
  obtain ⟨arguments, redirections, c', hloops, h', harguments, hredirections⟩ :=
    loops_of_stands hread hlevels hrest hkind h₁
      { Command.empty (Span.empty c.current.start) with assignments := assignments }
  have hlike := mapSpans_content (Span.empty c.current.start) hassignments harguments hredirections
  generalize hcontent : (Command.mk assignments arguments none none none
    (Span.empty c.current.start)).redirectAll redirections = content at hlike
  have hcontentAssignments : content.assignments = assignments := by simp [← hcontent]
  have hcontentEmpty : content.isEmpty = false := by
    rw [← Command.isEmpty_mapSpans eraseSpan, hlike, Command.isEmpty_mapSpans, hne]
  have hcontentLoops : CommandContent (levelContext limit false levels) c content c' :=
    ⟨c₁, hcontentAssignments ▸ hgathers, by rw [hcontentAssignments, ← hcontent]; exact hloops⟩
  refine ⟨_, c', (command?_eq_ok_iff (levelContext_orderly _ _ _) h.placed).2
    ⟨c, content, hskip, hcontentLoops, rfl⟩, h', ?_⟩
  rw [if_neg (by simp [hcontentEmpty]), Option.map_some, Command.mapSpans_eraseSpan_span, hlike]

end Pieces

end CommandSyntax
