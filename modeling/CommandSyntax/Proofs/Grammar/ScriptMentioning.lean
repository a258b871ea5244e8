import CommandSyntax.Proofs.Grammar.WordMentioning

/-!
# CommandSyntax.Proofs.Grammar.ScriptMentioning

**Scripts are told by what they pass** (`tells_of_script`), whatever order words and redirections
of a command come in.

A command is read in rounds, and what they pass are its words in the order of the source, with
operators between them (`Cursor.Comprises`). The command that the rounds lead to has all of these
words as long as none of the operators redirects in a way for which there is a file already
(`Command.Gains`). So a command that redirects at most once in each way is told by what it passes
(`tells_of_command?`), and with it everything above.
-/

namespace CommandSyntax

open Production Cursor

/-! ### Words that a command gains -/

/-- A command goes on from another by some words and redirections. All of its words are among
these, and it has all of them when no file is replaced. -/
structure Command.Gains (command command' : Command) (words : List Word)
    (ways : List Redirection) : Prop where
  /-- There are no other words. -/
  mem : ∀ word ∈ command'.words, word ∈ command.words ++ words
  /-- The other files stay. -/
  file? : ∀ way, way ∉ ways → command'.file? way = command.file? way
  /-- Where no file is replaced, no word is lost. -/
  perm : ways.Nodup → (∀ way ∈ ways, command.file? way = none) →
    command'.words.Perm (command.words ++ words)

namespace Command.Gains

variable {command command₁ command' : Command} {words words' : List Word}
  {ways ways' : List Redirection}

theorem nil (command : Command) : command.Gains command [] [] where
  mem := by simp
  file? _ _ := rfl
  perm _ _ := by simp

theorem trans (h : command.Gains command₁ words ways)
    (h' : command₁.Gains command' words' ways') :
    command.Gains command' (words ++ words') (ways ++ ways') where
  mem word hmem := by
    have hback := h'.mem word hmem
    have hfront := h.mem word
    simp only [List.mem_append] at hback hfront ⊢
    tauto
  file? way hway := by
    obtain ⟨hfront, hback⟩ := not_or.1 (mt List.mem_append.2 hway)
    rw [h'.file? way hback, h.file? way hfront]
  perm hnodup hnone := by
    obtain ⟨hfront, hback, hne⟩ := List.nodup_append.1 hnodup
    obtain ⟨hnone, hnone'⟩ := List.forall_mem_append.1 hnone
    have hrest : ∀ way ∈ ways', command₁.file? way = none := fun way hway => by
      rw [h.file? way fun hmem => hne way hmem way hway rfl, hnone' way hway]
    rw [← List.append_assoc]
    exact (h'.perm hback hrest).trans ((h.perm hfront hnone).append_right _)

theorem redirect (command : Command) (target : Word) (way : Redirection) :
    command.Gains (command.redirect target way) [target] [way] where
  mem word hmem := by
    obtain ⟨rest, hrest, hperm⟩ := targets_redirect_perm command target way
    rw [Command.words, arguments_redirect, List.mem_append, hperm.mem_iff] at hmem
    have hsubset := fun h => hrest.subset (a := word) h
    simp only [Command.words, List.mem_append] at hmem ⊢
    tauto
  file? other hother := by
    cases way <;> cases other <;> simp_all [Command.file?, Command.redirect]
  perm _ hnone := by
    have hnone : command.file? way = none := hnone way List.mem_cons_self
    rw [Command.words, Command.words, arguments_redirect, List.append_assoc]
    refine List.Perm.append_left _ ?_
    cases way with
    | input =>
      have htargets : (command.redirect target .input).targets = [target] ++ command.targets := by
        simp_all [Command.file?, Command.redirect, Command.targets]
      rw [htargets]
      exact List.perm_append_comm
    | output =>
      have htargets : (command.redirect target .output).targets =
          command.input.toList ++ ([target] ++ command.append.toList) := by
        simp [Command.redirect, Command.targets]
      have hbefore : command.targets = command.input.toList ++ command.append.toList := by
        simp_all [Command.file?, Command.targets]
      rw [htargets, hbefore, List.append_assoc]
      exact List.perm_append_comm.append_left _
    | append => simp_all [Command.file?, Command.redirect, Command.targets]

theorem addWords (command : Command) (run : List Word) :
    command.Gains { command with arguments := command.arguments ++ run } run [] where
  mem word hmem := by
    simp only [Command.words, List.mem_append] at hmem ⊢
    tauto
  file? way _ := by cases way <;> rfl
  perm _ _ := by
    simp only [Command.words, List.append_assoc]
    exact List.perm_append_comm.append_left _

end Command.Gains

/-! ### Words between two cursors -/

namespace Cursor

variable {c c' d : Cursor} {all : List Lexeme} {words words' : List Word}
  {operators operators' : List Lexeme}

/-- Words that are framed in order start in order. -/
theorem FramesInOrder.pairwise_start (h : c.FramesInOrder c' (words.map Word.span)) :
    words.Pairwise fun left right => left.span.start < right.span.start := by
  refine (List.pairwise_map.1 h.pairwise).imp_of_mem fun hmem _ hbefore => ?_
  exact Nat.lt_of_lt_of_le (h.frames _ (List.mem_map_of_mem hmem)).start_lt hbefore

/-- Between two cursors there are some words, told by what is passed, and some operators outside
of them. -/
structure Comprises (c : Cursor) (all : List Lexeme) (words : List Word)
    (operators : List Lexeme) (c' : Cursor) : Prop where
  /-- What is passed. -/
  passes : ∃ lexemes, c.Passes lexemes c' ∧ operators.Sublist lexemes ∧
    Mentions all lexemes (words.map .word)
  /-- The words are in order. -/
  framesInOrder : c.FramesInOrder c' (words.map Word.span)
  /-- The operators are between the cursors. -/
  frames : ∀ operator ∈ operators, c.Frames c' operator.span
  /-- No operator belongs to a word. -/
  disjoint : ∀ operator ∈ operators, ∀ word ∈ words, operator.span.Disjoint word.span

namespace Comprises

theorem reaches (h : c.Comprises all words operators c') : c.Reaches c' := by
  obtain ⟨lexemes, hpasses, -⟩ := h.passes
  exact hpasses.reaches

theorem of_tells (h : c.Tells all (words.map .word) c')
    (hwords : c.FramesInOrder c' (words.map Word.span)) : c.Comprises all words [] c' where
  passes := by
    obtain ⟨lexemes, hpasses, hmentions⟩ := h
    exact ⟨lexemes, hpasses, List.nil_sublist _, hmentions⟩
  framesInOrder := hwords
  frames := by simp
  disjoint := by simp

theorem of_nothing (h : c.Tells all [] c') : c.Comprises all [] [] c' :=
  of_tells h (FramesInOrder.nil c c')

theorem trans (hc : c.Marked) (h : c.Comprises all words operators d)
    (h' : d.Comprises all words' operators' c') :
    c.Comprises all (words ++ words') (operators ++ operators') c' where
  passes := by
    obtain ⟨lexemes, hpasses, hsub, hmentions⟩ := h.passes
    obtain ⟨lexemes', hpasses', hsub', hmentions'⟩ := h'.passes
    refine ⟨lexemes ++ lexemes', hpasses.trans hpasses', hsub.append hsub', ?_⟩
    rw [List.map_append]
    exact hmentions.append hmentions'
  framesInOrder := by
    rw [List.map_append]
    exact h.framesInOrder.append h'.framesInOrder hc h.reaches h'.reaches
  frames := List.forall_mem_append.2
    ⟨fun operator hmem => (h.frames operator hmem).reaches (.refl c) h'.reaches,
      fun operator hmem => (h'.frames operator hmem).reaches h.reaches (.refl c')⟩
  disjoint := by
    have hwords (word) (hmem : word ∈ words) :=
      h.framesInOrder.frames _ (List.mem_map_of_mem hmem)
    have hwords' (word) (hmem : word ∈ words') :=
      h'.framesInOrder.frames _ (List.mem_map_of_mem hmem)
    refine List.forall_mem_append.2 ⟨fun operator hmem => ?_, fun operator hmem => ?_⟩
    · have hframes := h.frames operator hmem
      exact List.forall_mem_append.2 ⟨h.disjoint operator hmem,
        fun word hword => .inl (hframes.before (hwords' word hword) hc h.reaches)⟩
    · have hframes := h'.frames operator hmem
      exact List.forall_mem_append.2
        ⟨fun word hword => .inr ((hwords word hword).before hframes hc h.reaches),
          h'.disjoint operator hmem⟩

/-- An operator alone. -/
theorem operator (hc : c.Placed) (hkind : c.current.kind ≠ .whitespace)
    (hmute : Lexeme.IsMute c.current.kind) (hpasses : c.Passes [c.current] c') :
    c.Comprises all [] [c.current] c' where
  passes := ⟨_, hpasses, .refl _, .of_isMute (by simpa using hmute)⟩
  framesInOrder := .nil ..
  frames := by
    have hlt := Lexeme.lt_stop_of_text_ne_nil
      (hpasses.scanned hc _ List.mem_cons_self).text_ne_nil
    refine List.forall_mem_singleton.2 ⟨⟨_, hpasses, ?_, ?_⟩, hlt⟩ <;>
      exact ⟨_, List.mem_cons_self, hkind, rfl⟩
  disjoint := by simp

end Comprises

end Cursor

namespace Production

variable {c c' : Cursor} {context : Context} {all : List Lexeme}

section

variable (hcontext : ContextOrderly context) (hbodies : TellsBodies context all)
  (hc : c.Among all)
include hcontext hbodies hc

/-! ### Commands -/

theorem comprises_of_word? {word : Word} (h : word? context c = .ok (some word) c') :
    c.Comprises all [word] [] c' :=
  .of_tells (tells_of_word? hbodies hc hcontext h)
    (.single (frames_of_word? hcontext hc.marked h))

theorem comprises_of_commandItem {command command' : Command}
    (h : CommandItem context c command command' c') :
    ∃ words operators, c.Comprises all words operators c' ∧ command.Gains command' words
      (operators.filterMap fun operator => Redirection.ofKind? operator.kind) := by
  cases h with
  | @redirection way target _ hkind h =>
    obtain ⟨c₁, c₂, hoperator, hskip, hword⟩ :=
      (target_eq_ok_iff hc.placed (kind_ne_stop_of_ofKind? hkind)).1 h
    have hmute : c.current.kind ≠ .whitespace ∧ Lexeme.IsMute c.current.kind := by
      cases hcurrent : c.current.kind <;> simp_all [Redirection.ofKind?, Lexeme.IsMute]
    have hfront : c.Comprises all [] [c.current] c₂ :=
      (Comprises.operator hc.placed hmute.1 hmute.2 hoperator).trans hc.marked
        (.of_nothing (.of_skips hskip))
    have hback := comprises_of_word? hcontext hbodies (hc.reaches hfront.reaches) hword
    refine ⟨[target], [c.current], hfront.trans hc.marked hback, ?_⟩
    rw [List.filterMap_cons, hkind]
    exact .redirect command target way
  | @words run _ _ _ h =>
    exact ⟨run, [], .of_tells (tells_of_words hbodies hc hcontext h)
      (framesInOrder_of_words hcontext hc.marked h), .addWords command run⟩

theorem comprises_of_loops {command command' : Command}
    (h : Loops (commandRound context) command c command' c') :
    ∃ words operators, c.Comprises all words operators c' ∧ command.Gains command' words
      (operators.filterMap fun operator => Redirection.ofKind? operator.kind) := by
  induction h with
  | done hround =>
    obtain ⟨rfl, c₁, hskip, -, hends⟩ :=
      (commandRound_eq_done_iff hcontext hc.placed).1 hround
    exact ⟨[], [], .of_nothing ((Tells.of_skips hskip).before (tells_of_endsWord hends)), .nil _⟩
  | yield hround _ ih =>
    obtain ⟨c₁, hskip, hitem⟩ := (commandRound_eq_yield_iff hc.placed).1 hround
    have hc₁ := hc.reaches hskip.reaches
    obtain ⟨words, operators, hfirst, hgains⟩ :=
      comprises_of_commandItem hcontext hbodies hc₁ hitem
    obtain ⟨words', operators', hrest, hgains'⟩ := ih (hc₁.reaches hfirst.reaches)
    have hblank : Comprises _ all [] [] c₁ := .of_nothing (.of_skips hskip)
    refine ⟨words ++ words', operators ++ operators', ?_, ?_⟩
    · have hall := hblank.trans hc.marked (hfirst.trans hc₁.marked hrest)
      exact hall
    · rw [List.filterMap_append]
      exact hgains.trans hgains'

/-- A command has its assignments first, and then words with operators between them. -/
theorem comprises_of_command? {command : Command}
    (h : command? context c = .ok (some command) c') :
    ∃ c₁ c₂ words operators, c.Skips c₁ ∧
      c₁.Tells all (command.assignments.map .assignment) c₂ ∧
      c₁.FramesInOrder c₂ (command.assignments.map Assignment.span) ∧
      c₂.Comprises all words operators c' ∧
      (Command.empty command.span).Gains command words
        (operators.filterMap fun operator => Redirection.ofKind? operator.kind) ∧
      command.span = ⟨c₁.current.start, max c'.lastEnd c₁.current.start⟩ := by
  obtain ⟨c₁, content, hskip, ⟨c₂, hassigned, hloops⟩, hresult⟩ :=
    (command?_eq_ok_iff hcontext hc.placed).1 h
  have hc₁ := hc.reaches hskip.reaches
  have htold := tells_of_assignments hbodies hc₁ hcontext hassigned
  have hframes := framesInOrder_of_assignments hcontext hc₁.marked hassigned
  obtain ⟨words, operators, hwords, hgains⟩ :=
    comprises_of_loops hcontext hbodies (hc₁.reaches htold.reaches) hloops
  cases hempty : content.isEmpty with
  | true => simp [hempty] at hresult
  | false =>
    rw [hempty, if_neg (by simp), Option.some.injEq] at hresult
    subst hresult
    exact ⟨c₁, c₂, words, operators, hskip, htold, hframes, hwords,
      ⟨hgains.mem, hgains.file?, hgains.perm⟩, rfl⟩

/-- A command is told by what it passes. -/
theorem tells_of_command? {command : Command} (h : command? context c = .ok (some command) c') :
    c.Tells all [.command command] c' := by
  obtain ⟨c₁, c₂, words, operators, hskip, ⟨front, hfront, htold⟩, hframes, hwords, hgains,
    hspan⟩ := comprises_of_command? hcontext hbodies hc h
  obtain ⟨back, hback, hoperators, htold'⟩ := hwords.passes
  have hc₁ := hc.reaches hskip.reaches
  have hc₂ := hc₁.reaches hfront.reaches
  have hbetween : ∀ operator ∈ operators, command.IsBetweenWords operator.span := by
    intro operator hmem
    have hframe := hwords.frames operator hmem
    refine ⟨?_, fun result hresult => .inr ?_, fun word hword => ?_⟩
    · rw [hspan]
      exact ⟨Nat.le_trans (hc₁.marked.start_mono hfront.reaches) (hframe.start_le hc₂.marked),
        Nat.le_trans (hframe.stop_le hc₂.marked) (Nat.le_max_left ..)⟩
    · exact (hframes.frames _ (List.mem_map_of_mem hresult)).before hframe hc₁.marked
        hfront.reaches
    · exact hwords.disjoint operator hmem word (hgains.mem word hword)
  have hways := Command.sublist_redirectionsIn (hoperators.trans (hc₂.sublist hback)) hbetween
  -- no file is replaced, so all words of the rounds are left in the command
  have hcommand : Mentions all (front ++ back) [.command command] :=
    (htold.append htold').command hwords.framesInOrder.pairwise_start fun hnodup =>
      hgains.perm (hnodup.sublist hways) fun way _ => by cases way <;> rfl
  exact (Tells.of_skips hskip).before ⟨front ++ back, hfront.trans hback, hcommand⟩

/-! ### Pipelines, statements and scripts -/

theorem tells_of_stage? {command : Option Command} (h : stage? context c = .ok command c') :
    c.Tells all (command.toList.map .command) c' := by
  obtain ⟨c₁, c₂, hskip, -, -, hcommand, hskip'⟩ := (stage?_eq_ok_iff hcontext hc.placed).1 h
  have hc₁ := hc.reaches hskip.reaches
  have htold : c₁.Tells all (command.toList.map .command) c₂ := by
    cases command with
    | some command => exact tells_of_command? hcontext hbodies hc₁ hcommand
    | none =>
      obtain ⟨d, hskip, -, -, hends⟩ := (command?_eq_none_iff hcontext hc₁.placed).1 hcommand
      exact (Tells.of_skips hskip).before (tells_of_endsWord hends)
  exact .between hskip htold hskip'

theorem tells_of_pipeline? {pipeline : Pipeline}
    (h : pipeline? context c = .ok (some pipeline) c') : c.Tells all [.pipeline pipeline] c' := by
  obtain ⟨first, commands, c₁, hfirst, hgathers, rfl⟩ :=
    (pipeline?_eq_some_iff hcontext hc.placed).1 h
  have hstage : c.Tells all [.command first] c₁ := tells_of_stage? hcontext hbodies hc hfirst
  have hstages : c₁.Tells all (commands.map .command) c' := by
    refine Gathers.tells _ (fun hc hmore => ?_) (fun hc hlast => ?_)
      (hc.reaches hstage.reaches) hgathers
    · obtain ⟨command, d, rfl, hkind, hbar, hcommand⟩ := hmore
      have hbarred : Tells _ all [] d := .of_step (by simp [hkind, Lexeme.IsMute]) hbar
      exact hbarred.before (tells_of_stage? hcontext hbodies (hc.reaches hbar.reaches) hcommand)
    · obtain ⟨rfl, rfl, -⟩ := hlast
      exact .nil _
  have hall : c.Tells all ((first :: commands).map .command) c' := hstage.trans hstages
  exact .parent hall rfl

theorem tells_of_statement? {statement : Option Statement}
    (h : statement? context c = .ok statement c') :
    c.Tells all (statement.toList.map .statement) c' := by
  cases statement with
  | none => exact tells_of_stage? hcontext hbodies hc (statement?_eq_none_iff.1 h)
  | some statement =>
    obtain ⟨pipeline, background, c₁, c₂, c₃, hpipeline, hskip, haccept, hskip', rfl⟩ :=
      (statement?_eq_some_iff hcontext hc.placed).1 h
    have hfront := (tells_of_pipeline? hcontext hbodies hc hpipeline).after (.of_skips hskip)
    have hmark : c₂.Tells all [] c₃ := by
      rcases (accept_eq_ok_iff (by simp)).1 haccept with ⟨hkind, -, hpasses⟩ | ⟨-, -, rfl⟩
      · exact .of_step (by simp [hkind, Lexeme.IsMute]) hpasses
      · exact .nil _
    have hall : c.Tells all [.pipeline pipeline] c' :=
      hfront.after (hmark.after (.of_skips hskip'))
    have htold : c.Tells all
        [.statement ⟨pipeline, background, ⟨pipeline.span.start, c₃.lastEnd⟩⟩] c' :=
      .parent hall rfl
    exact htold

theorem tells_of_scriptIn {body : Script} (h : scriptIn context c = .ok body c') :
    c.Tells all [.script body] c' := by
  obtain ⟨statements, hgathers, rfl⟩ := (scriptIn_eq_ok_iff hcontext hc.placed).1 h
  have hline {c c₁ c₂ d : Cursor} {statement : Option Statement} (hc : c.Among all)
      (hskip : c.Skips c₁) (hstatement : statement? context c₁ = .ok statement c₂)
      (hskip' : c₂.Skips d) : c.Tells all (statement.toList.map .statement) d := by
    have htold := tells_of_statement? hcontext hbodies (hc.reaches hskip.reaches) hstatement
    exact .between hskip htold hskip'
  have hall : c.Tells all (statements.map .statement) c' := by
    refine Gathers.tells _ (fun hc hmore => ?_) (fun hc hlast => ?_) hc hgathers
    · obtain ⟨statement, c₁, c₂, c₃, rfl, hskip, -, hstatement, hskip', hkind, hend⟩ := hmore
      exact (hline hc hskip hstatement hskip').after
        (.of_step (by simp [hkind, Lexeme.IsMute]) hend)
    · rcases hlast with ⟨rfl, hskip, -⟩ | ⟨statement, c₁, c₂, rfl, hskip, -, hstatement, hskip', -⟩
      · exact .of_skips hskip
      · exact hline hc hskip hstatement hskip'
  refine .parent ?_ rfl
  rw [Node.childrenInSource, Node.children, Script.statements_ofStatements]
  · exact hall
  · simp

end

/-- A script of some levels is told by what it passes. -/
theorem tells_of_script (limit levels : Nat) (inBackticks : Bool) (hc : c.Among all)
    {body : Script} (h : script limit levels inBackticks c = .ok body c') :
    c.Tells all [.script body] c' := by
  induction levels generalizing inBackticks c c' body with
  | zero =>
    rw [script_eq_scriptIn] at h
    have hbodies : TellsBodies (levelContext limit inBackticks 0) all :=
      fun script hscript => by simp [levelContext] at hscript
    exact tells_of_scriptIn (levelContext_orderly _ _ _) hbodies hc h
  | succ levels ih =>
    rw [script_eq_scriptIn] at h
    have hbodies : TellsBodies (levelContext limit inBackticks (levels + 1)) all := by
      intro script hscript inBackticks c body c' hc hbody
      obtain rfl := Option.some.inj hscript
      exact ih inBackticks hc hbody
    exact tells_of_scriptIn (levelContext_orderly _ _ _) hbodies hc h

end Production

end CommandSyntax
