import CommandSyntax.Proofs.Grammar.StatementSuccess
import CommandSyntax.Proofs.Script.Nodes

/-!
# CommandSyntax.Proofs.Grammar.Origin

**Where the nodes of a parsed tree come from.** A node is given by the production of
its type, run between two cursors (`Node.GivenBy`). The children of a node are given
in turn, between cursors that lie between those of the node (`Node.GivenBy.child`).
So everything that holds of what a production gives holds of all nodes of its type in
a parsed tree (`given_of_mem_nodes`).
-/

namespace CommandSyntax

open Cursor Production

/-- The production of its type gives a node, in some context and between two cursors. -/
def Node.GivenBy (context : Context) (c c' : Cursor) : Node → Prop
  | .script s => scriptIn context c = .ok s c'
  | .statement s => statement? context c = .ok (some s) c'
  | .pipeline p => pipeline? context c = .ok (some p) c'
  | .command stage => command? context c = .ok (some stage) c'
  | .assignment a => Production.assignment context c = .ok a c'
  | .word w => word? context c = .ok (some w) c'
  | .part p => ∃ quoted, part? context quoted c = .ok (some p) c'
  | .glob g => ∃ quoted, part? context quoted c = .ok (some (.glob g)) c'
  | .substitution body => ∃ quoted, part? context quoted c = .ok (some (.substitution body)) c'

/-- A node is given at some level of nesting between two cursors that lie between two others. -/
def Node.Given (limit : Nat) (c c' : Cursor) (node : Node) : Prop :=
  ∃ levels inBackticks d d', c.Reaches d ∧ d'.Reaches c' ∧
    node.GivenBy (levelContext limit inBackticks levels) d d'

namespace Production

variable {α : Type} {c c' : Cursor} {context : Context}

/-- What is gathered is added by one of the rounds. -/
theorem GathersBy.mem {round : List α → Production (ForInStep (List α))}
    {more last : Cursor → List α → Cursor → Prop} (h : GathersBy round more last)
    (hc : c.Placed) {items : List α} (hgathers : Gathers more last c items c') :
    ∀ item ∈ items, ∃ d xs d', c.Reaches d ∧ d'.Reaches c' ∧ item ∈ xs ∧
      (more d xs d' ∨ last d xs d') := by
  induction hgathers with
  | done hlast => exact fun item hmem => ⟨_, _, _, .refl _, .refl _, hmem, .inr hlast⟩
  | yield hmore hrest ih =>
    have hstep : Reaches _ _ := (h.orderly [] hc).passes ((h.yield_iff hc).2 ⟨_, hmore, rfl⟩)
    intro item hmem
    rcases List.mem_append.1 hmem with hmem | hmem
    · exact ⟨_, _, _, .refl _, h.passes (hstep.placed hc) hrest, hmem, .inl hmore⟩
    · obtain ⟨d, xs, d', hd, hd', hround⟩ := ih (hstep.placed hc) item hmem
      exact ⟨d, xs, d', hstep.trans hd, hd', hround⟩

/-! ### Words -/

theorem PartsFrom.mem (hcontext : ContextOrderly context) (hc : c.Placed) {quoted : Bool}
    {parts : List Part} (h : PartsFrom context quoted c parts c') :
    ∀ part ∈ parts, ∃ quoted d d', c.Reaches d ∧ d'.Reaches c' ∧
      part? context quoted d = .ok (some part) d' := by
  induction h with
  | done => simp
  | part htoggle hpart hrest ih =>
    obtain ⟨quotes, hquotes, -⟩ := (toggleQuotes_eq_ok_iff hc).1 htoggle
    have hc₁ := hquotes.placed hc
    have hreaches : Reaches _ _ := (orderly_part? hcontext _ hc₁).passes hpart
    have hc₂ := hreaches.placed hc₁
    obtain ⟨lexemes, hlexemes, -⟩ := hrest.passes hcontext hc₂
    rw [List.forall_mem_cons]
    refine ⟨⟨_, _, _, hquotes.reaches, hlexemes.reaches, hpart⟩, fun part hmem => ?_⟩
    obtain ⟨quoted, d, d', hd, hd', hpart⟩ := ih hc₂ part hmem
    exact ⟨quoted, d, d', hquotes.reaches.trans (hreaches.trans hd), hd', hpart⟩

/-- The script of a substitution is read one level deeper. -/
theorem script_of_part?_eq_some (hc : c.Placed) {quoted : Bool} {body : Script}
    (h : part? context quoted c = .ok (some (.substitution body)) c') :
    ∃ script inBackticks d d', context.script? = some script ∧ c.Passes [c.current] d ∧
      script inBackticks d = .ok body d' ∧ d'.current.kind ≠ .whitespace ∧
      d'.Passes [d'.current] c' := by
  cases (part?_eq_ok_iff hc).1 h with
  | braced _ h =>
    obtain ⟨_, _, _, -, -, -, -, -, hpart⟩ := (bracedParameter_eq_ok_iff hc).1 h
    simp at hpart
  | backticks _ _ h | parentheses _ h =>
    obtain ⟨script, d, body', d', hscript, -, hopener, hbody, hkind, hcloser, hpart⟩ :=
      (substitution_eq_ok_iff (by simp) (by simp)).1 h
    obtain rfl := Part.substitution.inj hpart
    exact ⟨script, _, d, d', hscript, hopener, hbody, by simp [hkind], hcloser⟩
  | text _ h =>
    obtain ⟨_, -, -, -, hpart⟩ := (text?_eq_ok_iff hc).1 h
    simp [Part.literal?] at hpart

theorem word?_of_wordsRound {run : List Word}
    (h : MoreWords context c run c' ∨ LastWords context c run c') :
    ∀ word ∈ run, ∃ d, d.Reaches c' ∧ word? context c = .ok (some word) d := by
  rcases h with ⟨word, d, rfl, hword, -, hskip⟩ | ⟨rfl, -⟩ | ⟨word, rfl, hword, -⟩
  · simpa using ⟨d, hskip.reaches, hword⟩
  · simp
  · simpa using ⟨c', .refl c', hword⟩

theorem words_mem (hcontext : ContextOrderly context) (hc : c.Placed) {run : List Word}
    (h : words context c = .ok run c') :
    ∀ word ∈ run, ∃ d d', c.Reaches d ∧ d'.Reaches c' ∧ word? context d = .ok (some word) d' := by
  intro word hmem
  obtain ⟨d, xs, d', hd, hd', hmem, hround⟩ :=
    (wordsRound_gathers hcontext).mem hc ((words_eq_ok_iff hcontext hc).1 h) word hmem
  obtain ⟨d₁, hd₁, hword⟩ := word?_of_wordsRound hround word hmem
  exact ⟨d, d₁, hd, hd₁.trans hd', hword⟩

/-! ### Commands -/

theorem CommandItem.mem (hcontext : ContextOrderly context) (hc : c.Placed)
    {command command' : Command} (h : CommandItem context c command command' c') :
    ∀ word ∈ command'.arguments ++ command'.targets,
      word ∈ command.arguments ++ command.targets ∨
        ∃ d d', c.Reaches d ∧ d'.Reaches c' ∧ word? context d = .ok (some word) d' := by
  cases h with
  | @redirection redirection target _ hkind h =>
    obtain ⟨c₁, c₂, hoperator, hskip, hword⟩ :=
      (target_eq_ok_iff hc (kind_ne_stop_of_ofKind? hkind)).1 h
    intro word hmem
    by_cases htarget : word = target
    · exact .inr ⟨c₂, c', hoperator.reaches.trans hskip.reaches, .refl c', htarget ▸ hword⟩
    · left
      cases redirection <;>
        simp_all [Command.redirect, Command.targets] <;> grind
  | words _ _ h =>
    intro word hmem
    simp only [List.append_assoc, List.mem_append] at hmem ⊢
    rcases hmem with hmem | hmem | hmem
    · exact .inl (.inl hmem)
    · exact .inr (words_mem hcontext hc h word hmem)
    · exact .inl (.inr hmem)

theorem arguments_of_loops (hcontext : ContextOrderly context) (hc : c.Placed)
    {command command' : Command} (h : Loops (commandRound context) command c command' c') :
    ∀ word ∈ command'.arguments ++ command'.targets,
      word ∈ command.arguments ++ command.targets ∨
        ∃ d d', c.Reaches d ∧ d'.Reaches c' ∧ word? context d = .ok (some word) d' := by
  induction h with
  | done hround =>
    obtain ⟨rfl, -⟩ := (commandRound_eq_done_iff hcontext hc).1 hround
    exact fun word hmem => .inl hmem
  | yield hround hrest ih =>
    obtain ⟨c₁, hskip, hitem⟩ := (commandRound_eq_yield_iff hc).1 hround
    have hc₁ := hskip.placed hc
    have hadvances := commandRound_advances hcontext
    have hc₂ := (hadvances.left_lt hc hround).1
    have hitemReaches : Reaches _ _ := (hitem.passes hcontext hc₁).imp fun _ h => h.1
    have hrestReaches : Reaches _ _ := (orderly_loop hadvances.orderly _ hc₂).passes
      ((loop_eq_ok_iff hadvances hc₂).2 hrest)
    intro word hmem
    rcases ih hc₂ word hmem with hmem | ⟨d, d', hd, hd', hword⟩
    · rcases hitem.mem hcontext hc₁ word hmem with hmem | ⟨d, d', hd, hd', hword⟩
      · exact .inl hmem
      · exact .inr ⟨d, d', hskip.reaches.trans hd, hd'.trans hrestReaches, hword⟩
    · exact .inr ⟨d, d', hskip.reaches.trans (hitemReaches.trans hd), hd', hword⟩

/-! ### A node hands on where it comes from -/

theorem word_of_assignment (hc : c.Placed) {result : Assignment}
    (h : assignment context c = .ok result c') :
    ∀ word, result.value = some word → ∃ d, c.Reaches d ∧
      word? context d = .ok (some word) c' := by
  obtain ⟨c₁, value, -, hname, hvalue, rfl⟩ := (assignment_eq_ok_iff hc).1 h
  rintro word rfl
  exact ⟨c₁, hname.reaches, hvalue⟩

section Child

variable (hcontext : ContextOrderly context) (hc : c.Placed)
include hcontext hc

theorem statement_of_scriptIn {body : Script} (h : scriptIn context c = .ok body c') :
    ∀ statement ∈ body.statements, ∃ d d', c.Reaches d ∧ d'.Reaches c' ∧
      statement? context d = .ok (some statement) d' := by
  obtain ⟨statements, hgathers, rfl⟩ := (scriptIn_eq_ok_iff hcontext hc).1 h
  rw [Script.statements_ofStatements]
  intro statement hmem
  obtain ⟨d, xs, d', hd, hd', hmem, hround⟩ :=
    (scriptRound_gathers hcontext).mem hc hgathers statement hmem
  obtain ⟨found, c₁, c₂, c₃, rfl, hskip, -, hfound, hskip', -, hend⟩ | ⟨rfl, -⟩ |
    ⟨found, c₁, c₂, rfl, hskip, -, hfound, hskip', -⟩ := hround
  · obtain rfl : found = some statement := by simpa using hmem
    exact ⟨c₁, c₂, hd.trans hskip.reaches,
      hskip'.reaches.trans (hend.reaches.trans hd'), hfound⟩
  · simp at hmem
  · obtain rfl : found = some statement := by simpa using hmem
    exact ⟨c₁, c₂, hd.trans hskip.reaches, hskip'.reaches.trans hd', hfound⟩

theorem pipeline_of_statement? {statement : Statement}
    (h : statement? context c = .ok (some statement) c') :
    ∃ d', d'.Reaches c' ∧ pipeline? context c = .ok (some statement.pipeline) d' := by
  obtain ⟨pipeline, background, c₁, c₂, c₃, hpipeline, hskip, haccept, hskip', rfl⟩ :=
    (statement?_eq_some_iff hcontext hc).1 h
  have hc₁ := (orderly_pipeline? hcontext hc).placed hc hpipeline
  have hreaches : Reaches _ _ := (orderly_accept (by simp) (hskip.placed hc₁)).passes haccept
  exact ⟨c₁, hskip.reaches.trans (hreaches.trans hskip'.reaches), hpipeline⟩

theorem command_of_stage? {command : Command} (h : stage? context c = .ok (some command) c') :
    ∃ d d', c.Reaches d ∧ d'.Reaches c' ∧ command? context d = .ok (some command) d' := by
  obtain ⟨c₁, c₂, hskip, -, -, hcommand, hskip'⟩ := (stage?_eq_ok_iff hcontext hc).1 h
  exact ⟨c₁, c₂, hskip.reaches, hskip'.reaches, hcommand⟩

theorem command_of_pipeline? {pipeline : Pipeline}
    (h : pipeline? context c = .ok (some pipeline) c') :
    ∀ command ∈ pipeline.commands, ∃ d d', c.Reaches d ∧ d'.Reaches c' ∧
      command? context d = .ok (some command) d' := by
  obtain ⟨first, commands, c₁, hfirst, hgathers, rfl⟩ := (pipeline?_eq_some_iff hcontext hc).1 h
  have hstages := pipelineRound_gathers hcontext
  have hreaches : Reaches _ _ := (orderly_stage? hcontext hc).passes hfirst
  have hc₁ := hreaches.placed hc
  rw [List.forall_mem_cons]
  constructor
  · obtain ⟨d, d', hd, hd', hcommand⟩ := command_of_stage? hcontext hc hfirst
    exact ⟨d, d', hd, hd'.trans (hstages.passes hc₁ hgathers), hcommand⟩
  · intro command hmem
    obtain ⟨d, xs, d', hd, hd', hmem, hround⟩ := hstages.mem hc₁ hgathers command hmem
    rcases hround with ⟨found, c₂, rfl, -, hbar, hfound⟩ | ⟨rfl, -⟩
    · obtain rfl := List.mem_singleton.1 hmem
      have hfront := hd.trans hbar.reaches
      obtain ⟨e, e', he, he', hcommand⟩ :=
        command_of_stage? hcontext (hfront.placed hc₁) hfound
      exact ⟨e, e', hreaches.trans (hfront.trans he), he'.trans hd', hcommand⟩
    · simp at hmem

theorem assignment_of_command? {command : Command}
    (h : command? context c = .ok (some command) c') :
    ∀ result ∈ command.assignments, ∃ d d', c.Reaches d ∧ d'.Reaches c' ∧
      assignment context d = .ok result d' := by
  obtain ⟨c₁, content, hskip, ⟨c₂, hgathers, hloops⟩, hresult⟩ :=
    (command?_eq_ok_iff hcontext hc).1 h
  have hassignments : command.assignments = content.assignments := by
    split at hresult
    · simp at hresult
    · rw [Option.some.inj hresult]
  have hc₁ := hskip.placed hc
  have hadvances := commandRound_advances hcontext
  obtain ⟨lexemes, hlexemes⟩ := (assignmentsRound_gathers hcontext).passes hc₁ hgathers
  have hc₂ := hlexemes.placed hc₁
  have hrest : Reaches _ _ := (orderly_loop hadvances.orderly _ hc₂).passes
    ((loop_eq_ok_iff hadvances hc₂).2 hloops)
  intro result hmem
  obtain ⟨d, xs, d', hd, hd', hmem, hround⟩ :=
    (assignmentsRound_gathers hcontext).mem hc₁ hgathers result (hassignments ▸ hmem)
  rcases hround with ⟨found, c₃, rfl, hskip', hfound⟩ | ⟨rfl, -⟩
  · obtain rfl := List.mem_singleton.1 hmem
    exact ⟨c₃, d', hskip.reaches.trans (hd.trans hskip'.reaches), hd'.trans hrest, hfound⟩
  · simp at hmem

theorem word_of_command? {command : Command}
    (h : command? context c = .ok (some command) c') :
    ∀ word ∈ command.arguments ++ command.targets, ∃ d d', c.Reaches d ∧ d'.Reaches c' ∧
      word? context d = .ok (some word) d' := by
  obtain ⟨c₁, content, hskip, ⟨c₂, hgathers, hloops⟩, hresult⟩ :=
    (command?_eq_ok_iff hcontext hc).1 h
  have hwords : command.arguments ++ command.targets = content.arguments ++ content.targets := by
    split at hresult
    · simp at hresult
    · rw [Option.some.inj hresult]
      rfl
  have hc₁ := hskip.placed hc
  have hassigned : Reaches _ _ := (assignmentsRound_gathers hcontext).passes hc₁ hgathers
  rw [hwords]
  intro word hmem
  obtain hmem | ⟨d, d', hd, hd', hword⟩ :=
    arguments_of_loops hcontext (hassigned.placed hc₁) hloops word hmem
  · simp [Command.empty, Command.targets] at hmem
  · exact ⟨d, d', hskip.reaches.trans (hassigned.trans hd), hd', hword⟩

theorem part_of_word? {word : Word} (h : word? context c = .ok (some word) c') :
    ∀ part ∈ word.parts, ∃ quoted d d', c.Reaches d ∧ d'.Reaches c' ∧
      part? context quoted d = .ok (some part) d' :=
  ((word?_eq_some_iff hcontext hc).1 h).1.mem hcontext hc

end Child

/-- The script of a substitution is read between its brackets, with one more level used up. -/
theorem scriptIn_of_part?_eq_some {limit levels : Nat} {inBackticks quoted : Bool}
    (hc : c.Placed) {body : Script}
    (h : part? (levelContext limit inBackticks levels) quoted c =
      .ok (some (.substitution body)) c') :
    ∃ levels' inBackticks d d', 1 + levels' = levels ∧ c.Passes [c.current] d ∧
      scriptIn (levelContext limit inBackticks levels') d = .ok body d' ∧
      d'.current.kind ≠ .whitespace ∧ d'.Passes [d'.current] c' := by
  obtain ⟨script, inBackticks', d, d', hscript, hopener, hbody, hkind, hcloser⟩ :=
    script_of_part?_eq_some hc h
  cases levels with
  | zero => simp [levelContext] at hscript
  | succ levels =>
    obtain rfl := Option.some.inj hscript
    rw [script_eq_scriptIn] at hbody
    exact ⟨levels, inBackticks', d, d', Nat.add_comm 1 levels, hopener, hbody, hkind, hcloser⟩

end Production

/-- The children of a given node are given, between cursors that lie between its own. A level
is used up below a substitution, and there only. -/
theorem Node.GivenBy.child {limit levels : Nat} {inBackticks : Bool} {c c' : Cursor}
    (hc : c.Placed) {node : Node}
    (h : node.GivenBy (levelContext limit inBackticks levels) c c') :
    ∀ child ∈ node.children, ∃ levels' inBackticks' d d',
      (if node.kind = .substitution then 1 else 0) + levels' = levels ∧
        c.Reaches d ∧ d'.Reaches c' ∧
        child.GivenBy (levelContext limit inBackticks' levels') d d' := by
  have hcontext := levelContext_orderly limit levels inBackticks
  intro child hmem
  -- a child of the same script is given in the same context
  have hsame {child : Node} (hkind : node.kind ≠ .substitution)
      (h : ∃ d d', c.Reaches d ∧ d'.Reaches c' ∧
        child.GivenBy (levelContext limit inBackticks levels) d d') :
      ∃ levels' inBackticks' d d',
        (if node.kind = .substitution then 1 else 0) + levels' = levels ∧
          c.Reaches d ∧ d'.Reaches c' ∧
          child.GivenBy (levelContext limit inBackticks' levels') d d' := by
    obtain ⟨d, d', hd, hd', hgiven⟩ := h
    exact ⟨levels, inBackticks, d, d', by rw [if_neg hkind, Nat.zero_add], hd, hd', hgiven⟩
  cases node with
  | script body =>
    obtain ⟨statement, hbelow, rfl⟩ := List.mem_map.1 hmem
    exact hsame (by simp [kind]) (statement_of_scriptIn hcontext hc h statement hbelow)
  | statement statement =>
    obtain rfl := List.mem_singleton.1 hmem
    obtain ⟨d', hd', hpipeline⟩ := pipeline_of_statement? hcontext hc h
    exact hsame (by simp [kind]) ⟨c, d', .refl c, hd', hpipeline⟩
  | pipeline pipeline =>
    obtain ⟨command, hbelow, rfl⟩ := List.mem_map.1 hmem
    exact hsame (by simp [kind]) (command_of_pipeline? hcontext hc h command hbelow)
  | command command =>
    rcases List.mem_append.1 hmem with hmem | hmem
    · obtain ⟨assignment, hbelow, rfl⟩ := List.mem_map.1 hmem
      exact hsame (by simp [kind]) (assignment_of_command? hcontext hc h assignment hbelow)
    · obtain ⟨word, hbelow, rfl⟩ := List.mem_map.1 hmem
      exact hsame (by simp [kind]) (word_of_command? hcontext hc h word hbelow)
  | assignment assignment =>
    obtain ⟨word, hbelow, rfl⟩ := List.mem_map.1 hmem
    obtain ⟨d, hd, hword⟩ := word_of_assignment hc h word (by simpa using hbelow)
    exact hsame (by simp [kind]) ⟨d, c', hd, .refl c', hword⟩
  | word word =>
    obtain ⟨part, hbelow, rfl⟩ := List.mem_map.1 hmem
    obtain ⟨quoted, d, d', hd, hd', hpart⟩ := part_of_word? hcontext hc h part hbelow
    exact hsame (by simp [kind]) ⟨d, d', hd, hd', quoted, hpart⟩
  | part part =>
    cases part with
    | literal | parameter => simp [children] at hmem
    | glob | substitution =>
      obtain rfl := List.mem_singleton.1 hmem
      exact hsame (by simp [kind]) ⟨c, c', .refl c, .refl c', h⟩
  | glob => simp [children] at hmem
  | substitution body =>
    obtain rfl := List.mem_singleton.1 hmem
    obtain ⟨quoted, hpart⟩ := h
    obtain ⟨levels', inBackticks', d, d', hlevels, hopener, hbody, -, hcloser⟩ :=
      scriptIn_of_part?_eq_some hc hpart
    exact ⟨levels', inBackticks', d, d', hlevels, hopener.reaches, hcloser.reaches, hbody⟩

/-- The children of a node that is given between two cursors are given there too. -/
theorem Node.Given.child {limit : Nat} {c c' : Cursor} (hc : c.Placed) {node : Node}
    (h : node.Given limit c c') : ∀ child ∈ node.children, child.Given limit c c' := by
  obtain ⟨levels, inBackticks, d, d', hd, hd', hgiven⟩ := h
  intro child hmem
  obtain ⟨levels', inBackticks', e, e', -, he, he', hgiven⟩ :=
    hgiven.child (hd.placed hc) child hmem
  exact ⟨levels', inBackticks', e, e', hd.trans he, he'.trans hd', hgiven⟩

/-- Every node of a script is given by its production. -/
theorem given_of_mem_nodes {limit levels : Nat} {inBackticks : Bool} {c c' : Cursor}
    {body : Script} (hc : c.Placed) (h : script limit levels inBackticks c = .ok body c') :
    ∀ node ∈ body.nodes, node.Given limit c c' := by
  rw [script_eq_scriptIn] at h
  exact Node.forall_mem_all (fun _ hnode => hnode.child hc) (.script body)
    ⟨levels, inBackticks, c, c', .refl c, .refl c', h⟩

end CommandSyntax
