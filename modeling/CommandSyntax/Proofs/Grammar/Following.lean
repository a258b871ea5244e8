import CommandSyntax.Proofs.Grammar.Simulation
import CommandSyntax.Proofs.Script.Spans

/-!
# CommandSyntax.Proofs.Grammar.Following

**Every production is followed.** Along any simulation, each production of the grammar in one
run is followed by the same production in another: the trees are the same with spans further
on, and so are the errors.

A word is read in a context, and the contexts may differ (`ContextFollows`): the follower may
stand in backticks, where one closes, when there are none among the lexemes, and it may have
more levels of nesting left than it needs. Scripts follow scripts by induction on the levels
(`follows_script`). They are inside of what has to be closed, so the leader must not stand at
its end alone.
-/

namespace CommandSyntax

open Production Cursor

namespace Simulation

variable {sim : Simulation} {context context' : Context} {lexeme lexeme' : Lexeme}

/-- Where the bytes of the leader are for the follower. -/
abbrev move (sim : Simulation) : Span → Span := Span.shift sim.shift

theorem ne_last {kind : TokenKind} (h : stops true kind = false) : kind ≠ sim.last := by
  rintro rfl
  simp [sim.stops_last] at h

theorem isText_of_stops {inBackticks quoted : Bool} {kind : TokenKind}
    (h : stops inBackticks kind = true) : isText quoted kind = false := by
  cases kind <;> simp_all [stops, closes, isText]

/-! ### Whitespace and text -/

theorem follows_skipWhitespace : sim.Follows id skipWhitespace skipWhitespace := by
  refine follows_loop (fun _ => ?_) ()
  refine (follows_accept (by simp) (ne_last rfl)).bind fun accepted => ?_
  cases accepted <;> exact follows_pure rfl

/-- The token on which a leader stands is scanned. When the delimiters of such a token can be
stripped, there is no error about them to be followed. -/
theorem followsAt_tokenText {kind : TokenKind} (hkind : lexeme.kind = kind) (hstop : kind ≠ .stop)
    {left right : Nat}
    (hstrip : lexeme.Scanned → ∃ inner, Text.strip? left right lexeme.text = some inner)
    (escapes : List Quoting.Escape) :
    sim.FollowsAt lexeme id (tokenText kind left right escapes)
      (tokenText kind left right escapes) := by
  intro c follower hcurrent hpair
  subst hcurrent hkind
  obtain ⟨inner, hstrip⟩ := hstrip (hpair.placed.scanned hstop)
  have htake : sim.FollowsAt c.current id (take >>= fun _ => pure (Quoting.unescape escapes inner))
      (take >>= fun _ => pure (Quoting.unescape escapes inner)) :=
    (followsAt_take hstop).bind fun _ => follows_pure rfl
  have hfollows := htake rfl hpair
  rw [← tokenText_of_strip? rfl hstrip escapes] at hfollows
  cases hpair with
  | inStep h =>
    have hcurrent := (h.ahead hstop).1
    have hkind := congrArg Lexeme.kind hcurrent
    rw [← Lexeme.text_shift sim.shift, ← hcurrent] at hstrip
    rwa [runOn, ← tokenText_of_strip? hkind hstrip escapes] at hfollows
  | astray h => exact hfollows

theorem follows_textRound (quoted : Bool) (text : List Char) :
    sim.Follows (mapStep id) (textRound quoted text) (textRound quoted text) := by
  refine follows_current fun lexeme lexeme' hsees => ?_
  cases hsees with
  | same =>
    rw [Lexeme.kind_shift]
    cases hrule : textRule? quoted lexeme.kind with
    | some rule =>
      have hstrip (h : lexeme.Scanned) :
          ∃ inner, Text.strip? rule.left rule.right lexeme.text = some inner :=
        (exists_strip?_of_textRule? h hrule).imp fun _ => And.left
      exact (followsAt_tokenText rfl (kind_ne_stop_of_textRule? hrule) hstrip _).bind fun _ =>
        follows_pure rfl
    | none => exact (follows_pure rfl).at _
  | last hstop _ hlast _ =>
    have hleader : textRule? quoted lexeme.kind = none := by rw [hstop]; rfl
    have hfollower : textRule? quoted lexeme'.kind = none :=
      textRule?_eq_none_iff.2 (isText_of_stops (hlast ▸ sim.stops_last))
    rw [hleader, hfollower]
    exact (follows_pure rfl).at _

theorem follows_text? (quoted : Bool) :
    sim.Follows (Option.map (Part.mapSpans sim.move)) (text? quoted) (text? quoted) := by
  refine (follows_loop (f := id) (follows_textRound quoted) []).bind fun text => ?_
  refine follows_pure ?_
  simp only [Part.literal?, id]
  split <;> rfl

/-! ### Parameters -/

theorem bracedNameRound_eq_bind (opener : Lexeme) (name : List Char) :
    bracedNameRound opener name = (do
      let lexeme ← current
      if lexeme.kind = .stop then fail (.unclosedExpansion ⟨opener.start, lexeme.start⟩)
      else
        let _ ← take
        return if lexeme.kind = .rightBrace then .done name
          else .yield (name ++ lexeme.text)) := by
  unfold bracedNameRound
  congr
  funext lexeme
  split <;> simp_all

theorem follows_bracedNameRound (opener : Lexeme) (name : List Char) :
    sim.Follows (mapStep id) (bracedNameRound opener name)
      (bracedNameRound (opener.shift sim.shift) name) := by
  rw [bracedNameRound_eq_bind, bracedNameRound_eq_bind]
  refine follows_current fun lexeme lexeme' hsees => ?_
  cases hsees with
  | same _ hempty =>
    rw [Lexeme.kind_shift]
    by_cases hstop : lexeme.kind = .stop
    · rw [if_pos hstop, if_pos hstop]
      exact followsAt_fail rfl (by simp [Lexeme.stop, hempty hstop]) fun _ => rfl
    · rw [if_neg hstop, if_neg hstop]
      refine (followsAt_take hstop).bind fun _ => follows_pure ?_
      split <;> rfl
  | last hstop hlast _ _ =>
    rw [if_pos hstop]
    exact (follows_fail_of_lost (sim.lost_of_last hlast _)).at _

theorem follows_bracedParameter :
    sim.Follows (Part.mapSpans sim.move) bracedParameter bracedParameter := by
  refine (follows_require (by simp)).bind fun opener => ?_
  refine follows_current fun first first' hsees => hsees.ite (by simp) (ne_last rfl) ?_ ?_
  · intro hkind
    cases hsees with
    | same =>
      refine followsAt_fail rfl (Nat.le_max_right ..) fun _ => ?_
      rw [Lexeme.span_shift, Lexeme.span_shift, ← Span.shift_merge]
      rfl
    | last hstop => simp [hstop] at hkind
  · intro _
    refine Follows.at ?_ first
    refine (follows_loop (f := id) (follows_bracedNameRound opener) []).bind fun name => ?_
    exact follows_pure rfl

/-! ### Contexts -/

/-- What the contexts of a leader and a follower have to agree on. -/
structure ContextFollows (sim : Simulation) (context context' : Context) : Prop where
  /-- Both are in backticks, or none is, if there are any. -/
  inBackticks_eq : sim.ticks = true → context'.inBackticks = context.inBackticks
  /-- A script of the follower ends where the leader stands at its end. -/
  stops_last : stops context'.inBackticks sim.last = true
  /-- The scripts of the follower follow those of the leader. -/
  script : ∀ script, context.script? = some script →
    ∃ script', context'.script? = some script' ∧ ∀ inBackticks inBackticks',
      (sim.ticks = true → inBackticks' = inBackticks) →
        sim.closed.Follows (Script.mapSpans sim.move) (script inBackticks) (script' inBackticks')
  /-- Where the leader has no level left, neither has the follower, unless that does not matter. -/
  limit : context.script? = none →
    (context'.script? = none ∧ context'.limit = context.limit) ∨
      ∀ span, sim.Lost (.nestingTooDeep context.limit span)

/-! ### Parts -/

theorem follows_substitution (hcontext : sim.ContextFollows context context')
    {opening closing : TokenKind} (hopening : opening ≠ .stop) (hclosing : closing ≠ .stop)
    {inBackticks inBackticks' : Bool} (hticks : sim.ticks = true → inBackticks' = inBackticks) :
    sim.Follows (Part.mapSpans sim.move) (substitution context opening closing inBackticks)
      (substitution context' opening closing inBackticks') := by
  unfold substitution
  cases hscript : context.script? with
  | some script =>
    obtain ⟨script', hscript', hfollows⟩ := hcontext.script script hscript
    rw [hscript']
    refine (follows_require hopening).bind fun opener => ?_
    refine (hfollows _ _ hticks).enclosed (fun body => ?_) ?_
    · exact (follows_require hclosing).bind fun _ => follows_pure rfl
    · -- at its end the leader misses what closes
      intro body d hstop
      have hrequire := require_of_kind_ne (hstop ▸ Ne.symm hclosing)
      exact ⟨_, _, bind_of_eq_error _ hrequire⟩
  | none =>
    rcases hcontext.limit hscript with ⟨hscript', hlimit⟩ | hlost
    · rw [hscript', hlimit]
      refine follows_require_fail hopening (fun _ => rfl) fun lexeme => ?_
      rw [Lexeme.span_shift]
      rfl
    · exact (follows_require hopening).bind fun opener => follows_fail_of_lost (hlost opener.span)

theorem follows_part? (hcontext : sim.ContextFollows context context') (quoted : Bool) :
    sim.Follows (Option.map (Part.mapSpans sim.move)) (part? context quoted)
      (part? context' quoted) := by
  refine follows_current fun lexeme lexeme' hsees => ?_
  have htext : sim.FollowsAt lexeme (Option.map (Part.mapSpans sim.move)) (text? quoted)
      (text? quoted) := (follows_text? quoted).at lexeme
  cases hsees with
  | same hticks _ =>
    have htake {part : Part} (hpart : part.mapSpans sim.move = part)
        (hstop : lexeme.kind ≠ .stop) :
        sim.FollowsAt lexeme (Option.map (Part.mapSpans sim.move))
          (take >>= fun _ => pure (some part)) (take >>= fun _ => pure (some part)) :=
      (followsAt_take hstop).bind fun _ => follows_pure (by rw [Option.map_some, hpart])
    have htokenText {kind : TokenKind} {left right : Nat} {inner : List Char}
        (part : List Char → Part) (hpart : ∀ text, (part text).mapSpans sim.move = part text)
        (hkind : lexeme.kind = kind) (hstop : kind ≠ .stop)
        (hstrip : lexeme.Scanned → Text.strip? left right lexeme.text = some inner) :
        sim.FollowsAt lexeme (Option.map (Part.mapSpans sim.move))
          (tokenText kind left right [] >>= fun text => pure (some (part text)))
          (tokenText kind left right [] >>= fun text => pure (some (part text))) :=
      (followsAt_tokenText hkind hstop (fun h => ⟨_, hstrip h⟩) []).bind fun text =>
        follows_pure (by rw [Option.map_some, hpart, id])
    rw [Lexeme.kind_shift]
    cases hkind : lexeme.kind
    case unbracedParameter =>
      exact htokenText (fun text => .parameter (String.ofList text)) (fun _ => rfl) hkind
        (by simp) fun h => h.strip?_of_unbracedParameter hkind
    case startExpansion =>
      refine Follows.at ?_ lexeme
      exact follows_bracedParameter.map fun _ => rfl
    case backtick =>
      rw [hcontext.inBackticks_eq (hticks hkind)]
      cases context.inBackticks with
      | true => exact htext
      | false =>
        refine Follows.at ?_ lexeme
        exact (follows_substitution hcontext (by simp) (by simp) fun _ => rfl).map fun _ => rfl
    case startSubstitution =>
      refine Follows.at ?_ lexeme
      exact (follows_substitution hcontext (by simp) (by simp)
        hcontext.inBackticks_eq).map fun _ => rfl
    all_goals
      cases quoted with
      | true => exact htext
      | false =>
        first
        | exact htext
        | exact htake rfl (by simp [hkind])
        | exact htokenText (fun text => .glob (.charset (String.ofList text))) (fun _ => rfl)
            hkind (by simp) fun h => h.strip?_of_globCharset hkind
  | last hstop _ hlast _ =>
    have hstops := hcontext.stops_last
    rw [← hlast] at hstops
    rw [hstop]
    cases hkind : lexeme'.kind
    case backtick =>
      have hticks : context'.inBackticks = true := by simpa [hkind, stops, closes] using hstops
      rw [hticks]
      exact htext
    all_goals
      first
      | exact htext
      | simp [hkind, stops, closes] at hstops

/-! ### Words -/

theorem follows_toggleQuotes (quoted : Bool) :
    sim.Follows id (toggleQuotes quoted) (toggleQuotes quoted) := by
  refine follows_loop (f := id) (fun quoted => ?_) quoted
  refine (follows_accept (by simp) (ne_last rfl)).bind fun accepted => ?_
  cases accepted <;> exact follows_pure rfl

/-- The parts read so far with other spans. -/
def movePartsRead (f : Span → Span) (read : PartsRead) : PartsRead :=
  ⟨read.parts.map (Part.mapSpans f), read.quoted⟩

theorem follows_partsRound (hcontext : sim.ContextFollows context context') (read : PartsRead) :
    sim.Follows (mapStep (movePartsRead sim.move)) (partsRound context read)
      (partsRound context' (movePartsRead sim.move read)) := by
  refine (follows_toggleQuotes read.quoted).bind fun quoted => ?_
  refine (follows_part? hcontext quoted).bind fun part => ?_
  cases part with
  | some part => exact follows_pure rfl
  | none =>
    cases quoted with
    | true => exact (follows_require (by simp)).bind fun _ => follows_pure rfl
    | false => exact follows_pure rfl

theorem follows_parts (hcontext : sim.ContextFollows context context') :
    sim.Follows (List.map (Part.mapSpans sim.move)) (parts context) (parts context') := by
  refine (follows_loop (follows_partsRound hcontext) ⟨[], false⟩).bind fun read => ?_
  exact follows_pure List.map_reverse.symm

theorem follows_word? (hcontext : sim.ContextFollows context context') :
    sim.Follows (Option.map (Word.mapSpans sim.move)) (word? context) (word? context') := by
  refine follows_current fun first first' hsees => ?_
  refine ((follows_parts hcontext).at first).bind fun parts => ?_
  rw [List.isEmpty_map]
  cases parts.isEmpty with
  | true => exact follows_pure rfl
  | false =>
    refine follows_lastEnd fun stop => follows_pure ?_
    simp [Word.mapSpans, Span.shift, hsees.start_eq]

theorem follows_wordsRound (hcontext : sim.ContextFollows context context') (words : List Word) :
    sim.Follows (mapStep (List.map (Word.mapSpans sim.move))) (wordsRound context words)
      (wordsRound context' (words.map (Word.mapSpans sim.move))) := by
  refine (follows_word? hcontext).bind fun word => ?_
  cases word with
  | none => exact follows_pure rfl
  | some word =>
    refine (follows_accept (by simp) (ne_last rfl)).bind fun accepted => ?_
    cases accepted with
    | true => exact follows_skipWhitespace.bind fun _ => follows_pure rfl
    | false => exact follows_pure rfl

theorem follows_words (hcontext : sim.ContextFollows context context') :
    sim.Follows (List.map (Word.mapSpans sim.move)) (words context) (words context') := by
  refine (follows_loop (follows_wordsRound hcontext) []).bind fun words => ?_
  exact follows_pure List.map_reverse.symm

/-! ### Commands -/

theorem followsAt_assignment (hcontext : sim.ContextFollows context context')
    (hkind : lexeme.kind = .assignmentLhs) :
    sim.FollowsAt lexeme (Assignment.mapSpans sim.move) (assignment context)
      (assignment context') := by
  refine followsAt_current fun lexeme' hsees => ?_
  refine (followsAt_tokenText hkind (by simp)
    (fun h => ⟨_, h.strip?_of_assignmentLhs hkind⟩) []).bind fun name => ?_
  refine (follows_word? hcontext).bind fun value => ?_
  refine follows_lastEnd fun stop => follows_pure ?_
  simp [Assignment.mapSpans, Span.shift, hsees.start_eq]

theorem follows_assignmentsRound (hcontext : sim.ContextFollows context context')
    (assignments : List Assignment) :
    sim.Follows (mapStep (List.map (Assignment.mapSpans sim.move)))
      (assignmentsRound context assignments)
      (assignmentsRound context' (assignments.map (Assignment.mapSpans sim.move))) := by
  refine follows_skipWhitespace.bind fun _ => ?_
  refine follows_current fun lexeme lexeme' hsees => hsees.ite (by simp) (ne_last rfl) ?_ ?_
  · exact fun hkind => (followsAt_assignment hcontext hkind).bind fun _ => follows_pure rfl
  · exact fun _ => (follows_pure rfl).at lexeme

theorem follows_assignments (hcontext : sim.ContextFollows context context') :
    sim.Follows (List.map (Assignment.mapSpans sim.move)) (assignments context)
      (assignments context') := by
  refine (follows_loop (follows_assignmentsRound hcontext) []).bind fun assignments => ?_
  exact follows_pure List.map_reverse.symm

theorem followsAt_target (hcontext : sim.ContextFollows context context')
    (hkind : lexeme.kind ≠ .stop) :
    sim.FollowsAt lexeme (Word.mapSpans sim.move) (target context) (target context') := by
  refine (followsAt_take hkind).bind fun operator => ?_
  refine follows_skipWhitespace.bind fun _ => ?_
  refine (follows_word? hcontext).bind fun word => ?_
  cases word with
  | some word => exact follows_pure rfl
  | none =>
    refine follows_current fun found found' hsees => ?_
    cases hsees with
    | same =>
      refine followsAt_fail rfl (Nat.le_refl _) fun _ => ?_
      rw [Lexeme.span_shift]
      rfl
    | last _ hlast _ _ => exact (follows_fail_of_lost (sim.lost_of_last hlast _)).at _

theorem follows_commandRound (hcontext : sim.ContextFollows context context')
    (command : Command) :
    sim.Follows (mapStep (Command.mapSpans sim.move)) (commandRound context command)
      (commandRound context' (command.mapSpans sim.move)) := by
  refine follows_skipWhitespace.bind fun _ => ?_
  refine follows_current fun lexeme lexeme' hsees => ?_
  have hredirection : Redirection.ofKind? lexeme'.kind = Redirection.ofKind? lexeme.kind := by
    cases hsees with
    | same => rfl
    | last hstop _ hlast _ =>
      rw [hstop, (ne_of_ends (ends_of_stops (hlast ▸ sim.stops_last))).2.2]
      rfl
  rw [hredirection]
  cases hkind : Redirection.ofKind? lexeme.kind with
  | some redirection =>
    have hstop := kind_ne_stop_of_ofKind? hkind
    refine (followsAt_target hcontext hstop).bind fun word => follows_pure ?_
    simp only [mapStep, Command.mapSpans_redirect]
  | none =>
    refine ((follows_words hcontext).at lexeme).bind fun words => ?_
    rw [List.isEmpty_map]
    cases words.isEmpty with
    | true => exact follows_pure rfl
    | false =>
      refine follows_pure ?_
      obtain ⟨assignments, arguments, input, output, append, span⟩ := command
      simp [mapStep, Command.mapSpans]

theorem follows_command? (hcontext : sim.ContextFollows context context') :
    sim.Follows (Option.map (Command.mapSpans sim.move)) (command? context)
      (command? context') := by
  refine follows_skipWhitespace.bind fun _ => ?_
  refine follows_current fun first first' hsees => ?_
  refine ((follows_assignments hcontext).at first).bind fun assignments => ?_
  have hstart : { Command.empty (Span.empty first'.start) with
      assignments := assignments.map (Assignment.mapSpans sim.move) } =
      Command.mapSpans sim.move
        { Command.empty (Span.empty first.start) with assignments := assignments } := by
    simp [Command.empty, Command.mapSpans, Span.empty, Span.shift, hsees.start_eq]
  rw [hstart]
  refine (follows_loop (follows_commandRound hcontext) _).bind fun content => ?_
  rw [Command.isEmpty_mapSpans]
  cases content.isEmpty with
  | true => exact follows_pure rfl
  | false =>
    refine follows_lastEnd fun stop => follows_pure ?_
    obtain ⟨assignments, arguments, input, output, append, span⟩ := content
    have hmax : max (stop + sim.shift) (first.start + sim.shift) =
        max stop first.start + sim.shift := by omega
    simp [Command.mapSpans, Span.shift, hsees.start_eq, hmax]

/-! ### Statements -/

theorem follows_stage? (hcontext : sim.ContextFollows context context') :
    sim.Follows (Option.map (Command.mapSpans sim.move)) (stage? context) (stage? context') := by
  rw [stage?_eq_bind, stage?_eq_bind]
  refine follows_skipWhitespace.bind fun _ => ?_
  refine follows_current fun lexeme lexeme' hsees => ?_
  cases hsees with
  | same =>
    rw [Lexeme.kind_shift, Lexeme.span_shift]
    by_cases hstop : lexeme.kind = .stop
    · rw [if_pos hstop, if_pos hstop]
      exact followsAt_fail rfl (Nat.le_refl _) fun _ => rfl
    · rw [if_neg hstop, if_neg hstop]
      by_cases hpipe : lexeme.kind = .pipe
      · rw [if_pos hpipe, if_pos hpipe]
        exact followsAt_fail rfl (Nat.le_refl _) fun _ => rfl
      · rw [if_neg hpipe, if_neg hpipe]
        refine ((follows_command? hcontext).at lexeme).bind fun command => ?_
        exact follows_skipWhitespace.bind fun _ => follows_pure rfl
  | last hstop hlast _ _ =>
    rw [if_pos hstop]
    exact (follows_fail_of_lost (sim.lost_of_last hlast _)).at _

theorem follows_pipelineRound (hcontext : sim.ContextFollows context context')
    (commands : List Command) :
    sim.Follows (mapStep (List.map (Command.mapSpans sim.move))) (pipelineRound context commands)
      (pipelineRound context' (commands.map (Command.mapSpans sim.move))) := by
  refine (follows_accept (by simp) (ne_last rfl)).bind fun accepted => ?_
  cases accepted with
  | false => exact follows_pure rfl
  | true =>
    refine (follows_stage? hcontext).bind fun command => ?_
    cases command with
    | some command => exact follows_pure rfl
    | none =>
      refine follows_current fun found found' hsees => ?_
      cases hsees with
      | same =>
        refine followsAt_fail rfl (Nat.le_refl _) fun _ => ?_
        rw [Lexeme.span_shift]
        rfl
      | last _ hlast _ _ => exact (follows_fail_of_lost (sim.lost_of_last hlast _)).at _

theorem follows_pipeline? (hcontext : sim.ContextFollows context context') :
    sim.Follows (Option.map (Pipeline.mapSpans sim.move)) (pipeline? context)
      (pipeline? context') := by
  refine (follows_stage? hcontext).bind fun first => ?_
  cases first with
  | none => exact follows_pure rfl
  | some first =>
    refine (follows_loop (follows_pipelineRound hcontext) [first]).bind fun commands => ?_
    refine follows_lastEnd fun stop => follows_pure ?_
    simp [Pipeline.mapSpans, Span.shift]

theorem follows_statement? (hcontext : sim.ContextFollows context context') :
    sim.Follows (Option.map (Statement.mapSpans sim.move)) (statement? context)
      (statement? context') := by
  refine (follows_pipeline? hcontext).bind fun pipeline => ?_
  cases pipeline with
  | none => exact follows_pure rfl
  | some pipeline =>
    refine follows_skipWhitespace.bind fun _ => ?_
    refine (follows_accept (by simp) (ne_last rfl)).bind fun background => ?_
    refine follows_lastEnd fun stop => ?_
    refine follows_skipWhitespace.bind fun _ => follows_pure ?_
    simp [Statement.mapSpans, Span.shift]

/-! ### Scripts -/

/-- The statements read so far with other spans, and others that were read before. -/
def moveStatements (f : Span → Span) (before statements : List Statement) : List Statement :=
  statements.map (Statement.mapSpans f) ++ before

theorem toList_map_append_moveStatements (statement : Option Statement)
    (before read : List Statement) :
    (statement.map (Statement.mapSpans sim.move)).toList ++ moveStatements sim.move before read =
      moveStatements sim.move before (statement.toList ++ read) := by
  cases statement <;> simp [moveStatements]

/-- When the leader does not come to its end alone, its statements are followed one by one. -/
theorem follows_scriptRound (hlast : sim.last = .stop)
    (hcontext : sim.ContextFollows context context') (before statements : List Statement) :
    sim.Follows (mapStep (moveStatements sim.move before)) (scriptRound context statements)
      (scriptRound context' (moveStatements sim.move before statements)) := by
  refine follows_skipWhitespace.bind fun _ => ?_
  refine follows_current fun lexeme lexeme' hsees => ?_
  cases hsees with
  | last _ halone => exact absurd hlast halone
  | same =>
    rw [Lexeme.kind_shift]
    by_cases hstop : lexeme.kind = .stop
    · rw [if_pos hstop, if_pos hstop]
      exact (follows_pure rfl).at lexeme
    · rw [if_neg hstop, if_neg hstop]
      refine ((follows_statement? hcontext).at lexeme).bind fun statement => ?_
      rw [toList_map_append_moveStatements]
      refine follows_skipWhitespace.bind fun _ => ?_
      refine (follows_accept (by simp) (by simp [hlast])).bind fun accepted => ?_
      cases accepted <;> exact follows_pure rfl

theorem mapSpans_ofStatements (n position : Nat) (statements : List Statement) :
    (Script.ofStatements position statements).mapSpans (Span.shift n) =
      Script.ofStatements (position + n) (statements.map (Statement.mapSpans (Span.shift n))) := by
  cases statements with
  | nil => rfl
  | cons first rest =>
    cases hlast : (first :: rest).getLast? with
    | none => simp at hlast
    | some last =>
      simp only [Script.ofStatements, List.head?_map, List.getLast?_map, List.head?_cons, hlast,
        Option.map_some, Script.mapSpans, Statement.listMapSpans_eq, Span.shift_merge,
        Statement.span_mapSpans]

theorem follows_scriptIn (hlast : sim.last = .stop)
    (hcontext : sim.ContextFollows context context') :
    sim.Follows (Script.mapSpans sim.move) (scriptIn context) (scriptIn context') := by
  refine follows_current fun first first' hsees => ?_
  refine Follows.at ?_ first
  refine (follows_loop (follows_scriptRound hlast hcontext []) []).bind fun statements => ?_
  refine follows_pure ?_
  rw [mapSpans_ofStatements, hsees.start_eq]
  simp [moveStatements]

/-! ### Levels of nesting -/

/-- The follower has as many levels of nesting left and reports the same limit, or it has at
least as many and it does not matter that the leader runs out of them. -/
def LevelsFollow (sim : Simulation) (limit levels limit' levels' : Nat) : Prop :=
  (levels' = levels ∧ limit' = limit) ∨
    levels ≤ levels' ∧ ∀ span, sim.Lost (.nestingTooDeep limit span)

theorem contextFollows_levelContext {limit limit' levels levels' : Nat}
    {inBackticks inBackticks' : Bool} (hlevels : sim.LevelsFollow limit levels limit' levels')
    (hticks : sim.ticks = true → inBackticks' = inBackticks)
    (hstops : stops inBackticks' sim.last = true) :
    sim.ContextFollows (levelContext limit inBackticks levels)
      (levelContext limit' inBackticks' levels') := by
  induction levels generalizing sim levels' inBackticks inBackticks' with
  | zero =>
    refine ⟨by simpa using hticks, by simpa using hstops, by simp [levelContext], fun _ => ?_⟩
    rcases hlevels with ⟨rfl, rfl⟩ | ⟨-, hlost⟩
    · exact .inl ⟨rfl, rfl⟩
    · exact .inr hlost
  | succ levels ih =>
    obtain ⟨levels', rfl⟩ : ∃ n, levels' = n + 1 := by
      refine Nat.exists_eq_add_one_of_ne_zero ?_
      rcases hlevels with ⟨rfl, -⟩ | ⟨hle, -⟩ <;> omega
    have hlevels' : sim.closed.LevelsFollow limit levels limit' levels' := by
      refine hlevels.imp (fun h => ⟨Nat.succ.inj h.1, h.2⟩) fun h => ⟨?_, h.2⟩
      exact Nat.le_of_succ_le_succ h.1
    refine ⟨by simpa using hticks, by simpa using hstops, ?_, by simp [levelContext]⟩
    intro leader hleader
    obtain rfl := Option.some.inj hleader
    refine ⟨script limit' levels', rfl, fun nested nested' hnested => ?_⟩
    rw [script_eq_scriptIn, script_eq_scriptIn]
    exact follows_scriptIn rfl (ih hlevels' hnested rfl)

/-- **Scripts are followed.** When the leader does not come to its end alone, the script that
it reads is the script that the follower reads, with spans further on. -/
theorem follows_script (hlast : sim.last = .stop) {limit limit' levels levels' : Nat}
    (hlevels : sim.LevelsFollow limit levels limit' levels') {inBackticks inBackticks' : Bool}
    (hticks : sim.ticks = true → inBackticks' = inBackticks) :
    sim.Follows (Script.mapSpans sim.move) (script limit levels inBackticks)
      (script limit' levels' inBackticks') := by
  rw [script_eq_scriptIn, script_eq_scriptIn]
  refine follows_scriptIn hlast (contextFollows_levelContext hlevels hticks ?_)
  rw [hlast]
  rfl

end Simulation

end CommandSyntax
