import CommandSyntax.Proofs.Grammar.StatementSuccess

/-!
# CommandSyntax.Proofs.Grammar.Noticing

**Where errors are noticed.** A production that fails has passed some lexemes, and what its
error tells is found where it came to: the current lexeme, the failure of the stream ahead, or
an opening bracket among the lexemes passed (`Cursor.Notices`). No error is made up from
anything else.

The fact is shown once for each way of building productions and then for every production
(`noticed_script`). That the steps before the failing one pass lexemes is known (`Orderly`);
the lexemes passed are gathered, since an opening bracket may lie far behind.

A token too short for its delimiters is not among the causes. The lexemes of a stream are
scanned, and a scanned lexeme has the delimiters of its kind, so that nobody ever notices
`SyntaxError.corruption` (`noticedAt_tokenText_bind`).
-/

namespace CommandSyntax

/-- What an error tells of a cursor, when some lexemes have been passed before it. -/
inductive Cursor.Notices (limit : Nat) (passed : List Lexeme) (c : Cursor) : SyntaxError → Prop
  /-- No token can be read behind the current lexeme. -/
  | scan {error : ScanError} (h : c.ahead = .failed error) : Notices limit passed c (.scan error)
  /-- The current lexeme is not of the kind that has to come. -/
  | unexpectedToken {expected : TokenKind} (h : c.current.kind ≠ expected) :
    Notices limit passed c (.unexpectedToken expected c.current.kind c.current.span)
  /-- The input ends where a command has to stand. -/
  | unexpectedEnd (h : c.current.kind = .stop) :
    Notices limit passed c (.unexpectedEnd c.current.span)
  /-- A bar stands where a command has to. -/
  | unexpectedPipe (h : c.current.kind = .pipe) :
    Notices limit passed c (.unexpectedPipe c.current.span)
  /-- The current lexeme is not part of a command. -/
  | missingCommand : Notices limit passed c (.missingCommand c.current.kind c.current.span)
  /-- The current lexeme is not part of a word. -/
  | missingTarget {operator : TokenKind} :
    Notices limit passed c (.missingTarget operator c.current.kind c.current.span)
  /-- A pair of braces closes at once. -/
  | badParameter {opener : Lexeme} (hmem : opener ∈ passed) (h : c.current.kind = .rightBrace) :
    Notices limit passed c (.badParameter (opener.span.merge c.current.span))
  /-- The input ends inside of braces. -/
  | unclosedExpansion {opener : Lexeme} (hmem : opener ∈ passed) (h : c.current.kind = .stop) :
    Notices limit passed c (.unclosedExpansion ⟨opener.start, c.current.start⟩)
  /-- The script ends before the input does. -/
  | trailingToken (h : c.current.kind ≠ .stop) :
    Notices limit passed c (.trailingToken c.current.kind c.current.span)
  /-- No level is left for what a substitution opens. -/
  | nestingTooDeep {opener : Lexeme} (hmem : opener ∈ passed)
      (h : opener.kind = .startSubstitution ∨ opener.kind = .backtick) :
    Notices limit passed c (.nestingTooDeep limit opener.span)

namespace Production

open Cursor

variable {α β σ : Type} {c : Cursor} {limit : Nat} {passed : List Lexeme}

/-- When a production fails from a cursor, its error is noticed where it came to. -/
def NoticedAt (limit : Nat) (passed : List Lexeme) (p : Production α) (c : Cursor) : Prop :=
  ∀ ⦃error c'⦄, p c = .error error c' →
    ∃ lexemes last, c.Passes lexemes last ∧ last.Notices limit (passed ++ lexemes) error

/-- A production reads in order, and its error is noticed where it fails. -/
structure Noticed (limit : Nat) (p : Production α) : Prop where
  /-- It reads in order. -/
  orderly : Orderly p
  /-- Its error is noticed. -/
  notices : ∀ passed ⦃c⦄, c.Placed → NoticedAt limit passed p c

/-! ### Ways of building productions -/

theorem noticedAt_pure (value : α) : NoticedAt limit passed (pure value) c :=
  fun _ _ h => by simp at h

theorem noticedAt_fail {error : SyntaxError} (h : c.Notices limit passed error) :
    NoticedAt limit passed (fail error : Production α) c := by
  intro error' c' h'
  obtain ⟨rfl, rfl⟩ := EStateM.Result.error.inj h'
  exact ⟨[], c, .nil c, by rwa [List.append_nil]⟩

theorem NoticedAt.bind {p : Production α} {next : α → Production β}
    (hp : NoticedAt limit passed p c) (horderly : OrderlyAt p c)
    (hnext : ∀ value c' lexemes, p c = .ok value c' → c.Passes lexemes c' →
      NoticedAt limit (passed ++ lexemes) (next value) c') :
    NoticedAt limit passed (p >>= next) c := by
  intro error c'' h
  cases hresult : p c with
  | error error' c' =>
    obtain ⟨rfl, rfl⟩ := EStateM.Result.error.inj ((bind_of_eq_error next hresult).symm.trans h)
    exact hp hresult
  | ok value c' =>
    obtain ⟨front, hfront⟩ := horderly.passes hresult
    obtain ⟨back, last, hback, hnotices⟩ :=
      hnext value c' front hresult hfront ((bind_of_eq_ok next hresult).symm.trans h)
    exact ⟨front ++ back, last, hfront.trans hback, by rwa [← List.append_assoc]⟩

/-- When the first step is noticed from everywhere, only what follows has to be looked at. -/
theorem Noticed.bind {p : Production α} {next : α → Production β} (hp : Noticed limit p)
    (hc : c.Placed) (hnext : ∀ value more ⦃c'⦄, c'.Placed →
      NoticedAt limit (passed ++ more) (next value) c') :
    NoticedAt limit passed (p >>= next) c :=
  (hp.notices passed hc).bind (hp.orderly hc) fun value _ lexemes _ hpasses =>
    hnext value lexemes (hpasses.placed hc)

theorem Noticed.map {p : Production α} (f : α → β) (hp : Noticed limit p) (hc : c.Placed) :
    NoticedAt limit passed (f <$> p) c := by
  rw [← bind_pure_comp]
  exact hp.bind hc fun value _ _ _ => noticedAt_pure (f value)

theorem noticedAt_current_bind {next : Lexeme → Production β}
    (h : NoticedAt limit passed (next c.current) c) :
    NoticedAt limit passed (current >>= next) c :=
  fun _ _ h' => h h'

theorem noticedAt_lastEnd_bind {next : Nat → Production β}
    (h : NoticedAt limit passed (next c.lastEnd) c) :
    NoticedAt limit passed (lastEnd >>= next) c :=
  fun _ _ h' => h h'

theorem noticedAt_take : NoticedAt limit passed take c := by
  intro error c' h
  obtain ⟨-, scanError, rfl, hahead⟩ := take_eq_error h
  exact ⟨[], c, .nil c, .scan hahead⟩

/-- Behind a lexeme that is left, that lexeme has been passed. -/
theorem noticedAt_take_bind {next : Lexeme → Production β} (hc : c.Placed)
    (hkind : c.current.kind ≠ .stop)
    (hnext : ∀ ⦃c'⦄, c'.Placed →
      NoticedAt limit (passed ++ [c.current]) (next c.current) c') :
    NoticedAt limit passed (take >>= next) c := by
  refine noticedAt_take.bind (orderlyAt_take hkind) fun value c' lexemes htake hpasses => ?_
  obtain rfl := hpasses.unique (.single hkind htake) hc
  obtain rfl := (take_eq_ok htake).1
  exact hnext (hpasses.placed hc)

theorem noticed_accept {kind : TokenKind} (hkind : kind ≠ .stop) :
    Noticed limit (accept kind) where
  orderly := orderly_accept hkind
  notices passed c hc := by
    refine noticedAt_current_bind ?_
    split
    · rename_i heq
      exact noticedAt_take_bind hc (heq ▸ hkind) fun _ _ => noticedAt_pure true
    · exact noticedAt_pure false

theorem noticed_require {kind : TokenKind} (hkind : kind ≠ .stop) :
    Noticed limit (require kind) where
  orderly := orderly_require hkind
  notices passed c hc := by
    refine noticedAt_current_bind ?_
    split
    · exact noticedAt_take
    · exact noticedAt_fail (.unexpectedToken ‹_›)

/-- Behind a required lexeme, that lexeme has been passed. -/
theorem noticedAt_require_bind {kind : TokenKind} (hkind : kind ≠ .stop)
    {next : Lexeme → Production β} (hc : c.Placed)
    (hnext : ∀ ⦃c'⦄, c.current.kind = kind → c'.Placed →
      NoticedAt limit (passed ++ [c.current]) (next c.current) c') :
    NoticedAt limit passed (require kind >>= next) c := by
  have hrequire : Noticed limit (require kind) := noticed_require hkind
  refine (hrequire.notices passed hc).bind (hrequire.orderly hc)
    fun value c' lexemes hrequire hpasses => ?_
  obtain ⟨heq, rfl, hstep⟩ := (require_eq_ok_iff hkind).1 hrequire
  obtain rfl := hpasses.unique hstep hc
  exact hnext heq (hstep.placed hc)

/-- The delimiters of a token are there to be stripped, so that only the scanning can fail. -/
theorem noticedAt_tokenText_bind {kind : TokenKind} (hkind : c.current.kind = kind)
    (hstop : kind ≠ .stop) {left right : Nat} {inner : List Char}
    (hstrip : Text.strip? left right c.current.text = some inner)
    (escapes : List Quoting.Escape) {next : List Char → Production β} (hc : c.Placed)
    (hnext : ∀ ⦃c'⦄, c'.Placed →
      NoticedAt limit (passed ++ [c.current]) (next (Quoting.unescape escapes inner)) c') :
    NoticedAt limit passed (tokenText kind left right escapes >>= next) c := by
  intro error c' h
  rw [tokenText_bind_of_strip? hkind hstrip] at h
  exact noticedAt_take_bind hc (hkind ▸ hstop) hnext h

/-- A loop is noticed when its rounds are, whatever has been passed before them. -/
theorem noticedAt_loop {round : σ → Production (ForInStep σ)}
    (horderly : ∀ state, Orderly (round state))
    (hround : ∀ state more ⦃c⦄, c.Placed → NoticedAt limit (passed ++ more) (round state) c)
    (state : σ) (hc : c.Placed) : NoticedAt limit passed (loop round state) c := by
  suffices h : ∀ more, NoticedAt limit (passed ++ more) (loop round state) c by
    simpa using h []
  induction hn : c.left using Nat.strongRecOn generalizing state c with
  | ind n ih =>
    subst hn
    intro more error c' h
    cases hresult : round state c with
    | error error' c₁ =>
      obtain ⟨rfl, rfl⟩ :=
        EStateM.Result.error.inj ((loop_of_error hresult).symm.trans h)
      exact hround state more hc hresult
    | ok result c₁ =>
      obtain ⟨front, hfront⟩ := (horderly state hc).passes hresult
      cases result with
      | done state' => simp [loop_of_done hresult] at h
      | yield state' =>
        by_cases hleft : c₁.left < c.left
        · rw [loop_of_yield hresult hleft] at h
          obtain ⟨back, last, hback, hnotices⟩ :=
            ih c₁.left hleft state' (hfront.placed hc) rfl (more ++ front) h
          refine ⟨front ++ back, last, hfront.trans hback, ?_⟩
          simpa only [List.append_assoc] using hnotices
        · rw [loop, hresult] at h
          simp [if_neg hleft] at h

theorem noticed_loop {round : σ → Production (ForInStep σ)}
    (hround : ∀ state, Noticed limit (round state)) (state : σ) :
    Noticed limit (loop round state) where
  orderly := orderly_loop (fun state => (hround state).orderly) state
  notices passed _ hc := noticedAt_loop (fun state => (hround state).orderly)
    (fun state more _ hc => (hround state).notices (passed ++ more) hc) state hc

theorem noticed_acceptRound {kind : TokenKind} (hkind : kind ≠ .stop) (more last : ForInStep σ) :
    Noticed limit (do if ← accept kind then return more else return last) where
  orderly := orderly_acceptRound hkind more last
  notices passed c hc := by
    refine (noticed_accept hkind).bind hc fun accepted _ _ _ => ?_
    split <;> exact noticedAt_pure _

theorem noticed_skipWhitespace : Noticed limit skipWhitespace :=
  noticed_loop (fun _ => noticed_acceptRound (by simp) _ _) ()

/-! ### Words -/

/-- The errors of the scripts of a context are noticed, with its limit. -/
def ContextNoticed (context : Context) : Prop :=
  ∀ script, context.script? = some script → ∀ inBackticks,
    Noticed context.limit (script inBackticks)

variable {context : Context}

theorem ContextNoticed.orderly (h : ContextNoticed context) : ContextOrderly context :=
  fun script hscript inBackticks => (h script hscript inBackticks).orderly

/-- What opens a substitution is passed before it is known that no level is left. -/
theorem noticed_substitution (hcontext : ContextNoticed context) {opening closing : TokenKind}
    (hopening : opening = .startSubstitution ∨ opening = .backtick) (hclosing : closing ≠ .stop)
    (inBackticks : Bool) :
    Noticed context.limit (substitution context opening closing inBackticks) := by
  have hstop : opening ≠ .stop := by rcases hopening with rfl | rfl <;> simp
  refine ⟨orderly_substitution hcontext.orderly hstop hclosing inBackticks, fun passed c hc => ?_⟩
  refine noticedAt_require_bind hstop hc fun c₁ hkind hc₁ => ?_
  split
  · exact noticedAt_fail (.nestingTooDeep (by simp) (hkind ▸ hopening))
  · rename_i script hscript
    refine (hcontext script hscript inBackticks).bind hc₁ fun body _ c₂ hc₂ => ?_
    exact (noticed_require hclosing).bind hc₂ fun _ _ _ _ => noticedAt_pure _

theorem noticedAt_bracedNameRound {opener : Lexeme} (hmem : opener ∈ passed) (name : List Char)
    (hc : c.Placed) : NoticedAt limit passed (bracedNameRound opener name) c := by
  refine noticedAt_current_bind ?_
  split
  · rename_i hkind
    exact noticedAt_take_bind hc (by simp [hkind]) fun _ _ => noticedAt_pure _
  · exact noticedAt_fail (.unclosedExpansion hmem ‹_›)
  · exact noticedAt_take_bind hc ‹_› fun _ _ => noticedAt_pure _

theorem noticed_bracedParameter : Noticed limit bracedParameter where
  orderly := orderly_bracedParameter
  notices passed c hc := by
    refine noticedAt_require_bind (by simp) hc fun c₁ _ hc₁ => ?_
    refine noticedAt_current_bind ?_
    split
    · exact noticedAt_fail (.badParameter (by simp) ‹_›)
    · refine (noticedAt_loop (orderly_bracedNameRound c.current)
        (fun name more c hc => noticedAt_bracedNameRound (by simp) name hc) [] hc₁).bind
        (orderly_loop (orderly_bracedNameRound c.current) [] hc₁)
        fun _ _ _ _ _ => noticedAt_pure _

theorem noticed_textRound (quoted : Bool) (text : List Char) :
    Noticed limit (textRound quoted text) where
  orderly := orderly_textRound quoted text
  notices passed c hc := by
    refine noticedAt_current_bind ?_
    split
    · rename_i rule hrule
      have hstop := kind_ne_stop_of_textRule? hrule
      obtain ⟨inner, hstrip, -⟩ := exists_strip?_of_textRule? (hc.scanned hstop) hrule
      exact noticedAt_tokenText_bind rfl hstop hstrip _ hc fun _ _ => noticedAt_pure _
    · exact noticedAt_pure _

theorem noticed_text? (quoted : Bool) : Noticed limit (text? quoted) where
  orderly := orderly_text? quoted
  notices _ _ hc :=
    (noticed_loop (noticed_textRound quoted) []).bind hc fun _ _ _ _ => noticedAt_pure _

theorem noticed_part? (hcontext : ContextNoticed context) (quoted : Bool) :
    Noticed context.limit (part? context quoted) where
  orderly := orderly_part? hcontext.orderly quoted
  notices passed c hc := by
    have htake (part : Part) (hkind : c.current.kind ≠ .stop) :
        NoticedAt context.limit passed (do let _ ← take; return some part) c :=
      noticedAt_take_bind hc hkind fun _ _ => noticedAt_pure _
    refine noticedAt_current_bind ?_
    split
    · rename_i hkind
      have hscanned := hc.scanned (by simp [hkind])
      exact noticedAt_tokenText_bind hkind (by simp) (hscanned.strip?_of_unbracedParameter hkind)
        [] hc fun _ _ => noticedAt_pure _
    · exact noticed_bracedParameter.map _ hc
    · split
      · exact (noticed_text? _).notices passed hc
      · exact (noticed_substitution hcontext (.inr rfl) (by simp) true).map _ hc
    · exact (noticed_substitution hcontext (.inl rfl) (by simp) _).map _ hc
    · exact htake _ (by simp [*])
    · exact htake _ (by simp [*])
    · rename_i hkind
      have hscanned := hc.scanned (by simp [hkind])
      exact noticedAt_tokenText_bind hkind (by simp) (hscanned.strip?_of_globCharset hkind)
        [] hc fun _ _ => noticedAt_pure _
    · exact (noticed_text? _).notices passed hc

theorem noticed_toggleQuotes (quoted : Bool) : Noticed limit (toggleQuotes quoted) :=
  noticed_loop (fun _ => noticed_acceptRound (by simp) _ _) quoted

theorem noticed_partsRound (hcontext : ContextNoticed context) (read : PartsRead) :
    Noticed context.limit (partsRound context read) where
  orderly := orderly_partsRound hcontext.orderly read
  notices passed c hc := by
    refine (noticed_toggleQuotes read.quoted).bind hc fun quoted _ c₁ hc₁ => ?_
    refine (noticed_part? hcontext quoted).bind hc₁ fun part _ c₂ hc₂ => ?_
    split
    · exact noticedAt_pure _
    · split
      · exact (noticed_require (by simp)).bind hc₂ fun _ _ _ _ => noticedAt_pure _
      · exact noticedAt_pure _

theorem noticed_parts (hcontext : ContextNoticed context) :
    Noticed context.limit (parts context) where
  orderly := orderly_parts hcontext.orderly
  notices _ _ hc :=
    (noticed_loop (noticed_partsRound hcontext) _).bind hc fun _ _ _ _ => noticedAt_pure _

theorem noticed_word? (hcontext : ContextNoticed context) :
    Noticed context.limit (word? context) where
  orderly := orderly_word? hcontext.orderly
  notices passed c hc := by
    refine noticedAt_current_bind ?_
    refine (noticed_parts hcontext).bind hc fun parts _ c₁ _ => ?_
    split
    · exact noticedAt_pure _
    · exact noticedAt_lastEnd_bind (noticedAt_pure _)

theorem noticed_wordsRound (hcontext : ContextNoticed context) (words : List Word) :
    Noticed context.limit (wordsRound context words) where
  orderly := orderly_wordsRound hcontext.orderly words
  notices passed c hc := by
    refine (noticed_word? hcontext).bind hc fun word _ c₁ hc₁ => ?_
    split
    · exact noticedAt_pure _
    · refine (noticed_accept (by simp)).bind hc₁ fun accepted _ c₂ hc₂ => ?_
      split
      · exact noticed_skipWhitespace.bind hc₂ fun _ _ _ _ => noticedAt_pure _
      · exact noticedAt_pure _

theorem noticed_words (hcontext : ContextNoticed context) :
    Noticed context.limit (words context) where
  orderly := orderly_words hcontext.orderly
  notices _ _ hc :=
    (noticed_loop (noticed_wordsRound hcontext) []).bind hc fun _ _ _ _ => noticedAt_pure _

/-! ### Commands -/

theorem noticedAt_assignment (hcontext : ContextNoticed context) (hc : c.Placed)
    (hkind : c.current.kind = .assignmentLhs) :
    NoticedAt context.limit passed (assignment context) c := by
  have hscanned := hc.scanned (by simp [hkind])
  refine noticedAt_current_bind ?_
  refine noticedAt_tokenText_bind hkind (by simp) (hscanned.strip?_of_assignmentLhs hkind) [] hc
    fun c₁ hc₁ => ?_
  refine (noticed_word? hcontext).bind hc₁ fun value _ c₂ _ => ?_
  exact noticedAt_lastEnd_bind (noticedAt_pure _)

theorem noticed_assignmentsRound (hcontext : ContextNoticed context)
    (assignments : List Assignment) :
    Noticed context.limit (assignmentsRound context assignments) where
  orderly := orderly_assignmentsRound hcontext.orderly assignments
  notices passed c hc := by
    refine noticed_skipWhitespace.bind hc fun _ _ c₁ hc₁ => ?_
    refine noticedAt_current_bind ?_
    split
    · exact (noticedAt_assignment hcontext hc₁ ‹_›).bind
        (orderly_assignment hcontext.orderly hc₁) fun _ _ _ _ _ => noticedAt_pure _
    · exact noticedAt_pure _

theorem noticed_assignments (hcontext : ContextNoticed context) :
    Noticed context.limit (assignments context) where
  orderly := orderly_assignments hcontext.orderly
  notices _ _ hc :=
    (noticed_loop (noticed_assignmentsRound hcontext) []).bind hc fun _ _ _ _ => noticedAt_pure _

theorem noticedAt_target (hcontext : ContextNoticed context) (hc : c.Placed)
    (hkind : c.current.kind ≠ .stop) : NoticedAt context.limit passed (target context) c := by
  refine noticedAt_take_bind hc hkind fun c₁ hc₁ => ?_
  refine noticed_skipWhitespace.bind hc₁ fun _ _ c₂ hc₂ => ?_
  refine (noticed_word? hcontext).bind hc₂ fun word _ c₃ _ => ?_
  split
  · exact noticedAt_pure _
  · exact noticedAt_current_bind (noticedAt_fail .missingTarget)

theorem noticed_commandRound (hcontext : ContextNoticed context) (command : Command) :
    Noticed context.limit (commandRound context command) where
  orderly := orderly_commandRound hcontext.orderly command
  notices passed c hc := by
    refine noticed_skipWhitespace.bind hc fun _ _ c₁ hc₁ => ?_
    refine noticedAt_current_bind ?_
    split
    · rename_i redirection hkind
      have hstop := kind_ne_stop_of_ofKind? hkind
      exact (noticedAt_target hcontext hc₁ hstop).bind
        (orderlyAt_target hcontext.orderly hc₁ hstop) fun _ _ _ _ _ => noticedAt_pure _
    · refine (noticed_words hcontext).bind hc₁ fun words _ c₂ _ => ?_
      split <;> exact noticedAt_pure _

theorem noticed_command? (hcontext : ContextNoticed context) :
    Noticed context.limit (command? context) where
  orderly := orderly_command? hcontext.orderly
  notices passed c hc := by
    refine noticed_skipWhitespace.bind hc fun _ _ c₁ hc₁ => ?_
    refine noticedAt_current_bind ?_
    refine (noticed_assignments hcontext).bind hc₁ fun assignments _ c₂ hc₂ => ?_
    refine (noticed_loop (noticed_commandRound hcontext) _).bind hc₂ fun content _ c₃ _ => ?_
    split
    · exact noticedAt_pure _
    · exact noticedAt_lastEnd_bind (noticedAt_pure _)

/-! ### Pipelines, statements and scripts -/

theorem noticed_stage? (hcontext : ContextNoticed context) :
    Noticed context.limit (stage? context) where
  orderly := orderly_stage? hcontext.orderly
  notices passed c hc := by
    refine noticed_skipWhitespace.bind hc fun _ _ c₁ hc₁ => ?_
    refine noticedAt_current_bind ?_
    split
    · exact noticedAt_fail (.unexpectedEnd ‹_›)
    · exact noticedAt_fail (.unexpectedPipe ‹_›)
    · refine (noticed_command? hcontext).bind hc₁ fun command _ c₂ hc₂ => ?_
      exact noticed_skipWhitespace.bind hc₂ fun _ _ _ _ => noticedAt_pure _

theorem noticed_pipelineRound (hcontext : ContextNoticed context) (commands : List Command) :
    Noticed context.limit (pipelineRound context commands) where
  orderly := orderly_pipelineRound hcontext.orderly commands
  notices passed c hc := by
    refine (noticed_accept (by simp)).bind hc fun accepted _ c₁ hc₁ => ?_
    split
    · refine (noticed_stage? hcontext).bind hc₁ fun command _ c₂ _ => ?_
      split
      · exact noticedAt_pure _
      · exact noticedAt_current_bind (noticedAt_fail .missingCommand)
    · exact noticedAt_pure _

theorem noticed_pipeline? (hcontext : ContextNoticed context) :
    Noticed context.limit (pipeline? context) where
  orderly := orderly_pipeline? hcontext.orderly
  notices passed c hc := by
    refine (noticed_stage? hcontext).bind hc fun first _ c₁ hc₁ => ?_
    split
    · exact noticedAt_pure _
    · exact (noticed_loop (noticed_pipelineRound hcontext) _).bind hc₁ fun _ _ _ _ =>
        noticedAt_lastEnd_bind (noticedAt_pure _)

theorem noticed_statement? (hcontext : ContextNoticed context) :
    Noticed context.limit (statement? context) where
  orderly := orderly_statement? hcontext.orderly
  notices passed c hc := by
    refine (noticed_pipeline? hcontext).bind hc fun pipeline _ c₁ hc₁ => ?_
    split
    · exact noticedAt_pure _
    · refine noticed_skipWhitespace.bind hc₁ fun _ _ c₂ hc₂ => ?_
      refine (noticed_accept (by simp)).bind hc₂ fun background _ c₃ hc₃ => ?_
      refine noticedAt_lastEnd_bind ?_
      exact noticed_skipWhitespace.bind hc₃ fun _ _ _ _ => noticedAt_pure _

theorem noticed_scriptRound (hcontext : ContextNoticed context) (statements : List Statement) :
    Noticed context.limit (scriptRound context statements) where
  orderly := orderly_scriptRound hcontext.orderly statements
  notices passed c hc := by
    refine noticed_skipWhitespace.bind hc fun _ _ c₁ hc₁ => ?_
    refine noticedAt_current_bind ?_
    split
    · exact noticedAt_pure _
    · refine (noticed_statement? hcontext).bind hc₁ fun statement _ c₂ hc₂ => ?_
      refine noticed_skipWhitespace.bind hc₂ fun _ _ c₃ hc₃ => ?_
      refine (noticed_accept (by simp)).bind hc₃ fun accepted _ c₄ _ => ?_
      split <;> exact noticedAt_pure _

theorem noticed_scriptIn (hcontext : ContextNoticed context) :
    Noticed context.limit (scriptIn context) where
  orderly := orderly_scriptIn hcontext.orderly
  notices passed c hc := by
    refine noticedAt_current_bind ?_
    exact (noticed_loop (noticed_scriptRound hcontext) []).bind hc fun _ _ _ _ =>
      noticedAt_pure _

/-- The errors of a script are noticed, however deep it is nested, and all scripts report the
same limit. -/
theorem noticed_script (limit levels : Nat) (inBackticks : Bool) :
    Noticed limit (script limit levels inBackticks) := by
  induction levels generalizing inBackticks with
  | zero =>
    have hcontext : ContextNoticed ⟨limit, inBackticks, none⟩ := by simp [ContextNoticed]
    exact noticed_scriptIn hcontext
  | succ levels ih =>
    have hcontext : ContextNoticed ⟨limit, inBackticks, some (script limit levels)⟩ := by
      intro script hscript inBackticks
      obtain rfl := Option.some.inj hscript
      exact ih inBackticks
    exact noticed_scriptIn hcontext

end Production

end CommandSyntax
