import CommandSyntax.Grammar.Statement
import CommandSyntax.Proofs.Grammar.Passing

/-!
# CommandSyntax.Proofs.Grammar.Orderly

**Every production reads in order.** However a production ends, it has passed some
lexemes one at a time, and none of them is the end marker (`Orderly`). When it
fails because the input cannot be cut into tokens, it stands where the stream
fails.

The fact is shown once for each way of building productions (`OrderlyAt.bind`,
`Orderly.loop`) and then for every production of the grammar. The condition of
`OrderlyAt.take` is the point of the whole: each production looks at the kind of the
current lexeme before it leaves that lexeme behind, and no kind on which one goes on
is the end marker.
-/

namespace CommandSyntax

open Cursor

/-- A production that started at the first cursor ended with an error at the second. It
had passed some lexemes by then, and met the failure of the stream if there was one. -/
def Cursor.Halts (c : Cursor) (error : SyntaxError) (c' : Cursor) : Prop :=
  ∃ lexemes last, c.Passes lexemes last ∧ c'.scanned = last.scanned ∧
    ∀ scanError, error = .scan scanError → last.ahead = .failed scanError

theorem Cursor.Passes.halts {c c₁ c₂ : Cursor} {lexemes : List Lexeme} {error : SyntaxError}
    (h : c.Passes lexemes c₁) (h' : c₁.Halts error c₂) : c.Halts error c₂ := by
  obtain ⟨further, last, hpasses, hlast⟩ := h'
  exact ⟨lexemes ++ further, last, h.trans hpasses, hlast⟩

namespace Production

variable {α β σ : Type} {c : Cursor}

/-- A production reads in order from a cursor. -/
structure OrderlyAt (p : Production α) (c : Cursor) : Prop where
  /-- A success has passed some lexemes. -/
  passes : ∀ {value c'}, p c = .ok value c' → ∃ lexemes, c.Passes lexemes c'
  /-- A failure has passed some lexemes. -/
  halts : ∀ {error c'}, p c = .error error c' → c.Halts error c'

/-- A production reads in order from every placed cursor. -/
def Orderly (p : Production α) : Prop := ∀ ⦃c⦄, c.Placed → OrderlyAt p c

/-- Where an orderly production succeeds, the cursor is still placed. -/
theorem OrderlyAt.placed {p : Production α} {value : α} {c' : Cursor} (hp : OrderlyAt p c)
    (hc : c.Placed) (h : p c = .ok value c') : c'.Placed := by
  obtain ⟨_, hpasses⟩ := hp.passes h
  exact hpasses.placed hc

/-! ### Ways of building productions -/

theorem orderlyAt_pure (value : α) (c : Cursor) : OrderlyAt (pure value) c where
  passes h := by
    obtain ⟨-, rfl⟩ := EStateM.Result.ok.inj h
    exact ⟨[], .nil c⟩
  halts h := by simp at h

theorem orderlyAt_fail {error : SyntaxError} (h : ∀ scanError, error ≠ .scan scanError)
    (c : Cursor) : OrderlyAt (fail error : Production α) c where
  passes h := by simp at h
  halts h' := by
    obtain ⟨rfl, rfl⟩ := EStateM.Result.error.inj h'
    exact ⟨[], c, .nil c, rfl, fun scanError hscan => absurd hscan (h scanError)⟩

theorem OrderlyAt.bind {p : Production α} {next : α → Production β} (hp : OrderlyAt p c)
    (hc : c.Placed)
    (hnext : ∀ value c', p c = .ok value c' → c'.Placed → OrderlyAt (next value) c') :
    OrderlyAt (p >>= next) c := by
  cases hp' : p c with
  | ok value c' =>
    obtain ⟨lexemes, hpasses⟩ := hp.passes hp'
    have hnext := hnext value c' hp' (hpasses.placed hc)
    have hbind := bind_of_eq_ok next hp'
    constructor
    · intro value' c'' h
      obtain ⟨further, hfurther⟩ := hnext.passes (hbind.symm.trans h)
      exact ⟨lexemes ++ further, hpasses.trans hfurther⟩
    · intro error c'' h
      exact hpasses.halts (hnext.halts (hbind.symm.trans h))
  | error error c' =>
    have hbind := bind_of_eq_error next hp'
    constructor
    · intro value' c'' h
      simp [hbind] at h
    · intro error' c'' h
      obtain ⟨rfl, rfl⟩ := EStateM.Result.error.inj (hbind.symm.trans h)
      exact hp.halts hp'

theorem OrderlyAt.map {p : Production α} (f : α → β) (hp : OrderlyAt p c) (hc : c.Placed) :
    OrderlyAt (f <$> p) c := by
  rw [← bind_pure_comp]
  exact hp.bind hc fun value c' _ _ => orderlyAt_pure (f value) c'

theorem orderlyAt_current_bind {next : Lexeme → Production β}
    (h : OrderlyAt (next c.current) c) : OrderlyAt (current >>= next) c := by
  constructor
  · exact fun h' => h.passes h'
  · exact fun h' => h.halts h'

theorem orderlyAt_lastEnd_bind {next : Nat → Production β}
    (h : OrderlyAt (next c.lastEnd) c) : OrderlyAt (lastEnd >>= next) c := by
  constructor
  · exact fun h' => h.passes h'
  · exact fun h' => h.halts h'

/-- A lexeme before the end can be left behind. -/
theorem orderlyAt_take (hkind : c.current.kind ≠ .stop) : OrderlyAt take c where
  passes h := ⟨_, .single hkind h⟩
  halts h := by
    obtain ⟨rfl, scanError, rfl, hahead⟩ := take_eq_error h
    refine ⟨[], c, .nil c, scanned_mark c, fun scanError' heq => ?_⟩
    rw [hahead, SyntaxError.scan.inj heq]

theorem orderly_accept {kind : TokenKind} (hkind : kind ≠ .stop) : Orderly (accept kind) := by
  intro c hc
  refine orderlyAt_current_bind ?_
  split
  · rename_i heq
    exact (orderlyAt_take (heq ▸ hkind)).bind hc fun _ c' _ _ => orderlyAt_pure true c'
  · exact orderlyAt_pure false c

theorem orderly_require {kind : TokenKind} (hkind : kind ≠ .stop) : Orderly (require kind) := by
  intro c hc
  refine orderlyAt_current_bind ?_
  split
  · rename_i heq
    exact orderlyAt_take (heq ▸ hkind)
  · exact orderlyAt_fail (by simp) c

/-- A loop whose rounds read in order reads in order. -/
theorem orderly_loop {round : σ → Production (ForInStep σ)}
    (hround : ∀ state, Orderly (round state)) (state : σ) :
    Orderly (loop round state) := by
  intro c hc
  induction hn : c.left using Nat.strongRecOn generalizing state c with
  | ind n ih =>
    subst hn
    have hstep := hround state hc
    cases hresult : round state c with
    | error error c' =>
      have hloop := loop_of_error hresult
      refine ⟨fun h => by simp [hloop] at h, fun h => ?_⟩
      obtain ⟨rfl, rfl⟩ := EStateM.Result.error.inj (hloop.symm.trans h)
      exact hstep.halts hresult
    | ok result c' =>
      obtain ⟨lexemes, hpasses⟩ := hstep.passes hresult
      cases result with
      | done state' =>
        have hloop := loop_of_done hresult
        refine ⟨fun h => ?_, fun h => by simp [hloop] at h⟩
        obtain ⟨-, rfl⟩ := EStateM.Result.ok.inj (hloop.symm.trans h)
        exact ⟨lexemes, hpasses⟩
      | yield state' =>
        by_cases hleft : c'.left < c.left
        · have hloop := loop_of_yield hresult hleft
          have hrest := ih c'.left hleft state' (hpasses.placed hc) rfl
          refine ⟨fun h => ?_, fun h => hpasses.halts (hrest.halts (hloop.symm.trans h))⟩
          obtain ⟨further, hfurther⟩ := hrest.passes (hloop.symm.trans h)
          exact ⟨lexemes ++ further, hpasses.trans hfurther⟩
        · have hloop : loop round state c = .ok state' c' := by
            rw [loop, hresult]
            exact if_neg hleft
          refine ⟨fun h => ?_, fun h => by simp [hloop] at h⟩
          obtain ⟨-, rfl⟩ := EStateM.Result.ok.inj (hloop.symm.trans h)
          exact ⟨lexemes, hpasses⟩

/-- A round that goes on when it has left a lexeme of a kind behind. -/
theorem orderly_acceptRound {kind : TokenKind} (hkind : kind ≠ .stop) (more last : ForInStep σ) :
    Orderly (do if ← accept kind then return more else return last) := by
  intro c hc
  refine (orderly_accept hkind hc).bind hc fun accepted c' _ _ => ?_
  split <;> exact orderlyAt_pure _ c'

theorem orderly_skipWhitespace : Orderly skipWhitespace :=
  orderly_loop (fun _ => orderly_acceptRound (by simp) _ _) ()

/-! ### Words -/

theorem orderly_tokenText {kind : TokenKind} (hkind : kind ≠ .stop) (left right : Nat)
    (escapes : List Quoting.Escape) : Orderly (tokenText kind left right escapes) := by
  intro c hc
  refine orderlyAt_current_bind ?_
  split
  · exact (orderly_require hkind hc).bind hc fun _ c' _ _ => orderlyAt_pure _ c'
  · exact orderlyAt_fail (by simp [SyntaxError.shortToken]) c

/-- The scripts of a context are read in order. -/
def ContextOrderly (context : Context) : Prop :=
  ∀ script, context.script? = some script → ∀ inBackticks, Orderly (script inBackticks)

variable {context : Context}

theorem orderly_substitution (hcontext : ContextOrderly context) {opening closing : TokenKind}
    (hopening : opening ≠ .stop) (hclosing : closing ≠ .stop) (inBackticks : Bool) :
    Orderly (substitution context opening closing inBackticks) := by
  intro c hc
  refine (orderly_require hopening hc).bind hc fun opener c₁ _ hc₁ => ?_
  split
  · exact orderlyAt_fail (by simp) c₁
  · rename_i script hscript
    refine (hcontext script hscript inBackticks hc₁).bind hc₁ fun body c₂ _ hc₂ => ?_
    exact (orderly_require hclosing hc₂).bind hc₂ fun _ c₃ _ _ => orderlyAt_pure _ c₃

theorem orderly_bracedNameRound (opener : Lexeme) (name : List Char) :
    Orderly (bracedNameRound opener name) := by
  intro c hc
  refine orderlyAt_current_bind ?_
  split
  · rename_i hkind
    exact (orderlyAt_take (by simp [hkind])).bind hc fun _ c' _ _ => orderlyAt_pure _ c'
  · exact orderlyAt_fail (by simp) c
  · rename_i hkind
    exact (orderlyAt_take hkind).bind hc fun _ c' _ _ => orderlyAt_pure _ c'

theorem orderly_bracedParameter : Orderly bracedParameter := by
  intro c hc
  refine (orderly_require (by simp) hc).bind hc fun opener c₁ _ hc₁ => ?_
  refine orderlyAt_current_bind ?_
  split
  · exact orderlyAt_fail (by simp) c₁
  · exact (orderly_loop (orderly_bracedNameRound opener) [] hc₁).bind hc₁ fun name c₂ _ _ =>
      orderlyAt_pure _ c₂

/-- The end marker is not text. -/
theorem kind_ne_stop_of_textRule? {quoted : Bool} {kind : TokenKind} {rule : TextRule}
    (h : textRule? quoted kind = some rule) : kind ≠ .stop := by
  rintro rfl
  simp [textRule?] at h

theorem orderly_textRound (quoted : Bool) (text : List Char) :
    Orderly (textRound quoted text) := by
  intro c hc
  refine orderlyAt_current_bind ?_
  split
  · rename_i rule hrule
    have hkind := kind_ne_stop_of_textRule? hrule
    exact (orderly_tokenText hkind _ _ _ hc).bind hc fun _ c' _ _ => orderlyAt_pure _ c'
  · exact orderlyAt_pure _ c

theorem orderly_text? (quoted : Bool) : Orderly (text? quoted) := by
  intro c hc
  exact (orderly_loop (orderly_textRound quoted) [] hc).bind hc fun _ c' _ _ => orderlyAt_pure _ c'

theorem orderly_part? (hcontext : ContextOrderly context) (quoted : Bool) :
    Orderly (part? context quoted) := by
  intro c hc
  have htake (part : Part) (hkind : c.current.kind ≠ .stop) :
      OrderlyAt (do let _ ← take; return some part) c :=
    (orderlyAt_take hkind).bind hc fun _ c' _ _ => orderlyAt_pure _ c'
  refine orderlyAt_current_bind ?_
  split
  · exact (orderly_tokenText (by simp) 1 0 [] hc).bind hc fun _ c' _ _ => orderlyAt_pure _ c'
  · exact (orderly_bracedParameter hc).map _ hc
  · split
    · exact orderly_text? _ hc
    · exact (orderly_substitution hcontext (by simp) (by simp) true hc).map _ hc
  · exact (orderly_substitution hcontext (by simp) (by simp) _ hc).map _ hc
  · rename_i hkind
    exact htake (.glob .star) (by simp [hkind])
  · rename_i hkind
    exact htake (.glob .one) (by simp [hkind])
  · exact (orderly_tokenText (by simp) 1 1 [] hc).bind hc fun _ c' _ _ => orderlyAt_pure _ c'
  · exact orderly_text? _ hc

theorem orderly_toggleQuotes (quoted : Bool) : Orderly (toggleQuotes quoted) :=
  orderly_loop (fun _ => orderly_acceptRound (by simp) _ _) quoted

theorem orderly_partsRound (hcontext : ContextOrderly context) (read : PartsRead) :
    Orderly (partsRound context read) := by
  intro c hc
  refine (orderly_toggleQuotes read.quoted hc).bind hc fun quoted c₁ _ hc₁ => ?_
  refine (orderly_part? hcontext quoted hc₁).bind hc₁ fun part c₂ _ hc₂ => ?_
  split
  · exact orderlyAt_pure _ c₂
  · split
    · exact (orderly_require (by simp) hc₂).bind hc₂ fun _ c₃ _ _ => orderlyAt_pure _ c₃
    · exact orderlyAt_pure _ c₂

theorem orderly_parts (hcontext : ContextOrderly context) : Orderly (parts context) := by
  intro c hc
  exact (orderly_loop (orderly_partsRound hcontext) _ hc).bind hc fun _ c' _ _ =>
    orderlyAt_pure _ c'

theorem orderly_word? (hcontext : ContextOrderly context) : Orderly (word? context) := by
  intro c hc
  refine orderlyAt_current_bind ?_
  refine (orderly_parts hcontext hc).bind hc fun parts c₁ _ _ => ?_
  split
  · exact orderlyAt_pure _ c₁
  · exact orderlyAt_lastEnd_bind (orderlyAt_pure _ c₁)

theorem orderly_wordsRound (hcontext : ContextOrderly context) (words : List Word) :
    Orderly (wordsRound context words) := by
  intro c hc
  refine (orderly_word? hcontext hc).bind hc fun word c₁ _ hc₁ => ?_
  split
  · exact orderlyAt_pure _ c₁
  · refine (orderly_accept (by simp) hc₁).bind hc₁ fun accepted c₂ _ hc₂ => ?_
    split
    · exact (orderly_skipWhitespace hc₂).bind hc₂ fun _ c₃ _ _ => orderlyAt_pure _ c₃
    · exact orderlyAt_pure _ c₂

theorem orderly_words (hcontext : ContextOrderly context) : Orderly (words context) := by
  intro c hc
  exact (orderly_loop (orderly_wordsRound hcontext) _ hc).bind hc fun _ c' _ _ =>
    orderlyAt_pure _ c'

/-! ### Commands -/

theorem orderly_assignment (hcontext : ContextOrderly context) :
    Orderly (assignment context) := by
  intro c hc
  refine orderlyAt_current_bind ?_
  refine (orderly_tokenText (by simp) 0 1 [] hc).bind hc fun name c₁ _ hc₁ => ?_
  refine (orderly_word? hcontext hc₁).bind hc₁ fun value c₂ _ _ => ?_
  exact orderlyAt_lastEnd_bind (orderlyAt_pure _ c₂)

theorem orderly_assignmentsRound (hcontext : ContextOrderly context)
    (assignments : List Assignment) : Orderly (assignmentsRound context assignments) := by
  intro c hc
  refine (orderly_skipWhitespace hc).bind hc fun _ c₁ _ hc₁ => ?_
  refine orderlyAt_current_bind ?_
  split
  · exact (orderly_assignment hcontext hc₁).bind hc₁ fun _ c₂ _ _ => orderlyAt_pure _ c₂
  · exact orderlyAt_pure _ c₁

theorem orderly_assignments (hcontext : ContextOrderly context) :
    Orderly (assignments context) := by
  intro c hc
  exact (orderly_loop (orderly_assignmentsRound hcontext) _ hc).bind hc fun _ c' _ _ =>
    orderlyAt_pure _ c'

/-- The end marker does not redirect. -/
theorem kind_ne_stop_of_ofKind? {kind : TokenKind} {redirection : Redirection}
    (h : Redirection.ofKind? kind = some redirection) : kind ≠ .stop := by
  rintro rfl
  simp [Redirection.ofKind?] at h

theorem orderlyAt_target (hcontext : ContextOrderly context) (hc : c.Placed)
    (hkind : c.current.kind ≠ .stop) : OrderlyAt (target context) c := by
  refine (orderlyAt_take hkind).bind hc fun operator c₁ _ hc₁ => ?_
  refine (orderly_skipWhitespace hc₁).bind hc₁ fun _ c₂ _ hc₂ => ?_
  refine (orderly_word? hcontext hc₂).bind hc₂ fun word c₃ _ _ => ?_
  split
  · exact orderlyAt_pure _ c₃
  · exact orderlyAt_current_bind (orderlyAt_fail (by simp) c₃)

theorem orderly_commandRound (hcontext : ContextOrderly context) (command : Command) :
    Orderly (commandRound context command) := by
  intro c hc
  refine (orderly_skipWhitespace hc).bind hc fun _ c₁ _ hc₁ => ?_
  refine orderlyAt_current_bind ?_
  split
  · rename_i redirection hkind
    refine (orderlyAt_target hcontext hc₁ (kind_ne_stop_of_ofKind? hkind)).bind hc₁
      fun _ c₂ _ _ => orderlyAt_pure _ c₂
  · refine (orderly_words hcontext hc₁).bind hc₁ fun words c₂ _ _ => ?_
    split <;> exact orderlyAt_pure _ c₂

theorem orderly_command? (hcontext : ContextOrderly context) : Orderly (command? context) := by
  intro c hc
  refine (orderly_skipWhitespace hc).bind hc fun _ c₁ _ hc₁ => ?_
  refine orderlyAt_current_bind ?_
  refine (orderly_assignments hcontext hc₁).bind hc₁ fun assignments c₂ _ hc₂ => ?_
  refine (orderly_loop (orderly_commandRound hcontext) _ hc₂).bind hc₂ fun content c₃ _ _ => ?_
  split
  · exact orderlyAt_pure _ c₃
  · exact orderlyAt_lastEnd_bind (orderlyAt_pure _ c₃)

/-! ### Pipelines, statements and scripts -/

theorem orderly_stage? (hcontext : ContextOrderly context) : Orderly (stage? context) := by
  intro c hc
  refine (orderly_skipWhitespace hc).bind hc fun _ c₁ _ hc₁ => ?_
  refine orderlyAt_current_bind ?_
  split
  · exact orderlyAt_fail (by simp) c₁
  · exact orderlyAt_fail (by simp) c₁
  · refine (orderly_command? hcontext hc₁).bind hc₁ fun command c₂ _ hc₂ => ?_
    exact (orderly_skipWhitespace hc₂).bind hc₂ fun _ c₃ _ _ => orderlyAt_pure _ c₃

theorem orderly_pipelineRound (hcontext : ContextOrderly context) (commands : List Command) :
    Orderly (pipelineRound context commands) := by
  intro c hc
  refine (orderly_accept (by simp) hc).bind hc fun accepted c₁ _ hc₁ => ?_
  split
  · refine (orderly_stage? hcontext hc₁).bind hc₁ fun command c₂ _ _ => ?_
    split
    · exact orderlyAt_pure _ c₂
    · exact orderlyAt_current_bind (orderlyAt_fail (by simp) c₂)
  · exact orderlyAt_pure _ c₁

theorem orderly_pipeline? (hcontext : ContextOrderly context) : Orderly (pipeline? context) := by
  intro c hc
  refine (orderly_stage? hcontext hc).bind hc fun first c₁ _ hc₁ => ?_
  split
  · exact orderlyAt_pure _ c₁
  · exact (orderly_loop (orderly_pipelineRound hcontext) _ hc₁).bind hc₁ fun _ c₂ _ _ =>
      orderlyAt_lastEnd_bind (orderlyAt_pure _ c₂)

theorem orderly_statement? (hcontext : ContextOrderly context) :
    Orderly (statement? context) := by
  intro c hc
  refine (orderly_pipeline? hcontext hc).bind hc fun pipeline c₁ _ hc₁ => ?_
  split
  · exact orderlyAt_pure _ c₁
  · refine (orderly_skipWhitespace hc₁).bind hc₁ fun _ c₂ _ hc₂ => ?_
    refine (orderly_accept (by simp) hc₂).bind hc₂ fun background c₃ _ hc₃ => ?_
    refine orderlyAt_lastEnd_bind ?_
    exact (orderly_skipWhitespace hc₃).bind hc₃ fun _ c₄ _ _ => orderlyAt_pure _ c₄

theorem orderly_scriptRound (hcontext : ContextOrderly context) (statements : List Statement) :
    Orderly (scriptRound context statements) := by
  intro c hc
  refine (orderly_skipWhitespace hc).bind hc fun _ c₁ _ hc₁ => ?_
  refine orderlyAt_current_bind ?_
  split
  · exact orderlyAt_pure _ c₁
  · refine (orderly_statement? hcontext hc₁).bind hc₁ fun statement c₂ _ hc₂ => ?_
    refine (orderly_skipWhitespace hc₂).bind hc₂ fun _ c₃ _ hc₃ => ?_
    refine (orderly_accept (by simp) hc₃).bind hc₃ fun accepted c₄ _ _ => ?_
    split <;> exact orderlyAt_pure _ c₄

theorem orderly_scriptIn (hcontext : ContextOrderly context) : Orderly (scriptIn context) := by
  intro c hc
  refine orderlyAt_current_bind ?_
  exact (orderly_loop (orderly_scriptRound hcontext) [] hc).bind hc fun _ c' _ _ =>
    orderlyAt_pure _ c'

/-- Scripts are read in order, however deep they are nested. -/
theorem orderly_script (limit levels : Nat) (inBackticks : Bool) :
    Orderly (script limit levels inBackticks) := by
  induction levels generalizing inBackticks with
  | zero => exact orderly_scriptIn (by simp [ContextOrderly])
  | succ levels ih =>
    refine orderly_scriptIn fun script hscript inBackticks => ?_
    obtain rfl := Option.some.inj hscript
    exact ih inBackticks

end Production

end CommandSyntax
