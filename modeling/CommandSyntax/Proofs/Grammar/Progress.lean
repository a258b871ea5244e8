import CommandSyntax.Proofs.Grammar.StatementSuccess

/-!
# CommandSyntax.Proofs.Grammar.Progress

**No loop of the grammar is ended by its test.** Every loop repeats a round, and stops short of a
round that would go on where it stands (`loop`). The rounds of the grammar (`Repeats`) bring the
cursor forward whenever they go on (`Repeats.advances`), past lexemes of the input that each take a
byte at least (`Cursor.Consumes`). So what a loop gives is what its rounds give when they are
repeated without a test (`loopWithin_eq`), however generous a bound is put on their number.
-/

namespace CommandSyntax

open Production

/-! ### Consuming -/

/-- The second cursor is reached from the first by leaving at least one lexeme behind. None of these
is the end marker, and each takes a byte at least. -/
def Cursor.Consumes (c c' : Cursor) : Prop :=
  ∃ lexemes, c.Passes lexemes c' ∧ lexemes ≠ [] ∧
    ∀ lexeme ∈ lexemes, lexeme.kind ≠ .stop ∧ 0 < Text.width lexeme.text

namespace Cursor

variable {c c' c₁ : Cursor} {lexemes : List Lexeme}

theorem Passes.consumes (h : c.Passes lexemes c') (hc : c.Placed) (hne : lexemes ≠ []) :
    c.Consumes c' := by
  refine ⟨lexemes, h, hne, fun lexeme hmem => ⟨h.kind_ne_stop lexeme hmem, ?_⟩⟩
  have hlt := Lexeme.lt_stop_of_text_ne_nil (h.scanned hc lexeme hmem).text_ne_nil
  rw [Lexeme.stop] at hlt
  omega

theorem Consumes.reaches (h : c.Consumes c') : c.Reaches c' := by
  obtain ⟨_, hpasses, -⟩ := h
  exact hpasses.reaches

theorem Consumes.left_lt (h : c.Consumes c') (hc : c.Placed) : c'.left < c.left := by
  obtain ⟨lexemes, hpasses, hne, -⟩ := h
  exact hpasses.left_lt hc hne

theorem Reaches.consumes (h : c.Reaches c₁) (h' : c₁.Consumes c') (hc : c.Placed) :
    c.Consumes c' := by
  obtain ⟨front, hfront⟩ := h
  obtain ⟨back, hback, hne, -⟩ := h'
  exact (hfront.trans hback).consumes hc (by simp [hne])

end Cursor

namespace Production

variable {σ : Type} {c c' : Cursor} {context : Context}

/-! ### Repeating without a test -/

/-- Repeats a round until it is done, whether or not it moves the cursor; `none` if it is not done
within a number of rounds. -/
def loopWithin (round : σ → Production (ForInStep σ)) :
    Nat → σ → Cursor → Option (EStateM.Result SyntaxError Cursor σ)
  | 0, _, _ => none
  | bound + 1, state, c =>
    match round state c with
    | .error error c' => some (.error error c')
    | .ok (.done state') c' => some (.ok state' c')
    | .ok (.yield state') c' => loopWithin round bound state' c'

/-- Rounds that advance are done before they have been repeated as often as bytes are left. -/
theorem loopWithin_eq {round : σ → Production (ForInStep σ)} (h : Advances round)
    (hc : c.Placed) {bound : Nat} (hbound : c.left < bound) (state : σ) :
    loopWithin round bound state c = some (loop round state c) := by
  induction bound generalizing state c with
  | zero => omega
  | succ bound ih =>
    cases hround : round state c with
    | error error c' => rw [loopWithin, hround, loop_of_error hround]
    | ok result c' =>
      cases result with
      | done state' => rw [loopWithin, hround, loop_of_done hround]
      | yield state' =>
        obtain ⟨hc', hleft⟩ := h.left_lt hc hround
        rw [loopWithin, hround, loop_of_yield hround hleft]
        exact ih hc' (by omega) state'

/-! ### The loops of the grammar -/

/-- The rounds that the grammar repeats. -/
inductive Repeats (context : Context) : {σ : Type} → (σ → Production (ForInStep σ)) → Prop
  /-- Whitespace is skipped. -/
  | whitespace : Repeats context fun (_ : Unit) => do
      if ← accept .whitespace then return .yield () else return .done ()
  /-- Double quotes are passed over. -/
  | quotes : Repeats context fun (quoted : Bool) => do
      if ← accept .doubleQuote then return .yield (!quoted) else return .done quoted
  /-- The tokens of a name in braces. -/
  | bracedName (opener : Lexeme) : Repeats context (bracedNameRound opener)
  /-- The lexemes of a run of text. -/
  | text (quoted : Bool) : Repeats context (textRound quoted)
  /-- The parts of a word. -/
  | parts : Repeats context (partsRound context)
  /-- The words of a list. -/
  | words : Repeats context (wordsRound context)
  /-- The assignments of a command. -/
  | assignments : Repeats context (assignmentsRound context)
  /-- The redirections and runs of words of a command. -/
  | command : Repeats context (commandRound context)
  /-- The commands of a pipeline. -/
  | pipeline : Repeats context (pipelineRound context)
  /-- The statements of a script. -/
  | script : Repeats context (scriptRound context)

theorem acceptRound_advances {kind : TokenKind} (hkind : kind ≠ .stop) (more : σ → σ) :
    Advances fun state => do
      if ← accept kind then return .yield (more state) else return .done state where
  orderly state := orderly_acceptRound hkind _ _
  ne_nil hc hround hpasses := by
    obtain ⟨accepted, c₁, haccept, hround⟩ := bind_eq_ok_iff.1 hround
    rcases (accept_eq_ok_iff hkind).1 haccept with ⟨-, rfl, hstep⟩ | ⟨-, rfl, -⟩
    · obtain ⟨-, rfl⟩ := EStateM.Result.ok.inj hround
      simp [hpasses.unique hstep hc]
    · exact absurd (EStateM.Result.ok.inj hround).1 (by simp)

theorem textRound_advances (quoted : Bool) : Advances (textRound quoted) where
  orderly := orderly_textRound quoted
  ne_nil hc hround hpasses := by
    rw [textRound_eq_passWhile hc] at hround
    exact (passWhile_advances stopsAtEnd_textOf?).ne_nil hc hround hpasses

/-- Whatever the grammar repeats brings the cursor forward when it goes on. -/
theorem Repeats.advances (hcontext : ContextOrderly context)
    {round : σ → Production (ForInStep σ)} (h : Repeats context round) : Advances round := by
  cases h with
  | whitespace => exact acceptRound_advances (by simp) id
  | quotes => exact acceptRound_advances (by simp) Bool.not
  | bracedName opener => exact bracedNameRound_advances opener
  | text quoted => exact textRound_advances quoted
  | parts => exact partsRound_advances hcontext
  | words => exact (wordsRound_gathers hcontext).toAdvances
  | assignments => exact (assignmentsRound_gathers hcontext).toAdvances
  | command => exact commandRound_advances hcontext
  | pipeline => exact (pipelineRound_gathers hcontext).toAdvances
  | script => exact (scriptRound_gathers hcontext).toAdvances

theorem Advances.consumes {round : σ → Production (ForInStep σ)} (h : Advances round)
    {state state' : σ} (hc : c.Placed) (hround : round state c = .ok (.yield state') c') :
    c.Consumes c' := by
  obtain ⟨lexemes, hpasses⟩ := (h.orderly state hc).passes hround
  exact hpasses.consumes hc (h.ne_nil hc hround hpasses)

end Production

end CommandSyntax
