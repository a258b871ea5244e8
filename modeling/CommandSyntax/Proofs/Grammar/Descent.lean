import CommandSyntax.Proofs.Grammar.Progress

/-!
# CommandSyntax.Proofs.Grammar.Descent

**Scripts inside scripts are read further on.** A context hands its words the production of the
scripts one level deeper, and a word runs it behind the token that opens a substitution. So what
the grammar makes of a cursor does not depend on what that production does before a lexeme is
consumed (`Descends`, `descends_scriptIn`).

Design points:

* Two contexts are compared at a cursor (`Context.AgreesAt`). They go on agreeing wherever a
  production that reads in order leads, so each production is a chain of `AgreesAt.bind`, and the
  one step at which something is consumed is the opening of a substitution.
* The levels of nesting are spent on the input: any number of levels beyond the bytes that are
  left is as good as any other (`script_eq_of_left_lt`).
-/

namespace CommandSyntax

open Cursor Production

/-- Two contexts that agree on everything but the scripts one level deeper, and on these wherever
at least one lexeme is consumed before. -/
structure Context.AgreesAt (context context' : Context) (c : Cursor) : Prop where
  /-- The first context reads scripts in order. -/
  orderly : ContextOrderly context
  /-- The cursor is placed. -/
  placed : c.Placed
  /-- Errors report the same limit. -/
  limit_eq : context'.limit = context.limit
  /-- Both stand in backticks, or neither does. -/
  inBackticks_eq : context'.inBackticks = context.inBackticks
  /-- Scripts one level deeper are read alike further on. -/
  scripts : ∀ c', c.Consumes c' → ∀ inBackticks,
    context.script?.map (· inBackticks c') = context'.script?.map (· inBackticks c')

/-- What a production makes of a cursor depends on the scripts one level deeper only behind a
lexeme that it consumes first. -/
def Production.Descends {α : Type} (p : Context → Production α) : Prop :=
  ∀ ⦃context context' c⦄, context.AgreesAt context' c → p context c = p context' c

/-! ### Ways of building productions -/

namespace Context.AgreesAt

variable {α β σ : Type} {context context' : Context} {c c' : Cursor}

theorem mono (h : context.AgreesAt context' c) (hreaches : c.Reaches c') :
    context.AgreesAt context' c' where
  orderly := h.orderly
  placed := hreaches.placed h.placed
  limit_eq := h.limit_eq
  inBackticks_eq := h.inBackticks_eq
  scripts c₂ hconsumes := h.scripts c₂ (hreaches.consumes hconsumes h.placed)

/-- Two productions in a row: the contexts still agree where the first one leads. -/
theorem bind (h : context.AgreesAt context' c) {p p' : Production α}
    {next next' : α → Production β} (horderly : OrderlyAt p c) (hp : p c = p' c)
    (hnext : ∀ value c', context.AgreesAt context' c' → next value c' = next' value c') :
    (p >>= next) c = (p' >>= next') c :=
  bind_congr_at hp fun value c' hok => hnext value c' (h.mono (horderly.passes hok))

theorem map (h : context.AgreesAt context' c) (f : α → β) {p p' : Production α}
    (horderly : OrderlyAt p c) (hp : p c = p' c) : (f <$> p) c = (f <$> p') c := by
  rw [← bind_pure_comp, ← bind_pure_comp]
  exact h.bind horderly hp fun _ _ _ => rfl

end Context.AgreesAt

namespace Production

variable {β σ : Type}

/-- A loop descends when its rounds do. -/
theorem descends_loop {round : Context → σ → Production (ForInStep σ)}
    (horderly : ∀ {context}, ContextOrderly context → ∀ state, Orderly (round context state))
    (hround : ∀ state, Descends (round · state)) (state : σ) :
    Descends fun context => loop (round context) state := by
  intro context context' c h
  show loop (round context) state c = loop (round context') state c
  refine loop_congr (context.AgreesAt context') (fun {state _ _ _} hagrees hresult => ?_)
    (fun state _ hagrees => hround state hagrees) state h
  exact hagrees.mono ((horderly hagrees.orderly state hagrees.placed).passes hresult)

theorem descends_loop_bind {round : Context → σ → Production (ForInStep σ)}
    (horderly : ∀ {context}, ContextOrderly context → ∀ state, Orderly (round context state))
    (hround : ∀ state, Descends (round · state)) (state : σ) (next : σ → Production β) :
    Descends fun context => loop (round context) state >>= next := by
  intro context context' c h
  exact h.bind (orderly_loop (horderly h.orderly) state h.placed)
    (descends_loop horderly hround state h) fun _ _ _ => rfl

/-! ### Words -/

/-- The body of a substitution is read behind the opening token. -/
theorem descends_substitution {opening : TokenKind} (hopening : opening ≠ .stop)
    (closing : TokenKind) (inBackticks : Bool) :
    Descends (substitution · opening closing inBackticks) := by
  intro context context' c h
  refine bind_congr_at rfl fun opener c₁ hok => ?_
  have hpasses := ((require_eq_ok_iff hopening).1 hok).2.2
  have hconsumes := hpasses.consumes h.placed (by simp)
  have hscripts := h.scripts c₁ hconsumes inBackticks
  rw [h.limit_eq]
  cases hscript : context.script? with
  | none =>
    rw [hscript, Option.map_none, eq_comm, Option.map_eq_none_iff] at hscripts
    rw [hscripts]
  | some script =>
    rw [hscript, Option.map_some, eq_comm, Option.map_eq_some_iff] at hscripts
    obtain ⟨script', hscript', heq⟩ := hscripts
    rw [hscript']
    exact bind_congr_at heq.symm fun _ _ _ => rfl

theorem descends_part? (quoted : Bool) : Descends (part? · quoted) := by
  intro context context' c h
  have hsubstitution {opening closing : TokenKind} (hopening : opening ≠ .stop)
      (hclosing : closing ≠ .stop) (inBackticks : Bool) :
      (some <$> substitution context opening closing inBackticks) c =
        (some <$> substitution context' opening closing inBackticks) c :=
    h.map some (orderly_substitution h.orderly hopening hclosing inBackticks h.placed)
      (descends_substitution hopening closing inBackticks h)
  simp only [part?, current_bind_apply, h.inBackticks_eq]
  cases c.current.kind with
  | backtick =>
    split
    · rfl
    · exact hsubstitution (by simp) (by simp) true
  | startSubstitution => exact hsubstitution (by simp) (by simp) context.inBackticks
  | _ => cases quoted <;> rfl

theorem descends_partsRound (read : PartsRead) : Descends (partsRound · read) := by
  intro context context' c h
  refine h.bind (orderly_toggleQuotes read.quoted h.placed) rfl fun quoted c₁ h₁ => ?_
  exact h₁.bind (orderly_part? h.orderly quoted h₁.placed) (descends_part? quoted h₁)
    fun _ _ _ => rfl

theorem descends_parts : Descends parts :=
  descends_loop_bind orderly_partsRound descends_partsRound _ _

theorem descends_word? : Descends word? := by
  intro context context' c h
  simp only [word?, current_bind_apply]
  exact h.bind (orderly_parts h.orderly h.placed) (descends_parts h) fun _ _ _ => rfl

theorem descends_wordsRound (words : List Word) : Descends (wordsRound · words) := by
  intro context context' c h
  exact h.bind (orderly_word? h.orderly h.placed) (descends_word? h) fun _ _ _ => rfl

theorem descends_words : Descends words :=
  descends_loop_bind orderly_wordsRound descends_wordsRound _ _

/-! ### Commands -/

theorem descends_assignment : Descends assignment := by
  intro context context' c h
  simp only [assignment, current_bind_apply]
  refine h.bind (orderly_tokenText (by simp) 0 1 [] h.placed) rfl fun name c₁ h₁ => ?_
  exact h₁.bind (orderly_word? h.orderly h₁.placed) (descends_word? h₁) fun _ _ _ => rfl

theorem descends_assignmentsRound (assignments : List Assignment) :
    Descends (assignmentsRound · assignments) := by
  intro context context' c h
  refine h.bind (orderly_skipWhitespace h.placed) rfl fun _ c₁ h₁ => ?_
  simp only [current_bind_apply]
  split
  · exact h₁.bind (orderly_assignment h.orderly h₁.placed) (descends_assignment h₁)
      fun _ _ _ => rfl
  · rfl

theorem descends_assignments : Descends assignments :=
  descends_loop_bind orderly_assignmentsRound descends_assignmentsRound _ _

theorem target_congr {context context' : Context} {c : Cursor} (h : context.AgreesAt context' c)
    (hkind : c.current.kind ≠ .stop) : target context c = target context' c := by
  refine h.bind (orderlyAt_take hkind) rfl fun operator c₁ h₁ => ?_
  refine h₁.bind (orderly_skipWhitespace h₁.placed) rfl fun _ c₂ h₂ => ?_
  exact h₂.bind (orderly_word? h.orderly h₂.placed) (descends_word? h₂) fun _ _ _ => rfl

theorem descends_commandRound (command : Command) : Descends (commandRound · command) := by
  intro context context' c h
  refine h.bind (orderly_skipWhitespace h.placed) rfl fun _ c₁ h₁ => ?_
  simp only [current_bind_apply]
  cases hkind : Redirection.ofKind? c₁.current.kind with
  | some redirection =>
    have hne := kind_ne_stop_of_ofKind? hkind
    exact h₁.bind (orderlyAt_target h.orderly h₁.placed hne) (target_congr h₁ hne)
      fun _ _ _ => rfl
  | none => exact h₁.bind (orderly_words h.orderly h₁.placed) (descends_words h₁) fun _ _ _ => rfl

theorem descends_command? : Descends command? := by
  intro context context' c h
  refine h.bind (orderly_skipWhitespace h.placed) rfl fun _ c₁ h₁ => ?_
  simp only [current_bind_apply]
  refine h₁.bind (orderly_assignments h.orderly h₁.placed) (descends_assignments h₁)
    fun assignments c₂ h₂ => ?_
  exact descends_loop_bind orderly_commandRound descends_commandRound _ _ h₂

/-! ### Pipelines, statements and scripts -/

theorem descends_stage? : Descends stage? := by
  intro context context' c h
  refine h.bind (orderly_skipWhitespace h.placed) rfl fun _ c₁ h₁ => ?_
  simp only [current_bind_apply]
  cases c₁.current.kind with
  | stop => rfl
  | pipe => rfl
  | _ =>
    exact h₁.bind (orderly_command? h.orderly h₁.placed) (descends_command? h₁) fun _ _ _ => rfl

theorem descends_pipelineRound (commands : List Command) :
    Descends (pipelineRound · commands) := by
  intro context context' c h
  refine h.bind (orderly_accept (by simp) h.placed) rfl fun accepted c₁ h₁ => ?_
  split
  · exact h₁.bind (orderly_stage? h.orderly h₁.placed) (descends_stage? h₁) fun _ _ _ => rfl
  · rfl

theorem descends_pipeline? : Descends pipeline? := by
  intro context context' c h
  refine h.bind (orderly_stage? h.orderly h.placed) (descends_stage? h) fun first c₁ h₁ => ?_
  cases first with
  | none => rfl
  | some first =>
    exact descends_loop_bind orderly_pipelineRound descends_pipelineRound _ _ h₁

theorem descends_statement? : Descends statement? := by
  intro context context' c h
  exact h.bind (orderly_pipeline? h.orderly h.placed) (descends_pipeline? h) fun _ _ _ => rfl

theorem descends_scriptRound (statements : List Statement) :
    Descends (scriptRound · statements) := by
  intro context context' c h
  refine h.bind (orderly_skipWhitespace h.placed) rfl fun _ c₁ h₁ => ?_
  simp only [current_bind_apply]
  split
  · rfl
  · exact h₁.bind (orderly_statement? h.orderly h₁.placed) (descends_statement? h₁)
      fun _ _ _ => rfl

/-- What a script is read as depends on the scripts inside it only further on. -/
theorem descends_scriptIn : Descends scriptIn := by
  intro context context' c h
  simp only [scriptIn, current_bind_apply]
  exact descends_loop_bind orderly_scriptRound descends_scriptRound _ _ h

/-! ### Levels of nesting -/

/-- Whatever agrees with the scripts one level deeper further on can stand in for them. -/
theorem script_succ_eq {limit levels : Nat} {inBackticks : Bool} {c : Cursor} (hc : c.Placed)
    {body : Bool → Production Script}
    (hbody : ∀ c', c.Consumes c' → ∀ inBackticks,
      script limit levels inBackticks c' = body inBackticks c') :
    script limit (levels + 1) inBackticks c = scriptIn ⟨limit, inBackticks, some body⟩ c :=
  descends_scriptIn {
    orderly := levelContext_orderly limit (levels + 1) inBackticks
    placed := hc
    limit_eq := rfl
    inBackticks_eq := rfl
    scripts c' hconsumes inBackticks := congrArg some (hbody c' hconsumes inBackticks) }

/-- Levels beyond the bytes that are left do not matter. -/
theorem script_eq_of_left_lt {limit levels levels' : Nat} {c : Cursor} (hc : c.Placed)
    (h : c.left < levels) (h' : c.left < levels') (inBackticks : Bool) :
    script limit levels inBackticks c = script limit levels' inBackticks c := by
  induction levels generalizing levels' c inBackticks with
  | zero => omega
  | succ levels ih =>
    obtain ⟨levels', rfl⟩ : ∃ n, levels' = n + 1 := ⟨levels' - 1, by omega⟩
    refine script_succ_eq hc fun c' hconsumes inBackticks => ?_
    have hleft := hconsumes.left_lt hc
    exact ih (hconsumes.reaches.placed hc) (by omega) (by omega) inBackticks

end Production

end CommandSyntax
