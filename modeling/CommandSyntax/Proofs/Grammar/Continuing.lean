import CommandSyntax.Proofs.Grammar.Following

/-!
# CommandSyntax.Proofs.Grammar.Continuing

**A script in front of its terminator.** Two simulations relate the stream of a text with a
stream of which it is a part: `inFront` puts a token that ends scripts in the place of the end,
and `behind` puts other text before it.

A leader that reads a script up to its end is followed up to the terminator. There the follower
goes on if the terminator ends a statement, and is done if it closes the script
(`loop_in_front`).
-/

namespace CommandSyntax

open Production Cursor

variable {n : Nat} {stream : TokenStream}

/-! ### Streams that are parts of others -/

namespace TokenStream

theorem shift_glue_ne_failed {tail : TokenStream} (h : ∀ error, stream ≠ .failed error)
    (htail : ∀ error, tail ≠ .failed error) (error : ScanError) :
    (stream.shift n).glue tail ≠ .failed error := by
  cases stream with
  | finished position => exact htail error
  | failed error' => exact absurd rfl (h error')
  | next lexeme rest => simp [shift, glue]

/-- The lexemes of a stream do not include a backtick. -/
def Tickless (stream : TokenStream) : Prop := ∀ lexeme ∈ stream.lexemes, lexeme.kind ≠ .backtick

theorem Tickless.of_next {lexeme : Lexeme} {rest : TokenStream}
    (h : (next lexeme rest).Tickless) : rest.Tickless :=
  fun other hmem => h other (List.mem_cons_of_mem lexeme hmem)

end TokenStream

/-- The leader's text stands in front of a token that ends scripts. -/
def inFront (size n extra : Nat) (ticks : Bool) (lexeme : Lexeme) (rest : TokenStream)
    (hstart : lexeme.start = size + n) (hstops : stops true lexeme.kind = true)
    (hstop : lexeme.kind ≠ .stop) : Simulation where
  shift := n
  extra := extra
  last := lexeme.kind
  ticks := ticks
  Along stream stream' := (∃ position, stream.Tiles size position) ∧
    (ticks = false → stream.Tickless) ∧ stream' = (stream.shift n).glue (.next lexeme rest)
  Astray _ := False
  Lost _ := True
  stops_last := hstops
  along_next := by
    intro lexeme' rest' stream' ⟨⟨position, htiles⟩, hticks, hstream'⟩
    refine ⟨_, hstream', fun _ _ => .inl trivial, fun hrest => ⟨?_, .inl ?_⟩⟩
    · exact TokenStream.shift_glue_ne_failed hrest (by simp)
    · cases htiles with
      | next _ hrest => exact ⟨⟨_, hrest⟩, fun hfalse => (hticks hfalse).of_next, rfl⟩
  along_finished := by
    intro position stream' ⟨⟨position', htiles⟩, _, hstream'⟩
    cases htiles with
    | finished => exact .inr ⟨hstop, lexeme, rest, hstream', rfl, hstart⟩
  astray_next h := h.elim
  lost_of_astray_next h := h.elim
  lost_of_astray_finished h := h.elim
  lost_of_last _ _ := trivial
  ticks_of_backtick := by
    intro lexeme' rest' h hkind
    rcases h with h | ⟨stream', -, hticks, -⟩
    · exact h.elim
    · cases hfalse : ticks with
      | true => rfl
      | false => exact absurd hkind (hticks hfalse lexeme' List.mem_cons_self)

/-- Where the leader stands at its end, the follower stands on the terminator. -/
theorem inFront_current {size extra : Nat} {ticks : Bool} {lexeme : Lexeme} {rest : TokenStream}
    {hstart : lexeme.start = size + n} {hstops : stops true lexeme.kind = true}
    {hstop : lexeme.kind ≠ .stop} {c c' : Cursor}
    (h : (inFront size n extra ticks lexeme rest hstart hstops hstop).InStep c c')
    (hend : c.current.kind = .stop) : c'.current = lexeme ∧ c'.ahead = rest := by
  obtain ⟨-, -, hstream⟩ := h.along
  rw [h.placed.stream_of_stop hend] at hstream
  have hkind : c'.current.kind ≠ .stop := fun hkind => by
    simp [h.placed'.stream_of_stop hkind, TokenStream.shift, TokenStream.glue] at hstream
  rw [stream_of_ne_stop hkind] at hstream
  exact TokenStream.next.inj hstream

/-- The leader's text stands behind some other text. -/
def behind (n : Nat) : Simulation where
  shift := n
  extra := 0
  last := .stop
  ticks := true
  Along stream stream' := stream' = stream.shift n
  Astray _ := False
  Lost _ := False
  stops_last := stops_stop
  along_next := by
    intro lexeme rest stream' hstream'
    refine ⟨rest.shift n, hstream', fun error hrest => .inr ?_, fun hrest => ⟨?_, .inl rfl⟩⟩
    · rw [hrest, TokenStream.shift]
    · cases rest with
      | finished | next => simp [TokenStream.shift]
      | failed error => exact absurd rfl (hrest error)
  along_finished hstream' := .inl ⟨rfl, hstream'⟩
  astray_next h := h.elim
  lost_of_astray_next h := h.elim
  lost_of_astray_finished h := h.elim
  lost_of_last hlast := absurd rfl hlast
  ticks_of_backtick _ _ := rfl

/-! ### The statements in front of a terminator -/

namespace Production

variable {context context' : Context} {read read' : List Statement} {c c₁ c₂ c₃ d : Cursor}

/-- Goes on with the statements of a script where one of them ends. -/
def resume (context : Context) (read : List Statement) : Production (List Statement) := do
  if ← accept .statementEnd then loop (scriptRound context) read else return read

theorem resume_of_take {lexeme : Lexeme} (hkind : c.current.kind = .statementEnd)
    (htake : take c = .ok lexeme d) :
    resume context read c = loop (scriptRound context) read d := by
  have haccept : accept .statementEnd c = .ok true d := by
    rw [accept_of_kind_eq hkind, bind_of_eq_ok _ htake, pure_apply]
  exact bind_of_eq_ok _ haccept

theorem resume_of_take_error {error : SyntaxError} (hkind : c.current.kind = .statementEnd)
    (htake : take c = .error error d) : resume context read c = .error error d := by
  have haccept : accept .statementEnd c = .error error d := by
    rw [accept_of_kind_eq hkind, bind_of_eq_error _ htake]
  exact bind_of_eq_error _ haccept

theorem resume_of_kind_ne (hkind : c.current.kind ≠ .statementEnd) :
    resume context read c = .ok read c :=
  bind_of_eq_ok _ (accept_of_kind_ne hkind)

/-- A round of a script goes up to the token that ends its statement. What comes then depends
on that token. -/
theorem loop_eq_resume (hcontext : ContextOrderly context) (hc : c.Placed)
    {statement : Option Statement} (hskip : c.Skips c₁) (hkind : c₁.current.kind ≠ .stop)
    (hstatement : statement? context c₁ = .ok statement c₂) (hskip' : c₂.Skips c₃) :
    loop (scriptRound context) read c = resume context (statement.toList ++ read) c₃ := by
  have hc₁ := hskip.placed hc
  obtain ⟨lexemes, hpasses⟩ := (orderly_statement? hcontext hc₁).passes hstatement
  have hc₂ := hpasses.placed hc₁
  have hc₃ := hskip'.placed hc₂
  have hround : scriptRound context read c =
      (accept .statementEnd >>= fun accepted =>
        if accepted then pure (.yield (statement.toList ++ read))
        else pure (.done (statement.toList ++ read)) : Production _) c₃ := by
    rw [scriptRound, bind_of_eq_ok _ ((skipWhitespace_eq_ok_iff hc).2 hskip),
      current_bind_apply, if_neg hkind, bind_of_eq_ok _ hstatement,
      bind_of_eq_ok _ ((skipWhitespace_eq_ok_iff hc₂).2 hskip')]
  rw [resume]
  cases haccept : accept .statementEnd c₃ with
  | error error c₄ =>
    rw [bind_of_eq_error _ haccept] at hround ⊢
    exact loop_of_error hround
  | ok accepted c₄ =>
    rw [bind_of_eq_ok _ haccept] at hround ⊢
    cases accepted with
    | false => exact loop_of_done hround
    | true =>
      refine loop_of_yield hround ?_
      -- the terminator is behind everything that the statement has passed
      obtain ⟨blanks, hblanks, -⟩ := hskip
      obtain ⟨blanks', hblanks', -⟩ := hskip'
      obtain ⟨-, -, hstep⟩ | ⟨-, hfalse, -⟩ := (accept_eq_ok_iff (by simp)).1 haccept
      · have hpassage := ((hblanks.trans hpasses).trans hblanks').trans hstep
        exact hpassage.left_lt hc (by simp)
      · simp at hfalse

end Production

namespace Simulation

variable {sim : Simulation} {context context' : Context} {read read' : List Statement}
  {c c' c₁ c₂ c₃ d : Cursor}

theorem InStep.skips (h : sim.InStep c c') (hastray : ∀ stream, ¬ sim.Astray stream)
    (hskip : c.Skips d) : ∃ d', c'.Skips d' ∧ sim.InStep d d' := by
  have hok := (skipWhitespace_eq_ok_iff h.placed).2 hskip
  rcases follows_skipWhitespace.eq_ok h hok with hstrays | ⟨d', hok', hstep⟩
  · exact absurd hstrays.astray (hastray _)
  · exact ⟨d', (skipWhitespace_eq_ok_iff h.placed').1 hok', hstep⟩

/-- A statement of the leader is followed up to the token behind it. -/
theorem InStep.loop_eq_resume (h : sim.InStep c c') (hastray : ∀ stream, ¬ sim.Astray stream)
    (hfollows : sim.ContextFollows context context') (hcontext' : ContextOrderly context')
    {statement : Option Statement} (hskip : c.Skips c₁) (hkind : c₁.current.kind ≠ .stop)
    (hstatement : statement? context c₁ = .ok statement c₂) (hskip' : c₂.Skips c₃) :
    ∃ c₃', sim.InStep c₃ c₃' ∧ ∀ before read,
      loop (scriptRound context') (moveStatements sim.move before read) c' =
        resume context' (moveStatements sim.move before (statement.toList ++ read)) c₃' := by
  obtain ⟨c₁', hc₁', hstep₁⟩ := h.skips hastray hskip
  rcases (follows_statement? hfollows).eq_ok hstep₁ hstatement with
    hstrays | ⟨c₂', hstatement', hstep₂⟩
  · exact absurd hstrays.astray (hastray _)
  obtain ⟨c₃', hc₃', hstep₃⟩ := hstep₂.skips hastray hskip'
  have hkind' : c₁'.current.kind ≠ .stop := by
    rwa [(hstep₁.ahead hkind).1, Lexeme.kind_shift]
  refine ⟨c₃', hstep₃, fun before read => ?_⟩
  rw [Production.loop_eq_resume hcontext' h.placed' hc₁' hkind' hstatement' hc₃',
    toList_map_append_moveStatements]

/-- **A script is followed up to its terminator.** When the leader's statements reach up to its
end, the follower's statements are the same up to the token that stands there. -/
theorem loop_in_front (hlast : sim.last ≠ .stop) (hastray : ∀ stream, ¬ sim.Astray stream)
    (hfollows : sim.ContextFollows context context') (hcontext : ContextOrderly context)
    (hcontext' : ContextOrderly context') (hloops : Loops (scriptRound context) read c read' d)
    (hstop : d.current.kind = .stop) (hstep : sim.InStep c c') (before : List Statement) :
    ∃ d', sim.InStep d d' ∧ loop (scriptRound context') (moveStatements sim.move before read) c' =
      resume context' (moveStatements sim.move before read') d' := by
  have hreverse (statement : Option Statement) :
      statement.toList.reverse = statement.toList := by cases statement <;> rfl
  induction hloops generalizing c' with
  | @done read read' c d hround =>
    obtain ⟨items, hitems, rfl⟩ := (scriptRound_eq_done_iff hcontext hstep.placed).1 hround
    rcases hitems with ⟨rfl, hskip, -⟩ |
      ⟨statement, c₁, c₂, rfl, hskip, hkind, hstatement, hskip', -⟩
    · -- the follower finds nothing in front of the terminator
      obtain ⟨d', hd', hstep'⟩ := hstep.skips hastray hskip
      have hkind := hstep'.kind_eq_last hstop
      have hstops : stops context'.inBackticks d'.current.kind = true := by
        rw [hkind]
        exact hfollows.stops_last
      have hne : d'.current.kind ≠ .stop := by rwa [hkind]
      refine ⟨d', hstep', ?_⟩
      rw [Production.loop_eq_resume hcontext' hstep.placed' hd' hne
        (statement?_of_stops hcontext' hstep'.placed' hstops hne)
        (skips_self (ne_of_ends (ends_of_stops hstops)).1)]
      rfl
    · obtain ⟨d', hstep', hloop⟩ := hstep.loop_eq_resume hastray hfollows hcontext' hskip hkind
        hstatement hskip'
      exact ⟨d', hstep', by rw [hloop, hreverse]⟩
  | @yield read read₁ read' c c₄ d hround hrest ih =>
    obtain ⟨items, hitems, rfl⟩ := (scriptRound_eq_yield_iff hcontext hstep.placed).1 hround
    obtain ⟨statement, c₁, c₂, c₃, rfl, hskip, hkind, hstatement, hskip', hend, hpasses⟩ := hitems
    obtain ⟨c₃', hstep', hloop⟩ := hstep.loop_eq_resume hastray hfollows hcontext' hskip hkind
      hstatement hskip'
    -- the follower passes the same end of a statement
    have hend' : c₃.current.kind ≠ .stop := by simp [hend]
    obtain ⟨c₄', htake, hstep₄ | hstrays⟩ :=
      hstep'.take_ok hend' ((take_eq_ok_iff hend').2 ⟨rfl, hpasses⟩)
    · obtain ⟨d', hd', hloop'⟩ := ih hstop hstep₄
      refine ⟨d', hd', ?_⟩
      have hend'' : c₃'.current.kind = .statementEnd := by
        rw [(hstep'.ahead hend').1, Lexeme.kind_shift, hend]
      rw [hloop, resume_of_take hend'' htake, ← hreverse statement]
      exact hloop'
    · exact absurd hstrays.astray (hastray _)

end Simulation

end CommandSyntax
