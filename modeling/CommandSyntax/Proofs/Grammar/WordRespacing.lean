import CommandSyntax.Proofs.Grammar.Beside
import CommandSyntax.Proofs.Grammar.WordSuccess
import CommandSyntax.Proofs.Script.Spans

/-!
# CommandSyntax.Proofs.Grammar.WordRespacing

**Words with another layout around them.** A word is read in the same way at both of two cursors
that stand beside each other, part by part (`carries_word?`), and so is a run of words
(`carries_words`). In double quotes and between braces the place is closed, and there is nothing but
the same lexemes. Outside of them no part of a word begins with a lexeme next to which there may be
blanks, so a word ends in front of such blanks as it ends in front of that lexeme.

What words need of the scripts in their substitutions is `ScriptsCarry`.
-/

namespace CommandSyntax.Production

open Cursor

variable {σ : Type} {last : List Frame → Prop} {frames : List Frame}
  {loose quoted inBackticks : Bool} {kind : TokenKind} {context : Context}
  {c c' c₁ d d₁ : Cursor}

/-! ### Runs of lexemes -/

/-- A loop that passes lexemes does so at both cursors when it looks at no layout. Blanks and what
they may stand in front of end it, unless the place is closed. -/
theorem carries_passWhile {tally? : σ → Lexeme → Option σ} (frames : σ → List Frame)
    (hstop : StopsAtEnd tally?)
    (hsome : ∀ {tally tally' : σ} {lexeme : Lexeme}, tally? tally lexeme = some tally' →
      Frame.pass (frames tally) lexeme.kind = frames tally' ∧
        (Frame.isOpen (frames tally') = true → lexeme.kind ∉ separators))
    (halike : ∀ {tally : σ} {lexeme lexeme' : Lexeme},
      lexeme.Alike (frames tally) lexeme' →
        tally? tally lexeme' = tally? tally lexeme)
    (hnone : ∀ {tally : σ} {lexeme : Lexeme}, Frame.isOpen (frames tally) = true →
      lexeme.kind = .whitespace ∨ isBorder lexeme.kind = true → tally? tally lexeme = none)
    {tally : σ} (h : Beside last ⟨frames tally, false⟩ c d) {tally' : σ}
    (hloop : loop (passWhile tally?) tally c = .ok tally' c') :
    ∃ d', loop (passWhile tally?) tally d = .ok tally' d' ∧
      Beside last ⟨frames tally', false⟩ c' d' := by
  have hadvances := passWhile_advances hstop
  simp only [loop_eq_ok_iff hadvances h.placed, loop_eq_ok_iff hadvances h.placed'] at hloop ⊢
  induction hloop generalizing d with
  | done hround =>
    obtain ⟨htally, rfl, rfl⟩ := passWhile_eq_done_iff.1 hround
    refine ⟨d, .done (passWhile_eq_done_iff.2 ⟨?_, rfl, rfl⟩), h⟩
    rcases h.level_or with hlevel | ⟨hopen, -, -, hkind, -⟩
    · rw [halike hlevel.alike, htally]
    · exact hnone hopen (.inl hkind)
  | yield hround _ ih =>
    obtain ⟨htally, hstep⟩ := (passWhile_eq_yield_iff hstop).1 hround
    obtain ⟨hpass, hseparator⟩ := hsome htally
    rcases h.level_or with hlevel | ⟨hopen, -, hborder, -⟩
    · obtain ⟨d₁, hstep', h₁⟩ := hlevel.step hstep
      rw [hpass] at h₁
      obtain ⟨d', hloops, h'⟩ := ih (h₁.mono fun hopen hloose =>
        absurd (by simpa using hloose) (hseparator hopen))
      refine ⟨d', .yield ((passWhile_eq_yield_iff hstop).2 ⟨?_, hstep'⟩) hloops, h'⟩
      rw [halike hlevel.alike, htally]
    · simp [hnone hopen (.inr (by simpa using hborder))] at htally

/-- Double quotes are passed by both, and both are then inside or outside of them. -/
theorem carries_toggleQuotes (hopen : Frame.isOpen frames = true)
    (h : Beside last ⟨Frame.within quoted frames, false⟩ c d) {quoted' : Bool}
    (htoggle : toggleQuotes quoted c = .ok quoted' c') :
    ∃ d', toggleQuotes quoted d = .ok quoted' d' ∧
      Beside last ⟨Frame.within quoted' frames, false⟩ c' d' := by
  rw [toggleQuotes_eq_loop] at htoggle ⊢
  refine carries_passWhile (Frame.within · frames) ?_ ?_ ?_ ?_ h htoggle
  · intro _ _ lexeme h hstop
    simp [hstop] at h
  · intro quoted quoted' lexeme h
    obtain ⟨hkind, hquoted⟩ := Option.ite_none_right_eq_some.1 h
    rw [hkind, Frame.pass_doubleQuote hopen, Option.some.inj hquoted]
    exact ⟨rfl, fun _ => by decide⟩
  · intro quoted lexeme lexeme' h
    rw [h.kind_eq]
  · intro quoted lexeme hopen hkind
    refine if_neg fun hquote => ?_
    simp [hquote, isBorder, separators] at hkind

theorem textOf?_congr {lexeme lexeme' : Lexeme} (hkind : lexeme'.kind = lexeme.kind)
    (htext : lexeme'.text = lexeme.text) : textOf? quoted lexeme' = textOf? quoted lexeme := by
  simp only [textOf?, hkind, htext]

/-- Text opens and closes nothing, and outside double quotes it separates nothing. -/
theorem notMem_of_isText (h : isText quoted kind = true) :
    kind ∉ Frame.brackets ∧ (quoted = false → kind ∉ .whitespace :: .stop :: separators) := by
  cases kind <;> cases quoted <;> simp_all [isText, Frame.brackets, separators]

/-- What a lexeme means as text does not depend on the layout. -/
theorem textOf?_of_alike {lexeme lexeme' : Lexeme}
    (h : lexeme.Alike (Frame.within quoted frames) lexeme') :
    textOf? quoted lexeme' = textOf? quoted lexeme := by
  by_cases htext : isText quoted lexeme.kind = true
  · refine textOf?_congr h.kind_eq (h.text_eq fun hopen => ?_)
    have hkind := (notMem_of_isText htext).2 (Frame.eq_false_of_isOpen_within hopen)
    simp only [separators, List.mem_cons, List.not_mem_nil, not_or] at hkind ⊢
    tauto
  · rw [Bool.not_eq_true] at htext
    rw [textOf?_eq_none_iff.2 htext, textOf?_eq_none_iff.2 (h.kind_eq ▸ htext)]

/-- A run of text is the same for both. -/
theorem carries_text? (h : Beside last ⟨Frame.within quoted frames, false⟩ c d) :
    Carries (text? quoted) id (Beside last ⟨Frame.within quoted frames, false⟩) c d := by
  intro part c' htext
  rw [text?_eq_bind h.placed] at htext
  rw [text?_eq_bind h.placed']
  obtain ⟨text, c₁, hloop, hpure⟩ := bind_eq_ok_iff.1 htext
  obtain ⟨rfl, rfl⟩ := EStateM.Result.ok.inj hpure
  have hisText {lexeme : Lexeme} {text text' : List Char}
      (h : (textOf? quoted lexeme).map (text ++ ·) = some text') :
      isText quoted lexeme.kind = true := by
    obtain ⟨piece, hpiece, -⟩ := Option.map_eq_some_iff.1 h
    by_contra hkind
    simp [textOf?_eq_none_iff.2 (by simpa using hkind)] at hpiece
  obtain ⟨d₁, hloop', h₁⟩ : ∃ d₁, _ ∧ Beside last ⟨Frame.within quoted frames, false⟩ c₁ d₁ := by
    refine carries_passWhile (fun _ => Frame.within quoted frames) ?_ ?_ ?_ ?_ h hloop
    · intro _ _ lexeme h hstop
      simpa [hstop, isText] using hisText h
    · intro _ _ lexeme h
      obtain ⟨hbracket, hseparator⟩ := notMem_of_isText (hisText h)
      refine ⟨Frame.pass_of_notMem hbracket _, fun hopen hmem => ?_⟩
      exact hseparator (Frame.eq_false_of_isOpen_within hopen) (by simp [hmem])
    · intro _ lexeme lexeme' h
      rw [textOf?_of_alike h]
    · intro _ lexeme hopen hkind
      by_contra hsome
      obtain ⟨text', htext⟩ := Option.ne_none_iff_exists'.1 hsome
      have := (notMem_of_isText (hisText htext)).2 (Frame.eq_false_of_isOpen_within hopen)
      simp [isBorder] at this hkind
      tauto
  exact ⟨_, d₁, bind_eq_ok_iff.2 ⟨text, d₁, hloop', rfl⟩, rfl, h₁⟩

/-! ### Parameters and substitutions -/

/-- In a closed place the same lexemes are passed by both. -/
theorem passes_of_closed (hclosed : Frame.isOpen frames = false) {lexemes : List Lexeme}
    (hkeeps : ∀ lexeme ∈ lexemes, Frame.pass frames lexeme.kind = frames)
    (h : Level last frames c d) (hpasses : c.Passes lexemes c₁) :
    ∃ lexemes' d₁, d.Passes lexemes' d₁ ∧ lexemes'.map Lexeme.kind = lexemes.map Lexeme.kind ∧
      lexemes'.map Lexeme.text = lexemes.map Lexeme.text ∧ Level last frames c₁ d₁ := by
  induction lexemes generalizing c d with
  | nil =>
    obtain rfl := passes_nil_iff.1 hpasses
    exact ⟨[], d, .nil d, rfl, rfl, h⟩
  | cons lexeme lexemes ih =>
    obtain ⟨rfl, c₂, hstep, hrest⟩ := passes_cons_iff_step.1 hpasses
    obtain ⟨hkeep, hkeeps⟩ := List.forall_mem_cons.1 hkeeps
    obtain ⟨d₂, hstep', h₂⟩ := h.step hstep
    rw [hkeep] at h₂
    obtain ⟨lexemes', d₁, hpasses', hkinds, htexts, h₁⟩ :=
      ih hkeeps (h₂.level_of_closed hclosed) hrest
    have halike := h.alike
    refine ⟨d.current :: lexemes', d₁, hstep'.trans hpasses', ?_, ?_, h₁⟩
    · rw [List.map_cons, List.map_cons, h.kind_eq, hkinds]
    · rw [List.map_cons, List.map_cons, halike.text_eq (by simp [hclosed]), htexts]

/-- A parameter in braces is the same for both. -/
theorem carries_bracedParameter (hopen : Frame.isOpen frames = true)
    (h : Level last (Frame.within quoted frames) c d) :
    Carries bracedParameter id (Beside last ⟨Frame.within quoted frames, false⟩) c d := by
  intro part c' hbraced
  obtain ⟨opener, body, closer, hpasses, hopener, hne, hbody, hcloser, rfl⟩ :=
    (bracedParameter_eq_ok_iff h.placed).1 hbraced
  obtain ⟨rfl, c₁, hstep, hrest⟩ := passes_cons_iff_step.1 hpasses
  obtain ⟨c₂, hinside, hlast⟩ := passes_append_iff.1 hrest
  obtain ⟨d₁, hstep', h₁⟩ := h.step hstep
  rw [hopener, Frame.pass_opener hopen rfl (by simp) (by simp)] at h₁
  -- between the braces everything is the same
  obtain ⟨body', d₂, hinside', hkinds, htexts, h₂⟩ :=
    passes_of_closed rfl (fun lexeme hmem => Frame.pass_braces (hbody lexeme hmem) _)
      (h₁.level_of_closed rfl) hinside
  obtain ⟨-, rfl, -⟩ := passes_cons_iff.1 hlast
  obtain ⟨d', hlast', h'⟩ := h₂.step hlast
  rw [hcloser] at h'
  have hne' : body' ≠ [] := by
    rintro rfl
    exact hne (List.map_eq_nil_iff.1 hkinds.symm)
  have hbody' : ∀ lexeme ∈ body', lexeme.kind ≠ .rightBrace := by
    have hmap : ∀ kind ∈ body'.map Lexeme.kind, kind ≠ .rightBrace := by
      simpa [hkinds] using hbody
    simpa using hmap
  have hbraced' := (bracedParameter_eq_ok_iff h.placed').2
    ⟨d.current, body', d₂.current, hstep'.trans (hinside'.trans hlast'),
      h.kind_eq.trans hopener, hne', hbody', h₂.kind_eq.trans hcloser, rfl⟩
  refine ⟨_, d', hbraced', ?_, h'⟩
  rw [List.flatMap_def, htexts, ← List.flatMap_def]

/-- Scripts of a context are the same for both, up to spans, and behind them both stand on lexemes
of the same kind. -/
def ScriptsCarry (last : List Frame → Prop) (context : Context) : Prop :=
  ∀ script, context.script? = some script → ∀ ⦃inBackticks frames⦄,
    Frame.Suits inBackticks frames → ∀ ⦃c d⦄, Beside last ⟨frames, true⟩ c d →
      Carries (script inBackticks) (Script.mapSpans eraseSpan) (Level last frames) c d

/-- A substitution is the same for both when its script is. -/
theorem carries_substitution (hscripts : ScriptsCarry last context) (frame : Frame)
    {opening : TokenKind} (hopening : opening ≠ .stop)
    (hpass : Frame.pass (Frame.within quoted frames) opening = frame :: Frame.within quoted frames)
    (hsuits : Frame.Suits inBackticks (frame :: Frame.within quoted frames))
    (hborder : frame.closer ∉ separators)
    (h : Level last (Frame.within quoted frames) c d) :
    Carries (substitution context opening frame.closer inBackticks) (Part.mapSpans eraseSpan)
      (Beside last ⟨Frame.within quoted frames, false⟩) c d := by
  have hclosing : frame.closer ≠ .stop := by cases frame <;> simp [Frame.closer]
  intro part c' hsubstitution
  obtain ⟨script, c₁, body, c₂, hscript, hkind, hopener, hbody, hkind', hcloser, rfl⟩ :=
    (substitution_eq_ok_iff hopening hclosing).1 hsubstitution
  obtain ⟨d₁, hopener', h₁⟩ := h.step hopener
  rw [hkind, hpass] at h₁
  obtain ⟨body', d₂, hbody', hmeaning, h₂⟩ :=
    hscripts script hscript hsuits h₁.loosen hbody
  obtain ⟨d', hcloser', h'⟩ := h₂.step hcloser
  rw [hkind', Frame.pass_closer, List.contains_eq_mem, decide_eq_false hborder] at h'
  have hsubstitution' := (substitution_eq_ok_iff hopening hclosing).2
    ⟨script, d₁, body', d₂, hscript, h.kind_eq.trans hkind, hopener', hbody',
      h₂.kind_eq.trans hkind', hcloser', rfl⟩
  refine ⟨_, d', hsubstitution', ?_, h'⟩
  rw [Part.mapSpans, Part.mapSpans, hmeaning]

/-! ### Parts -/

section Words

variable (hscripts : ScriptsCarry last context) (hsuits : Frame.Suits context.inBackticks frames)
include hscripts hsuits

/-- A part is the same for both. -/
theorem carries_part? (h : Beside last ⟨Frame.within quoted frames, false⟩ c d) :
    Carries (part? context quoted) (Option.map (Part.mapSpans eraseSpan))
      (Beside last ⟨Frame.within quoted frames, false⟩) c d := by
  intro part c' hpart
  have hlevel (hborder : isBorder c.current.kind = false) := h.level_of_isBorder_eq_false hborder
  have hgives {part' : Option Part} {d' : Cursor} (hat : PartAt context quoted d part' d') :
      part? context quoted d = .ok part' d' := hat.part?_eq_ok h.placed'
  cases (part?_eq_ok_iff h.placed).1 hpart with
  | parameter hkind hpasses =>
    have hlevel := hlevel (by rw [hkind]; rfl)
    obtain ⟨d', hpasses', h'⟩ := hlevel.step_of_notMem hpasses (by rw [hkind]; decide)
    refine ⟨_, d', hgives (.parameter (hlevel.kind_eq.trans hkind) hpasses'), ?_, h'⟩
    rw [hlevel.alike.text_eq fun _ => by simp [hkind]]
  | braced hkind hbraced =>
    have hlevel := hlevel (by rw [hkind]; rfl)
    obtain ⟨part', d', hbraced', rfl, h'⟩ :=
      carries_bracedParameter hsuits.isOpen_eq hlevel hbraced
    exact ⟨_, d', hgives (.braced (hlevel.kind_eq.trans hkind) hbraced'), rfl, h'⟩
  | backticks hkind hcontext hsubstitution =>
    have hlevel := hlevel (by rw [hkind]; rfl)
    obtain ⟨part', d', hsubstitution', hmeaning, h'⟩ :=
      carries_substitution hscripts .backticks (by simp)
        (Frame.pass_opener hsuits.isOpen_eq rfl (by simp) (fun _ => hsuits.notMem hcontext) quoted)
        ⟨rfl, by simp⟩ (by decide) hlevel hsubstitution
    exact ⟨_, d', hgives (.backticks (hlevel.kind_eq.trans hkind) hcontext hsubstitution'),
      congrArg some hmeaning, h'⟩
  | parentheses hkind hsubstitution =>
    have hlevel := hlevel (by rw [hkind]; rfl)
    obtain ⟨part', d', hsubstitution', hmeaning, h'⟩ :=
      carries_substitution hscripts .parentheses (by simp)
        (Frame.pass_opener hsuits.isOpen_eq rfl (by simp) (by simp) quoted)
        hsuits.parentheses (by decide) hlevel hsubstitution
    exact ⟨_, d', hgives (.parentheses (hlevel.kind_eq.trans hkind) hsubstitution'),
      congrArg some hmeaning, h'⟩
  | star hquoted hkind hpasses =>
    have hlevel := hlevel (by rw [hkind]; rfl)
    obtain ⟨d', hpasses', h'⟩ := hlevel.step_of_notMem hpasses (by rw [hkind]; decide)
    exact ⟨_, d', hgives (.star hquoted (hlevel.kind_eq.trans hkind) hpasses'), rfl, h'⟩
  | one hquoted hkind hpasses =>
    have hlevel := hlevel (by rw [hkind]; rfl)
    obtain ⟨d', hpasses', h'⟩ := hlevel.step_of_notMem hpasses (by rw [hkind]; decide)
    exact ⟨_, d', hgives (.one hquoted (hlevel.kind_eq.trans hkind) hpasses'), rfl, h'⟩
  | charset hquoted hkind hpasses =>
    have hlevel := hlevel (by rw [hkind]; rfl)
    obtain ⟨d', hpasses', h'⟩ := hlevel.step_of_notMem hpasses (by rw [hkind]; decide)
    refine ⟨_, d', hgives (.charset hquoted (hlevel.kind_eq.trans hkind) hpasses'), ?_, h'⟩
    rw [hlevel.alike.text_eq fun _ => by simp [hkind]]
  | text hkind htext =>
    obtain ⟨part', d', htext', rfl, h'⟩ := carries_text? h htext
    refine ⟨_, d', hgives (.text ?_ htext'), rfl, h'⟩
    rcases h.level_or with hlevel | ⟨-, -, -, hblank, -⟩
    · rw [hlevel.kind_eq, hkind]
    · rw [hblank]
      rfl

/-! ### Words -/

omit hscripts hsuits in
/-- No word goes on with a lexeme next to which there may be blanks. -/
theorem inWord_of_isBorder (h : isBorder kind = true) : inWord inBackticks kind = false := by
  cases kind <;> simp_all [isBorder, separators, inWord, startsPart, isText]

theorem carries_endsWord (h : Beside last ⟨Frame.within quoted frames, false⟩ c d)
    (hends : EndsWord context.inBackticks quoted c c') :
    ∃ d', EndsWord context.inBackticks quoted d d' ∧ Beside last ⟨frames, false⟩ c' d' := by
  have hround : partsRound context ⟨[], quoted⟩ c = .ok (.done ⟨[], false⟩) c' :=
    (partsRound_eq_done_iff h.placed).2 ⟨rfl, hends⟩
  obtain ⟨quoted₁, c₁, htoggle, hround⟩ := bind_eq_ok_iff.1 hround
  obtain ⟨part, c₂, hpart, hround⟩ := bind_eq_ok_iff.1 hround
  obtain ⟨d₁, htoggle', h₁⟩ := carries_toggleQuotes hsuits.isOpen_eq h htoggle
  obtain ⟨part', d₂, hpart', hmeaning, h₂⟩ := carries_part? hscripts hsuits h₁ hpart
  cases part with
  | some part => simp at hround
  | none =>
    obtain rfl : part' = none := by simpa using hmeaning
    cases quoted₁ with
    | true =>
      obtain ⟨_, _, -, hround⟩ := bind_eq_ok_iff.1 hround
      simp at hround
    | false =>
      obtain ⟨-, rfl⟩ := EStateM.Result.ok.inj hround
      have hround' : partsRound context ⟨[], quoted⟩ d = .ok (.done ⟨[], false⟩) d₂ :=
        bind_eq_ok_iff.2 ⟨false, d₁, htoggle', bind_eq_ok_iff.2 ⟨none, d₂, hpart', rfl⟩⟩
      exact ⟨d₂, ((partsRound_eq_done_iff h.placed').1 hround').2, h₂⟩

theorem carries_partsFrom {parts : List Part}
    (h : Beside last ⟨Frame.within quoted frames, false⟩ c d)
    (hparts : PartsFrom context quoted c parts c') :
    ∃ parts' d', PartsFrom context quoted d parts' d' ∧
      parts'.map (Part.mapSpans eraseSpan) = parts.map (Part.mapSpans eraseSpan) ∧
      Beside last ⟨frames, false⟩ c' d' := by
  induction hparts generalizing d with
  | done hends =>
    obtain ⟨d', hends', h'⟩ := carries_endsWord hscripts hsuits h hends
    exact ⟨[], d', .done hends', rfl, h'⟩
  | part htoggle hpart _ ih =>
    obtain ⟨d₁, htoggle', h₁⟩ := carries_toggleQuotes hsuits.isOpen_eq h htoggle
    obtain ⟨part', d₂, hpart', hmeaning, h₂⟩ := carries_part? hscripts hsuits h₁ hpart
    obtain ⟨part', rfl, hpartMeaning⟩ := Option.map_eq_some_iff.1 hmeaning
    obtain ⟨parts', d', hrest', hrestMeaning, h'⟩ := ih h₂
    refine ⟨part' :: parts', d', .part htoggle' hpart' hrest', ?_, h'⟩
    rw [List.map_cons, List.map_cons, hpartMeaning, hrestMeaning]

/-- A word is the same for both. -/
theorem carries_word? (hcontext : ContextOrderly context)
    (h : Beside last ⟨frames, false⟩ c d) :
    Carries (word? context) (Option.map (Word.mapSpans eraseSpan))
      (Beside last ⟨frames, false⟩) c d := by
  have houtside : Beside last ⟨Frame.within false frames, false⟩ c d := h
  intro word c' hword
  cases word with
  | none =>
    have hends := (word?_eq_none_iff hcontext h.placed).1 hword
    obtain ⟨d', hends', h'⟩ := carries_endsWord hscripts hsuits houtside hends
    exact ⟨none, d', (word?_eq_none_iff hcontext h.placed').2 hends', rfl, h'⟩
  | some word =>
    obtain ⟨hparts, hne, -⟩ := (word?_eq_some_iff hcontext h.placed).1 hword
    obtain ⟨parts', d', hparts', hmeaning, h'⟩ :=
      carries_partsFrom hscripts hsuits houtside hparts
    have hne' : parts' ≠ [] := by
      rintro rfl
      exact hne (List.map_eq_nil_iff.1 hmeaning.symm)
    refine ⟨some ⟨parts', ⟨d.current.start, d'.lastEnd⟩⟩, d',
      (word?_eq_some_iff hcontext h.placed').2 ⟨hparts', hne', rfl⟩, ?_, h'⟩
    obtain ⟨parts, span⟩ := word
    simp only [Option.map_some, Word.mapSpans, Part.listMapSpans_eq, hmeaning]
    rfl

/-- Words are the same for both. The second cursor may come to blanks behind the last of them, and
look for one more word. -/
theorem carries_words (hcontext : ContextOrderly context) (h : Beside last ⟨frames, false⟩ c d) :
    Carries (words context) (List.map (Word.mapSpans eraseSpan)) (Beside last ⟨frames, false⟩)
      c d := by
  intro run c' hwords
  have hgathers := (words_eq_ok_iff hcontext h.placed).1 hwords
  have hword {c d : Cursor} (h : Beside last ⟨frames, false⟩ c d) :=
    carries_word? hscripts hsuits hcontext h
  obtain ⟨run', d', hgathers', hmeaning, h'⟩ : ∃ run' d',
      Gathers (MoreWords context) (LastWords context) d run' d' ∧
      run'.map (Word.mapSpans eraseSpan) = run.map (Word.mapSpans eraseSpan) ∧
      Beside last ⟨frames, false⟩ c' d' := by
    refine carries_gathers ?_ ?_ h hgathers
    · rintro c d c' _ h ⟨word, c₁, rfl, hfirst, hkind, hskip⟩
      obtain ⟨word', d₁, hfirst', hmeaning, h₁⟩ := hword h hfirst
      obtain ⟨word', rfl, hsame⟩ := Option.map_eq_some_iff.1 hmeaning
      obtain ⟨d', hskip', hlevel⟩ := h₁.skips hskip
      have hkind' : d₁.current.kind = .whitespace := by
        rcases h₁.level_or with hlevel | ⟨-, -, -, hblank, -⟩
        · rw [hlevel.kind_eq, hkind]
        · exact hblank
      exact ⟨[word'], d', ⟨word', d₁, rfl, hfirst', hkind', hskip'⟩, by simp [hsame],
        hlevel.toBeside⟩
    · rintro c d c' _ h (⟨rfl, hnone⟩ | ⟨word, rfl, hfirst, hkind⟩)
      · obtain ⟨word', d', hnone', hmeaning, h'⟩ := hword h hnone
        obtain rfl := Option.map_eq_none_iff.1 hmeaning
        exact ⟨[], d', .done (.inl ⟨rfl, hnone'⟩), rfl, h'⟩
      · obtain ⟨word', d₁, hfirst', hmeaning, h₁⟩ := hword h hfirst
        obtain ⟨word', rfl, hsame⟩ := Option.map_eq_some_iff.1 hmeaning
        rcases h₁.level_or with hlevel | ⟨-, -, hborder, hblank, d', hskip, hlevel⟩
        · exact ⟨[word'], d₁, .done (.inr ⟨word', rfl, hfirst', hlevel.kind_eq ▸ hkind⟩),
            by simp [hsame], h₁⟩
        · -- behind the blanks no word begins
          have hends : inWord context.inBackticks d'.current.kind = false := by
            rw [hlevel.kind_eq]
            exact inWord_of_isBorder (by simpa using hborder)
          have hnone := word?_of_inWord_eq_false hcontext hlevel.placed' hends
          exact ⟨[word'] ++ [], d', .yield ⟨word', d₁, rfl, hfirst', hblank, hskip⟩
            (.done (.inl ⟨rfl, hnone⟩)), by simp [hsame], hlevel.toBeside⟩
  exact ⟨run', d', (words_eq_ok_iff hcontext h.placed').2 hgathers', hmeaning, h'⟩

end Words

end CommandSyntax.Production
