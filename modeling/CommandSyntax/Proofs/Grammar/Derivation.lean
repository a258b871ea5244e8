import CommandSyntax.Proofs.Grammar.Ahead

/-!
# CommandSyntax.Proofs.Grammar.Derivation

**What a script passes is a list of the grammar.** A production that succeeds on a tame
cursor has passed a member of the language of its symbol: words by `PartsFrom.eats`,
commands by `eats_of_command?`, and scripts by `eats_of_script`, where the number of
levels is the depth of nesting.
-/

namespace CommandSyntax.Production

open Cursor Computability

variable {c c' : Cursor} {context : Context} {bodies : Bool → Grammar.Kinds} {quoted : Bool}

/-- The scripts of a context pass members of some languages. -/
def Derives (context : Context) (bodies : Bool → Grammar.Kinds) : Prop :=
  ∀ script, context.script? = some script → ∀ inBackticks c body c', c.Tame →
    script inBackticks c = .ok body c' → c.Eats (bodies inBackticks) c'

/-! ### Parts -/

/-- One part of a word, inside or outside double quotes. -/
def unit (bodies : Bool → Grammar.Kinds) (inBackticks : Bool) : (quoted : Bool) → Grammar.Kinds
  | false => Grammar.bare bodies inBackticks
  | true => Grammar.quoted bodies inBackticks

theorem reference_le_unit {inBackticks : Bool} :
    Grammar.reference bodies inBackticks ≤ unit bodies inBackticks quoted := by
  cases quoted
  · exact le_add_right le_self_add
  · exact le_self_add

theorem mem_unit_of_isText {inBackticks : Bool} {kind : TokenKind}
    (h : isText quoted kind = true) : [kind] ∈ unit bodies inBackticks quoted := by
  cases quoted
  · exact .inr ⟨kind, by cases kind <;> simp_all [isText], rfl⟩
  · exact .inr ⟨kind, by cases kind <;> simp_all [isText], rfl⟩

theorem eats_of_substitution (hbodies : Derives context bodies) (hc : c.Tame)
    {opening closing : TokenKind} (hopening : opening ≠ .stop) (hclosing : closing ≠ .stop)
    {inBackticks : Bool} {part : Part}
    (h : substitution context opening closing inBackticks c = .ok part c') :
    c.Eats (Grammar.token opening * bodies inBackticks * Grammar.token closing) c' := by
  obtain ⟨script, c₁, body, c₂, hscript, hkind, hopener, hbody, hkind', hcloser, -⟩ :=
    (substitution_eq_ok_iff hopening hclosing).1 h
  have hinner := hbodies script hscript inBackticks c₁ body c₂ (hc.passes hopener) hbody
  exact ((hkind ▸ hopener.eats).mul hinner).mul (hkind' ▸ hcloser.eats)

theorem eats_of_bracedParameter (hc : c.Placed) {part : Part}
    (h : bracedParameter c = .ok part c') : c.Eats Grammar.expansion c' := by
  obtain ⟨opener, body, closer, hpasses, hopener, hne, hbody, hcloser, -⟩ :=
    (bracedParameter_eq_ok_iff hc).1 h
  have hname : body.map Lexeme.kind ∈
      Grammar.anyBut .rightBrace * (Grammar.anyBut .rightBrace)∗ := by
    refine Grammar.mem_plus_of_forall (by simpa using hne) fun kind hmem => ?_
    obtain ⟨lexeme, hlexeme, rfl⟩ := List.mem_map.1 hmem
    exact ⟨_, hbody lexeme hlexeme, rfl⟩
  refine ⟨_, hpasses, ?_⟩
  rw [List.map_cons, List.map_append, hopener]
  exact ⟨_, ⟨_, rfl, _, hname, rfl⟩, _, congrArg (fun kind => [kind]) hcloser, rfl⟩

/-- What a part passes are parts of the grammar, several when it is a run of text. -/
theorem eats_of_part? (hbodies : Derives context bodies) (hc : c.Tame) {part : Part}
    (h : part? context quoted c = .ok (some part) c') :
    c.Eats (unit bodies context.inBackticks quoted *
      (unit bodies context.inBackticks quoted)∗) c' := by
  have hreference {language : Grammar.Kinds} (h : c.Eats language c')
      (hle : language ≤ Grammar.reference bodies context.inBackticks) :
      c.Eats (unit bodies context.inBackticks quoted *
        (unit bodies context.inBackticks quoted)∗) c' :=
    (h.mono (hle.trans reference_le_unit)).plus
  have hglob (hquoted : quoted = false) (hpasses : c.Passes [c.current] c')
      (hmem : c.current.kind ∈ [TokenKind.globStar, .globOne, .globCharset]) :
      c.Eats (unit bodies context.inBackticks quoted *
        (unit bodies context.inBackticks quoted)∗) c' := by
    subst hquoted
    refine (hpasses.eats.mono ?_).plus
    rintro _ rfl
    exact .inl (.inr ⟨_, hmem, rfl⟩)
  cases (part?_eq_ok_iff hc.placed).1 h with
  | parameter hkind hpasses =>
    exact hreference (hkind ▸ hpasses.eats) (le_add_right le_self_add)
  | braced _ h =>
    exact hreference (eats_of_bracedParameter hc.placed h) (le_add_right le_add_self)
  | backticks hkind hcontext h =>
    refine hreference (eats_of_substitution hbodies hc (by simp) (by simp) h) ?_
    refine le_add_left (le_add_left ?_)
    rw [if_neg (by simp [hcontext])]
  | parentheses hkind h =>
    exact hreference (eats_of_substitution hbodies hc (by simp) (by simp) h)
      (le_add_left le_self_add)
  | star hquoted hkind hpasses => exact hglob hquoted hpasses (by simp [hkind])
  | one hquoted hkind hpasses => exact hglob hquoted hpasses (by simp [hkind])
  | charset hquoted hkind hpasses => exact hglob hquoted hpasses (by simp [hkind])
  | text _ h =>
    obtain ⟨lexemes, hpasses, hne, htext⟩ := passes_of_text?_eq_some hc.placed h
    refine ⟨lexemes, hpasses, Grammar.mem_plus_of_forall (by simpa using hne) fun kind hmem => ?_⟩
    obtain ⟨lexeme, hlexeme, rfl⟩ := List.mem_map.1 hmem
    exact mem_unit_of_isText (htext lexeme hlexeme)

/-! ### Words -/

/-- The rest of a word: segments, after the rest of the quotation that is open. -/
def tail (bodies : Bool → Grammar.Kinds) (inBackticks : Bool) : (quoted : Bool) → Grammar.Kinds
  | false => (Grammar.segment bodies inBackticks)∗
  | true => (Grammar.quoted bodies inBackticks)∗ * Grammar.token .doubleQuote *
      (Grammar.segment bodies inBackticks)∗

theorem units_le_tail_false {inBackticks : Bool} :
    unit bodies inBackticks false * (unit bodies inBackticks false)∗ *
        tail bodies inBackticks false ≤ tail bodies inBackticks false := by
  have hunit : unit bodies inBackticks false ≤ Grammar.segment bodies inBackticks := le_self_add
  exact Grammar.mul_le_kstar (Grammar.mul_le_kstar (hunit.trans le_kstar) (kstar_mono hunit)) le_rfl

theorem units_le_tail_true {inBackticks : Bool} :
    unit bodies inBackticks true * (unit bodies inBackticks true)∗ *
        tail bodies inBackticks true ≤ tail bodies inBackticks true := by
  simp only [unit, tail, ← mul_assoc]
  exact mul_le_mul_left (mul_le_mul_left
    (Grammar.mul_le_kstar (Grammar.mul_le_kstar le_kstar le_rfl) le_rfl) _) _

/-- A quote and what is left of the quotation are a segment. -/
theorem quotation_le_tail_false {inBackticks : Bool} :
    Grammar.token .doubleQuote * (unit bodies inBackticks true *
        (unit bodies inBackticks true)∗ * tail bodies inBackticks true) ≤
      tail bodies inBackticks false := by
  have hsegment : Grammar.token .doubleQuote * (Grammar.quoted bodies inBackticks *
      (Grammar.quoted bodies inBackticks)∗) * Grammar.token .doubleQuote ≤
        Grammar.segment bodies inBackticks := le_add_self
  calc Grammar.token .doubleQuote * (unit bodies inBackticks true *
        (unit bodies inBackticks true)∗ * tail bodies inBackticks true)
      = Grammar.token .doubleQuote * (Grammar.quoted bodies inBackticks *
          ((Grammar.quoted bodies inBackticks)∗ * (Grammar.quoted bodies inBackticks)∗)) *
          Grammar.token .doubleQuote * (Grammar.segment bodies inBackticks)∗ := by
        simp only [unit, tail, mul_assoc]
    _ ≤ (Grammar.segment bodies inBackticks)∗ := by
        rw [kstar_mul_kstar]
        exact Grammar.mul_le_kstar (hsegment.trans le_kstar) le_rfl

theorem quote_le_tail_true {inBackticks : Bool} :
    Grammar.token .doubleQuote * tail bodies inBackticks false ≤ tail bodies inBackticks true :=
  mul_le_mul_left (le_mul_of_one_le_left' one_le_kstar) _

theorem eats_of_endsWord (hc : c.Tame) {inBackticks : Bool}
    (h : EndsWord inBackticks quoted c c') : c.Eats (tail bodies inBackticks quoted) c' := by
  obtain ⟨quotes, blanks, hpasses, hquotes, hodd, hblank, -⟩ := h.passes
  obtain ⟨c₁, hfront, hback⟩ := passes_append_iff.1 hpasses
  -- ahead of a tame cursor there is no text that stands for nothing, and no pair of quotes
  obtain rfl := (hc.passes hfront).eq_nil_of_blank hback hblank
  obtain rfl := passes_nil_iff.1 hback
  have hlength := hc.length_le_one_of_quotes hfront hquotes
  match quotes, hlength with
  | [], _ =>
    obtain rfl : quoted = false := hodd
    exact ⟨[], hfront, Language.nil_mem_kstar _⟩
  | [quote], _ =>
    obtain rfl : quoted = true := hodd
    refine ⟨[quote], hfront, [.doubleQuote],
      ⟨[], Language.nil_mem_kstar _, [.doubleQuote], rfl, rfl⟩, [], Language.nil_mem_kstar _, ?_⟩
    rw [List.map_singleton, hquotes quote (by simp)]
    rfl

/-- What is passed from a cursor within a word to the end of the word. -/
theorem PartsFrom.eats (hbodies : Derives context bodies) (hc : c.Tame) {parts : List Part}
    (h : PartsFrom context quoted c parts c') :
    c.Eats (tail bodies context.inBackticks quoted) c' := by
  induction h with
  | done hends => exact eats_of_endsWord hc hends
  | @part quoted quoted₁ c c₁ c₂ c' part parts htoggle hpart _ ih =>
    obtain ⟨quotes, hquotes, hall, -, hquoted₁⟩ := (toggleQuotes_eq_ok_iff hc.placed).1 htoggle
    have hc₁ := hc.passes hquotes
    have hunits := eats_of_part? hbodies hc₁ hpart
    have hrest := ih (hc₁.reaches hunits.reaches)
    have hlength := hc.length_le_one_of_quotes hquotes hall
    match quotes, hlength with
    | [], _ =>
      -- no quote: the part stands where the cursor was
      obtain rfl := passes_nil_iff.1 hquotes
      obtain rfl : quoted₁ = quoted := by simpa using hquoted₁
      cases quoted₁ with
      | false => exact (hunits.mul hrest).mono units_le_tail_false
      | true => exact (hunits.mul hrest).mono units_le_tail_true
    | [quote], _ =>
      -- the quote opens a quotation, or it closes the one that is open
      obtain ⟨rfl, -⟩ := passes_cons_iff_step.1 hquotes
      have hquote := hquotes.eats
      rw [hall _ List.mem_cons_self] at hquote
      obtain rfl : quoted₁ = !quoted := by simpa using hquoted₁
      cases quoted with
      | false => exact (hquote.mul (hunits.mul hrest)).mono quotation_le_tail_false
      | true =>
        exact (hquote.mul ((hunits.mul hrest).mono units_le_tail_false)).mono quote_le_tail_true

theorem eats_of_word? (hcontext : ContextOrderly context) (hbodies : Derives context bodies)
    (hc : c.Tame) {word : Word} (h : word? context c = .ok (some word) c') :
    c.Eats (Grammar.argument bodies context.inBackticks) c' := by
  obtain ⟨lexemes, hlexemes, hne⟩ := passes_of_word?_eq_some hcontext hc.placed h
  obtain ⟨hparts, -⟩ := (word?_eq_some_iff hcontext hc.placed).1 h
  obtain ⟨lexemes', hlexemes', hmem⟩ := hparts.eats hbodies hc
  obtain rfl := hlexemes.unique hlexemes' hc.placed
  exact ⟨lexemes, hlexemes, Grammar.mem_plus_of_mem_kstar (by simpa using hne) hmem⟩

/-- Where no word stands, nothing is passed and no lexeme goes on with a word. -/
theorem eq_of_endsWord (hc : c.Tame) {inBackticks : Bool}
    (h : EndsWord inBackticks false c c') :
    c = c' ∧ inWord inBackticks c'.current.kind = false := by
  obtain ⟨quotes, blanks, hpasses, hquotes, hodd, hblank, hend⟩ := h.passes
  obtain ⟨c₁, hfront, hback⟩ := passes_append_iff.1 hpasses
  obtain rfl := (hc.passes hfront).eq_nil_of_blank hback hblank
  obtain rfl := passes_nil_iff.1 hback
  match quotes, hc.length_le_one_of_quotes hfront hquotes with
  | [], _ => exact ⟨passes_nil_iff.1 hfront, hend rfl⟩
  | [_], _ => simp at hodd

/-! ### Commands -/

theorem Gathers.eats {α : Type} {more last : Cursor → List α → Cursor → Prop}
    {language : Grammar.Kinds}
    (hmore : ∀ {c items c'}, c.Tame → more c items c' → c.Eats language∗ c')
    (hlast : ∀ {c items c'}, c.Tame → last c items c' → c.Eats language∗ c')
    (hc : c.Tame) {items : List α} (h : Gathers more last c items c') :
    c.Eats language∗ c' := by
  induction h with
  | done h => exact hlast hc h
  | yield h _ ih =>
    have hfirst := hmore hc h
    exact hfirst.star_trans (ih (hc.reaches hfirst.reaches))

section Flat

variable (hcontext : ContextOrderly context) (hbodies : Derives context bodies)
include hcontext hbodies

theorem eats_of_words (hc : c.Tame) {run : List Word} (h : words context c = .ok run c') :
    c.Eats (Grammar.flat bodies context.inBackticks)∗ c' := by
  refine Gathers.eats (fun hc hmore => ?_) (fun hc hlast => ?_) hc
    ((words_eq_ok_iff hcontext hc.placed).1 h)
  · obtain ⟨word, c₁, -, hword, -, hskip⟩ := hmore
    exact ((eats_of_word? hcontext hbodies hc hword).mul hskip.eats).mono
      (Grammar.mul_le_kstar Grammar.argument_le_flat Grammar.blanks_le_flat)
  · rcases hlast with ⟨-, hword⟩ | ⟨word, -, hword, -⟩
    · obtain ⟨rfl, -⟩ := eq_of_endsWord hc ((word?_eq_none_iff hcontext hc.placed).1 hword)
      exact .nil (Language.nil_mem_kstar _) _
    · exact (eats_of_word? hcontext hbodies hc hword).mono Grammar.argument_le_flat

theorem eats_of_assignment (hc : c.Tame) {result : Assignment}
    (h : assignment context c = .ok result c') :
    c.Eats (Grammar.assignment bodies context.inBackticks) c' := by
  obtain ⟨c₁, value, hkind, hname, hvalue, -⟩ := (assignment_eq_ok_iff hc.placed).1 h
  have hc₁ := hc.passes hname
  refine (hkind ▸ hname.eats).mul ?_
  cases value with
  | some word => exact (eats_of_word? hcontext hbodies hc₁ hvalue).mono le_add_self
  | none =>
    obtain ⟨rfl, -⟩ := eq_of_endsWord hc₁ ((word?_eq_none_iff hcontext hc₁.placed).1 hvalue)
    exact .nil (.inl rfl) _

theorem eats_of_commandItem (hc : c.Tame) {command command' : Command}
    (h : CommandItem context c command command' c') :
    c.Eats (Grammar.flat bodies context.inBackticks)∗ c' := by
  cases h with
  | redirection hkind h =>
    obtain ⟨c₁, c₂, hoperator, hskip, hword⟩ :=
      (target_eq_ok_iff hc.placed (kind_ne_stop_of_ofKind? hkind)).1 h
    have hmem : c.current.kind ∈ [TokenKind.readRedirect, .writeRedirect, .appendRedirect] := by
      cases hcurrent : c.current.kind <;> simp_all [Redirection.ofKind?]
    have hc₂ := (hc.passes hoperator).reaches hskip.reaches
    have hle : Grammar.token c.current.kind ≤
        Grammar.oneOf [.readRedirect, .writeRedirect, .appendRedirect] := by
      rintro _ rfl
      exact ⟨_, hmem, rfl⟩
    have hredirect := ((hoperator.eats.mono hle).mul hskip.eats).mul
      (eats_of_word? hcontext hbodies hc₂ hword)
    exact hredirect.mono Grammar.redirect_le_flat
  | words _ _ h => exact eats_of_words hcontext hbodies hc h

theorem eats_of_loops (hc : c.Tame) {command command' : Command}
    (h : Loops (commandRound context) command c command' c') :
    c.Eats (Grammar.flat bodies context.inBackticks)∗ c' := by
  induction h with
  | done hround =>
    obtain ⟨-, c₁, hskip, -, hends⟩ := (commandRound_eq_done_iff hcontext hc.placed).1 hround
    obtain ⟨rfl, -⟩ := eq_of_endsWord (hc.reaches hskip.reaches) hends
    exact hskip.eats.mono Grammar.blanks_le_flat
  | yield hround _ ih =>
    obtain ⟨c₁, hskip, hitem⟩ := (commandRound_eq_yield_iff hc.placed).1 hround
    have hc₁ := hc.reaches hskip.reaches
    have hfirst := (hskip.eats.mul (eats_of_commandItem hcontext hbodies hc₁ hitem)).mono
      (Grammar.mul_le_kstar Grammar.blanks_le_flat le_rfl)
    exact hfirst.star_trans (ih (hc.reaches hfirst.reaches))

theorem eats_of_assignments (hc : c.Tame) {assigned : List Assignment}
    (h : Gathers (MoreAssignments context) LastAssignments c assigned c') :
    c.Eats (Grammar.flat bodies context.inBackticks)∗ c' := by
  refine Gathers.eats (fun hc hmore => ?_) (fun hc hlast => ?_) hc h
  · obtain ⟨result, c₁, -, hskip, hresult⟩ := hmore
    exact (hskip.eats.mul
      (eats_of_assignment hcontext hbodies (hc.reaches hskip.reaches) hresult)).mono
      (Grammar.mul_le_kstar Grammar.blanks_le_flat Grammar.assignment_le_flat)
  · exact hlast.2.1.eats.mono Grammar.blanks_le_flat

/-- A command that is found passes a command of the grammar. -/
theorem eats_of_command? (hc : c.Tame) {command : Command}
    (h : command? context c = .ok (some command) c') :
    c.Eats (Grammar.command bodies context.inBackticks) c' := by
  obtain ⟨c₁, content, hskip, hcontent, hresult⟩ := (command?_eq_ok_iff hcontext hc.placed).1 h
  have hne : content.isEmpty = false := by
    cases hempty : content.isEmpty <;> simp [hempty] at hresult ⊢
  have hc₁ := hc.reaches hskip.reaches
  obtain ⟨lexemes, hlexemes, hlexemesNe⟩ :=
    passes_of_commandContent hcontext hc₁.placed hcontent hne
  obtain ⟨c₂, hassigned, hloops⟩ := hcontent
  have hfront := eats_of_assignments hcontext hbodies hc₁ hassigned
  have hback := eats_of_loops hcontext hbodies (hc₁.reaches hfront.reaches) hloops
  obtain ⟨lexemes', hlexemes', hmem⟩ := hfront.star_trans hback
  obtain rfl := hlexemes.unique hlexemes' hc₁.placed
  -- a flat sequence is a command when one of its tokens is not whitespace: here the first
  obtain ⟨blanks, hblanks, hmemBlanks⟩ := hskip.eats
  refine ⟨blanks ++ lexemes, hblanks.trans hlexemes, ?_⟩
  rw [List.map_append]
  refine Grammar.blanks_mul_command_le (Language.append_mem_mul hmemBlanks ?_)
  obtain ⟨first, lexemes, rfl⟩ := List.exists_cons_of_ne_nil hlexemesNe
  obtain ⟨rfl, -⟩ := passes_cons_iff_step.1 hlexemes
  exact Grammar.mem_command_iff.2 ⟨hmem, _, by simp, hskip.kind_ne⟩

end Flat

/-- Where there is no command only blanks are passed. -/
theorem eats_of_command?_eq_none (hcontext : ContextOrderly context) (hc : c.Tame)
    (h : command? context c = .ok none c') : c.Eats Grammar.blanks c' := by
  obtain ⟨c₁, hskip, -, -, hends⟩ := (command?_eq_none_iff hcontext hc.placed).1 h
  obtain ⟨rfl, -⟩ := eq_of_endsWord (hc.reaches hskip.reaches) hends
  exact hskip.eats

theorem eats_of_stage?_eq_none (hcontext : ContextOrderly context) (hc : c.Tame)
    (h : stage? context c = .ok none c') : c.Eats Grammar.blanks c' := by
  obtain ⟨c₁, c₂, hskip, -, -, hcommand, hskip'⟩ := (stage?_eq_ok_iff hcontext hc.placed).1 h
  have hnone := eats_of_command?_eq_none hcontext (hc.reaches hskip.reaches) hcommand
  exact (hskip.eats.star_trans hnone).star_trans hskip'.eats

/-! ### Pipelines, statements and scripts -/

section Lines

variable (hcontext : ContextOrderly context) (hbodies : Derives context bodies)
include hcontext hbodies

theorem eats_of_stage? (hc : c.Tame) {command : Command}
    (h : stage? context c = .ok (some command) c') :
    c.Eats (Grammar.command bodies context.inBackticks) c' := by
  obtain ⟨c₁, c₂, hskip, -, -, hcommand, hskip'⟩ := (stage?_eq_ok_iff hcontext hc.placed).1 h
  have hfound := eats_of_command? hcontext hbodies (hc.reaches hskip.reaches) hcommand
  exact ((hskip.eats.mul hfound).mono Grammar.blanks_mul_command_le |>.mul hskip'.eats).mono
    Grammar.command_mul_blanks_le

theorem eats_of_stages (hc : c.Tame) {commands : List Command}
    (h : Gathers (MoreStages context) LastStages c commands c') :
    c.Eats (Grammar.token .pipe * Grammar.command bodies context.inBackticks)∗ c' := by
  refine Gathers.eats (fun hc hmore => ?_) (fun hc hlast => ?_) hc h
  · obtain ⟨command, c₁, -, hkind, hbar, hcommand⟩ := hmore
    exact ((hkind ▸ hbar.eats).mul
      (eats_of_stage? hcontext hbodies (hc.passes hbar) hcommand)).mono le_kstar
  · obtain ⟨-, rfl, -⟩ := hlast
    exact .nil (Language.nil_mem_kstar _) _

theorem eats_of_pipeline? (hc : c.Tame) {pipeline : Pipeline}
    (h : pipeline? context c = .ok (some pipeline) c') :
    c.Eats (Grammar.pipeline bodies context.inBackticks) c' := by
  obtain ⟨first, commands, c₁, hfirst, hgathers, -⟩ :=
    (pipeline?_eq_some_iff hcontext hc.placed).1 h
  have hstage := eats_of_stage? hcontext hbodies hc hfirst
  exact hstage.mul (eats_of_stages hcontext hbodies (hc.reaches hstage.reaches) hgathers)

theorem eats_of_statement? (hc : c.Tame) {statement : Statement}
    (h : statement? context c = .ok (some statement) c') :
    c.Eats (Grammar.statement bodies context.inBackticks) c' := by
  obtain ⟨pipeline, background, c₁, c₂, c₃, hpipeline, hskip, haccept, hskip', -⟩ :=
    (statement?_eq_some_iff hcontext hc.placed).1 h
  have hfront := ((eats_of_pipeline? hcontext hbodies hc hpipeline).mul hskip.eats).mono
    Grammar.pipeline_mul_blanks_le
  rcases (accept_eq_ok_iff (by simp)).1 haccept with ⟨hkind, -, hpasses⟩ | ⟨-, -, rfl⟩
  · exact hfront.mul (((hkind ▸ hpasses.eats).mul hskip'.eats).mono le_add_self)
  · exact ((hfront.mul hskip'.eats).mono Grammar.pipeline_mul_blanks_le).mono
      (le_mul_of_one_le_right' le_self_add)

/-- What stands for a statement, with the whitespace around it. -/
theorem eats_of_line {c₁ c₂ : Cursor} (hc : c.Tame) (hskip : c.Skips c₁)
    {statement : Option Statement} (h : statement? context c₁ = .ok statement c₂)
    (hskip' : c₂.Skips c') :
    c.Eats (Grammar.blanks + Grammar.statement bodies context.inBackticks) c' := by
  have hc₁ := hc.reaches hskip.reaches
  have hline : c₁.Eats (Grammar.blanks + Grammar.statement bodies context.inBackticks) c₂ := by
    cases statement with
    | none =>
      exact (eats_of_stage?_eq_none hcontext hc₁ (statement?_eq_none_iff.1 h)).mono le_self_add
    | some statement => exact (eats_of_statement? hcontext hbodies hc₁ h).mono le_add_self
  exact ((hskip.eats.mul hline).mul hskip'.eats).mono Grammar.blanks_mul_line_mul_blanks_le

/-- A script passes a list of the grammar. -/
theorem eats_of_scriptIn (hc : c.Tame) {body : Script} (h : scriptIn context c = .ok body c') :
    c.Eats (Grammar.list bodies context.inBackticks) c' := by
  obtain ⟨statements, hgathers, -⟩ := (scriptIn_eq_ok_iff hcontext hc.placed).1 h
  clear h
  induction hgathers with
  | @done c c' _ hlast =>
    have hline : c.Eats (Grammar.blanks + Grammar.statement bodies context.inBackticks) c' := by
      rcases hlast with ⟨-, hskip, -⟩ | ⟨statement, c₁, c₂, -, hskip, -, hstatement, hskip', -⟩
      · exact hskip.eats.mono le_self_add
      · exact eats_of_line hcontext hbodies hc hskip hstatement hskip'
    exact hline.mono (le_mul_of_one_le_left' one_le_kstar)
  | yield hmore _ ih =>
    obtain ⟨statement, c₁, c₂, c₃, -, hskip, -, hstatement, hskip', hkind, hend⟩ := hmore
    have hround := (eats_of_line hcontext hbodies hc hskip hstatement hskip').mul
      (hkind ▸ hend.eats)
    have hrest := hround.mul (ih (hc.reaches hround.reaches))
    rw [Grammar.list, ← mul_assoc] at hrest
    exact hrest.mono (mul_le_mul_left mul_kstar_le_kstar _)

end Lines

/-- A script of some levels passes a list whose substitutions are nested no deeper. -/
theorem eats_of_script (limit levels : Nat) (inBackticks : Bool) (hc : c.Tame) {body : Script}
    (h : script limit levels inBackticks c = .ok body c') :
    c.Eats (Grammar.scripts (levels + 1) inBackticks) c' := by
  induction levels generalizing inBackticks c c' body with
  | zero =>
    rw [script_eq_scriptIn] at h
    have hbodies : Derives (levelContext limit inBackticks 0) (Grammar.scripts 0) :=
      fun script hscript => by simp [levelContext] at hscript
    have hlist := eats_of_scriptIn (levelContext_orderly _ _ _) hbodies hc h
    rwa [inBackticks_levelContext] at hlist
  | succ levels ih =>
    rw [script_eq_scriptIn] at h
    have hbodies : Derives (levelContext limit inBackticks (levels + 1))
        (Grammar.scripts (levels + 1)) := by
      intro script hscript inBackticks c body c' hc hbody
      obtain rfl := Option.some.inj hscript
      exact ih inBackticks hc hbody
    have hlist := eats_of_scriptIn (levelContext_orderly _ _ _) hbodies hc h
    rwa [inBackticks_levelContext] at hlist

end CommandSyntax.Production
