import CommandSyntax.Proofs.Grammar.PartSuccess

/-!
# CommandSyntax.Proofs.Grammar.WordSuccess

**When the productions of words succeed**, and what they give then. A word goes on for
as long as a part stands behind quotes, or none (`PartsFrom`), and it ends where nothing
goes on with it, or where text stands for nothing (`EndsWord`). A run of words gathers
words with whitespace between them.
-/

namespace CommandSyntax.Production

open Cursor

variable {c c' : Cursor} {context : Context} {quoted : Bool}

/-! ### Words -/

/-- Whether a lexeme of a kind goes on with a word outside double quotes. -/
def inWord (inBackticks : Bool) (kind : TokenKind) : Bool :=
  startsPart inBackticks false kind || isText false kind || kind == .doubleQuote

/-- A word ends between two cursors: double quotes close its quotation, if one is open, and
then there is only text that stands for nothing. -/
structure EndsWord (inBackticks quoted : Bool) (c c' : Cursor) : Prop where
  /-- What is passed at the end. -/
  passes : ∃ quotes blanks, c.Passes (quotes ++ blanks) c' ∧
    (∀ lexeme ∈ quotes, lexeme.kind = .doubleQuote) ∧
    quoted = decide (quotes.length % 2 = 1) ∧
    (∀ lexeme ∈ blanks, IsBlankText false lexeme) ∧
    (blanks = [] → inWord inBackticks c'.current.kind = false)
  /-- No text follows. -/
  isText_eq_false : isText false c'.current.kind = false

/-- Where nothing goes on with a word, a word ends at once. -/
theorem endsWord_self {inBackticks : Bool} (h : inWord inBackticks c.current.kind = false) :
    EndsWord inBackticks false c c where
  passes := ⟨[], [], .nil c, by simp, by simp, by simp, fun _ => h⟩
  isText_eq_false := by
    simp only [inWord, Bool.or_eq_false_iff] at h
    exact h.1.2

theorem partsRound_eq_yield_iff {read read' : PartsRead} :
    partsRound context read c = .ok (.yield read') c' ↔
      ∃ quoted c₁ part, toggleQuotes read.quoted c = .ok quoted c₁ ∧
        part? context quoted c₁ = .ok (some part) c' ∧ read' = ⟨part :: read.parts, quoted⟩ := by
  constructor
  · intro h
    obtain ⟨quoted, c₁, htoggle, h⟩ := bind_eq_ok_iff.1 h
    obtain ⟨part, c₂, hpart, h⟩ := bind_eq_ok_iff.1 h
    cases part with
    | some part =>
      obtain ⟨hyield, rfl⟩ := EStateM.Result.ok.inj h
      exact ⟨quoted, c₁, part, htoggle, hpart, (ForInStep.yield.inj hyield).symm⟩
    | none =>
      cases quoted with
      | false => simp at h
      | true =>
        obtain ⟨_, _, -, h⟩ := bind_eq_ok_iff.1 h
        simp at h
  · intro h
    obtain ⟨quoted, c₁, part, htoggle, hpart, rfl⟩ := h
    exact bind_eq_ok_iff.2 ⟨quoted, c₁, htoggle, bind_eq_ok_iff.2 ⟨some part, c', hpart, rfl⟩⟩

/-- A word is done only where no quotation is open. -/
theorem partsRound_eq_done_iff (hc : c.Placed) {read read' : PartsRead} :
    partsRound context read c = .ok (.done read') c' ↔
      read' = ⟨read.parts, false⟩ ∧ EndsWord context.inBackticks read.quoted c c' := by
  constructor
  · intro h
    obtain ⟨quoted, c₁, htoggle, h⟩ := bind_eq_ok_iff.1 h
    obtain ⟨part, c₂, hpart, h⟩ := bind_eq_ok_iff.1 h
    obtain ⟨quotes, hquotes, hall, hkind, hquoted⟩ := (toggleQuotes_eq_ok_iff hc).1 htoggle
    have hc₁ := hquotes.placed hc
    cases part with
    | some part => simp at h
    | none =>
      cases quoted with
      | true =>
        -- the closing quote would be the lexeme that was just found to be none
        obtain rfl := eq_of_part?_eq_none hc₁ hpart
        obtain ⟨_, _, hclose, -⟩ := bind_eq_ok_iff.1 h
        exact absurd ((require_eq_ok_iff (by simp)).1 hclose).1 hkind
      | false =>
        obtain ⟨hdone, rfl⟩ := EStateM.Result.ok.inj h
        obtain ⟨hstarts, blanks, hblanks, hblank, htext⟩ := (part?_eq_none_iff hc₁).1 hpart
        refine ⟨(ForInStep.done.inj hdone).symm,
          ⟨quotes, blanks, hquotes.trans hblanks, hall, ?_, hblank, ?_⟩, htext⟩
        · -- the quotes have left no quotation open, so their number tells whether one was
          generalize decide (quotes.length % 2 = 1) = odd at hquoted
          revert hquoted
          cases read.quoted <;> cases odd <;> simp
        · rintro rfl
          obtain rfl := passes_nil_iff.1 hblanks
          simp [inWord, hstarts, htext, hkind]
  · intro h
    obtain ⟨rfl, ⟨quotes, blanks, hpasses, hall, hquoted, hblank, hend⟩, htext⟩ := h
    obtain ⟨c₁, hquotes, hblanks⟩ := passes_append_iff.1 hpasses
    have hfirst : startsPart context.inBackticks false c₁.current.kind = false ∧
        c₁.current.kind ≠ .doubleQuote := by
      cases blanks with
      | nil =>
        obtain rfl := passes_nil_iff.1 hblanks
        simpa [inWord, htext] using hend rfl
      | cons blank blanks =>
        obtain ⟨rfl, -⟩ := passes_cons_iff_step.1 hblanks
        have hkind := (hblank _ List.mem_cons_self).1
        constructor
        · exact Bool.eq_false_iff.2 fun hstarts => by
            simp [isText_eq_false_of_startsPart hstarts] at hkind
        · intro hquote
          simp [hquote, isText] at hkind
    have htoggle : toggleQuotes read.quoted c = .ok false c₁ :=
      (toggleQuotes_eq_ok_iff hc).2
        ⟨quotes, hquotes, hall, hfirst.2, by rw [hquoted, Bool.xor_self]⟩
    have hpart : part? context false c₁ = .ok none c' :=
      (part?_eq_none_iff (hquotes.placed hc)).2 ⟨hfirst.1, blanks, hblanks, hblank, htext⟩
    exact bind_eq_ok_iff.2 ⟨false, c₁, htoggle, bind_eq_ok_iff.2 ⟨none, c', hpart, rfl⟩⟩

theorem partsRound_advances (hcontext : ContextOrderly context) :
    Advances (partsRound context) where
  orderly := orderly_partsRound hcontext
  ne_nil hc hround hpasses := by
    obtain ⟨quoted, c₁, part, htoggle, hpart, -⟩ := partsRound_eq_yield_iff.1 hround
    obtain ⟨quotes, hquotes, -⟩ := (toggleQuotes_eq_ok_iff hc).1 htoggle
    obtain ⟨lexemes, hlexemes⟩ := passes_of_part?_eq_some hcontext (hquotes.placed hc) hpart
    simp [hpasses.unique (hquotes.trans hlexemes) hc]

/-- The parts of the rest of a word, from inside or outside a quotation. -/
inductive PartsFrom (context : Context) : Bool → Cursor → List Part → Cursor → Prop
  /-- The word ends. -/
  | done {quoted : Bool} {c c' : Cursor} (h : EndsWord context.inBackticks quoted c c') :
      PartsFrom context quoted c [] c'
  /-- There is a part, after quotes that open or close a quotation. -/
  | part {quoted quoted₁ : Bool} {c c₁ c₂ c' : Cursor} {part : Part} {parts : List Part}
      (htoggle : toggleQuotes quoted c = .ok quoted₁ c₁)
      (hpart : part? context quoted₁ c₁ = .ok (some part) c₂)
      (hrest : PartsFrom context quoted₁ c₂ parts c') :
      PartsFrom context quoted c (part :: parts) c'

theorem PartsFrom.passes (hcontext : ContextOrderly context) {parts : List Part}
    (hc : c.Placed) (h : PartsFrom context quoted c parts c') :
    ∃ lexemes, c.Passes lexemes c' ∧ (parts ≠ [] → lexemes ≠ []) := by
  induction h with
  | done hends =>
    obtain ⟨quotes, blanks, hpasses, -⟩ := hends.passes
    exact ⟨quotes ++ blanks, hpasses, by simp⟩
  | part htoggle hpart _ ih =>
    obtain ⟨quotes, hquotes, -⟩ := (toggleQuotes_eq_ok_iff hc).1 htoggle
    have hc₁ := hquotes.placed hc
    obtain ⟨lexemes, hlexemes⟩ := passes_of_part?_eq_some hcontext hc₁ hpart
    obtain ⟨further, hfurther, -⟩ := ih (hlexemes.placed hc₁)
    exact ⟨_, hquotes.trans (hlexemes.trans hfurther), by simp⟩

theorem loops_partsRound_iff (hcontext : ContextOrderly context) (hc : c.Placed)
    {read read' : PartsRead} :
    Loops (partsRound context) read c read' c' ↔
      ∃ parts, PartsFrom context read.quoted c parts c' ∧
        read' = ⟨parts.reverse ++ read.parts, false⟩ := by
  constructor
  · intro h
    induction h with
    | done hround =>
      obtain ⟨rfl, hends⟩ := (partsRound_eq_done_iff hc).1 hround
      exact ⟨[], .done hends, by simp⟩
    | yield hround _ ih =>
      obtain ⟨quoted, c₁, part, htoggle, hpart, rfl⟩ := partsRound_eq_yield_iff.1 hround
      obtain ⟨parts, hrest, rfl⟩ := ih ((partsRound_advances hcontext).left_lt hc hround).1
      exact ⟨part :: parts, .part htoggle hpart hrest, by simp⟩
  · intro h
    obtain ⟨parts, h, rfl⟩ := h
    obtain ⟨acc, quoted⟩ := read
    dsimp only at h
    -- every round puts a part in front of those read so far, whatever they are
    induction h generalizing acc with
    | done hends => exact .done ((partsRound_eq_done_iff hc).2 ⟨by simp, hends⟩)
    | @part _ _ _ _ _ _ part _ htoggle hpart _ ih =>
      have hround : partsRound context ⟨acc, _⟩ _ = .ok (.yield ⟨part :: acc, _⟩) _ :=
        partsRound_eq_yield_iff.2 ⟨_, _, part, htoggle, hpart, rfl⟩
      have := ih ((partsRound_advances hcontext).left_lt hc hround).1 (part :: acc)
      exact .yield hround (by simpa using this)

/-- The parts of a word reach to where the word ends. -/
theorem parts_eq_ok_iff (hcontext : ContextOrderly context) (hc : c.Placed) {result : List Part} :
    parts context c = .ok result c' ↔ PartsFrom context false c result c' := by
  refine bind_eq_ok_iff.trans ?_
  simp only [loop_eq_ok_iff (partsRound_advances hcontext) hc, loops_partsRound_iff hcontext hc]
  constructor
  · intro h
    obtain ⟨_, _, ⟨parts, h, rfl⟩, hpure⟩ := h
    obtain ⟨rfl, rfl⟩ := EStateM.Result.ok.inj hpure
    simpa using h
  · intro h
    exact ⟨_, c', ⟨result, h, rfl⟩, by simp⟩

/-- A word has a part, and its bytes reach to the last lexeme left behind. -/
theorem word?_eq_some_iff (hcontext : ContextOrderly context) (hc : c.Placed) {word : Word} :
    word? context c = .ok (some word) c' ↔
      PartsFrom context false c word.parts c' ∧ word.parts ≠ [] ∧
        word.span = ⟨c.current.start, c'.lastEnd⟩ := by
  rw [word?, current_bind_apply, bind_eq_ok_iff]
  simp only [parts_eq_ok_iff hcontext hc]
  obtain ⟨parts, span⟩ := word
  constructor
  · intro h
    obtain ⟨parts, c₁, h, hresult⟩ := h
    cases parts with
    | nil => simp at hresult
    | cons part parts =>
      simp only [List.isEmpty_cons, Bool.false_eq_true, if_false, lastEnd_bind_apply,
        pure_apply, EStateM.Result.ok.injEq, Option.some.injEq, Word.mk.injEq] at hresult
      obtain ⟨⟨rfl, rfl⟩, rfl⟩ := hresult
      exact ⟨h, by simp, rfl⟩
  · intro h
    obtain ⟨h, hne, rfl⟩ := h
    obtain ⟨part, parts, rfl⟩ := List.exists_cons_of_ne_nil hne
    exact ⟨_, c', h, by simp⟩

theorem word?_eq_none_iff (hcontext : ContextOrderly context) (hc : c.Placed) :
    word? context c = .ok none c' ↔ EndsWord context.inBackticks false c c' := by
  rw [word?, current_bind_apply, bind_eq_ok_iff]
  simp only [parts_eq_ok_iff hcontext hc]
  constructor
  · intro h
    obtain ⟨parts, c₁, h, hresult⟩ := h
    cases h with
    | done hends =>
      obtain rfl : c₁ = c' := by simpa using hresult
      exact hends
    | part => simp at hresult
  · intro h
    exact ⟨[], c', .done h, by simp⟩

/-- Where nothing goes on with a word there is none. -/
theorem word?_of_inWord_eq_false (hcontext : ContextOrderly context) (hc : c.Placed)
    (h : inWord context.inBackticks c.current.kind = false) : word? context c = .ok none c :=
  (word?_eq_none_iff hcontext hc).2 (endsWord_self h)

/-- A word passes a lexeme. -/
theorem passes_of_word?_eq_some (hcontext : ContextOrderly context) (hc : c.Placed) {word : Word}
    (h : word? context c = .ok (some word) c') :
    ∃ lexemes, c.Passes lexemes c' ∧ lexemes ≠ [] := by
  obtain ⟨hparts, hne, -⟩ := (word?_eq_some_iff hcontext hc).1 h
  obtain ⟨lexemes, hpasses, hlexemes⟩ := hparts.passes hcontext hc
  exact ⟨lexemes, hpasses, hlexemes hne⟩

/-! ### How words start and end -/

/-- A run of text that is not empty passes a lexeme. -/
theorem passes_of_text?_eq_some (hc : c.Placed) {part : Part}
    (h : text? quoted c = .ok (some part) c') :
    ∃ lexemes, c.Passes lexemes c' ∧ lexemes ≠ [] ∧
      ∀ lexeme ∈ lexemes, isText quoted lexeme.kind = true := by
  obtain ⟨lexemes, hpasses, htext, -, hpart⟩ := (text?_eq_ok_iff hc).1 h
  refine ⟨lexemes, hpasses, ?_, htext⟩
  rintro rfl
  simp [Part.literal?] at hpart

/-- Outside double quotes a part does not end with whitespace. -/
theorem exists_last_of_part?_eq_some (hcontext : ContextOrderly context) (hc : c.Placed)
    {part : Part} (h : part? context false c = .ok (some part) c') :
    ∃ front last, c.Passes (front ++ [last]) c' ∧ last.kind ≠ .whitespace := by
  cases (part?_eq_ok_iff hc).1 h with
  | parameter hkind hpasses | star _ hkind hpasses | one _ hkind hpasses
  | charset _ hkind hpasses => exact ⟨[], c.current, hpasses, by simp [hkind]⟩
  | braced _ h =>
    obtain ⟨opener, body, closer, hpasses, -, -, -, hcloser, -⟩ :=
      (bracedParameter_eq_ok_iff hc).1 h
    exact ⟨opener :: body, closer, hpasses, by simp [hcloser]⟩
  | backticks _ _ h | parentheses _ h =>
    obtain ⟨script, c₁, body, c₂, hscript, -, hopener, hbody, hkind, hcloser, -⟩ :=
      (substitution_eq_ok_iff (by simp) (by simp)).1 h
    obtain ⟨inner, hinner⟩ := (hcontext script hscript _ (hopener.placed hc)).passes hbody
    exact ⟨c.current :: inner, c₂.current, by simpa using hopener.trans (hinner.trans hcloser),
      by simp [hkind]⟩
  | text _ h =>
    obtain ⟨lexemes, hpasses, hne, htext⟩ := passes_of_text?_eq_some hc h
    rcases List.eq_nil_or_concat lexemes with hnil | ⟨front, last, hlast⟩
    · exact absurd hnil hne
    · obtain rfl := hlast.trans List.concat_eq_append
      refine ⟨front, last, hpasses, fun hkind => ?_⟩
      simpa [hkind, isText] using htext last (by simp)

/-- The rest of a word does not end with whitespace, and it closes an open quotation. -/
theorem PartsFrom.exists_last (hcontext : ContextOrderly context) (hc : c.Placed)
    {parts : List Part} (h : PartsFrom context quoted c parts c') :
    (quoted = false ∧ parts = [] ∧ c = c') ∨
      ∃ front last, c.Passes (front ++ [last]) c' ∧ last.kind ≠ .whitespace := by
  induction h with
  | done hends =>
    obtain ⟨quotes, blanks, hpasses, hquotes, hodd, hblank, -⟩ := hends.passes
    rcases List.eq_nil_or_concat (quotes ++ blanks) with hnil | ⟨front, last, hlast⟩
    · obtain ⟨rfl, rfl⟩ := List.append_eq_nil_iff.1 hnil
      exact .inl ⟨hodd, rfl, passes_nil_iff.1 hpasses⟩
    · rw [List.concat_eq_append] at hlast
      refine .inr ⟨front, last, hlast ▸ hpasses, fun hkind => ?_⟩
      obtain hmem | hmem : last ∈ quotes ∨ last ∈ blanks := by
        rw [← List.mem_append, hlast]
        simp
      · simp [hquotes last hmem] at hkind
      · simpa [hkind, isText] using (hblank last hmem).1
  | @part _ quoted₁ _ c₁ c₂ _ _ _ htoggle hpart hrest ih =>
    right
    obtain ⟨quotes, hquotes, -⟩ := (toggleQuotes_eq_ok_iff hc).1 htoggle
    have hc₁ := hquotes.placed hc
    obtain ⟨lexemes, hlexemes⟩ := passes_of_part?_eq_some hcontext hc₁ hpart
    rcases ih (hlexemes.placed hc₁) with ⟨rfl, -, rfl⟩ | ⟨front, last, hlast, hkind⟩
    · obtain ⟨front, last, hlast, hkind⟩ := exists_last_of_part?_eq_some hcontext hc₁ hpart
      exact ⟨quotes ++ front, last, by simpa using hquotes.trans hlast, hkind⟩
    · exact ⟨quotes ++ (c₁.current :: lexemes) ++ front, last,
        by simpa using hquotes.trans (hlexemes.trans hlast), hkind⟩

/-- Whatever stands in the rest of a word, it ends as words end. -/
theorem PartsFrom.exists_endsWord (hcontext : ContextOrderly context) (hc : c.Placed)
    {parts : List Part} (h : PartsFrom context quoted c parts c') :
    ∃ quoted d, c.Reaches d ∧ EndsWord context.inBackticks quoted d c' := by
  induction h with
  | done hends => exact ⟨_, _, .refl _, hends⟩
  | part htoggle hpart _ ih =>
    obtain ⟨quotes, hquotes, -⟩ := (toggleQuotes_eq_ok_iff hc).1 htoggle
    have hc₁ := hquotes.placed hc
    obtain ⟨lexemes, hlexemes⟩ := passes_of_part?_eq_some hcontext hc₁ hpart
    obtain ⟨quoted, d, hd, hends⟩ := ih (hlexemes.placed hc₁)
    exact ⟨quoted, d, hquotes.reaches.trans (hlexemes.reaches.trans hd), hends⟩

/-- A part starts with a lexeme that goes on with a word. -/
theorem inWord_of_part?_eq_some (hc : c.Placed) {part : Part}
    (h : part? context false c = .ok (some part) c') :
    inWord context.inBackticks c.current.kind = true := by
  cases (part?_eq_ok_iff hc).1 h with
  | parameter hkind | braced hkind | parentheses hkind => simp [inWord, hkind, startsPart]
  | backticks hkind hcontext => simp [inWord, hkind, hcontext, startsPart]
  | star _ hkind | one _ hkind | charset _ hkind => simp [inWord, hkind, startsPart]
  | text _ h =>
    obtain ⟨lexemes, hpasses, hne, htext⟩ := passes_of_text?_eq_some hc h
    obtain ⟨first, lexemes, rfl⟩ := List.exists_cons_of_ne_nil hne
    obtain ⟨rfl, -⟩ := passes_cons_iff_step.1 hpasses
    simp [inWord, htext _ List.mem_cons_self]

/-- A word starts with a lexeme that goes on with a word. -/
theorem inWord_of_word?_eq_some (hcontext : ContextOrderly context) (hc : c.Placed) {word : Word}
    (h : word? context c = .ok (some word) c') :
    inWord context.inBackticks c.current.kind = true := by
  obtain ⟨hparts, hne, -⟩ := (word?_eq_some_iff hcontext hc).1 h
  generalize word.parts = parts at hparts hne
  cases hparts with
  | done => exact absurd rfl hne
  | part htoggle hpart =>
    obtain ⟨quotes, hquotes, hall, -, hquoted⟩ := (toggleQuotes_eq_ok_iff hc).1 htoggle
    cases quotes with
    | nil =>
      obtain rfl := passes_nil_iff.1 hquotes
      obtain rfl : _ = false := by simpa using hquoted
      exact inWord_of_part?_eq_some hc hpart
    | cons quote quotes =>
      obtain ⟨rfl, -⟩ := passes_cons_iff_step.1 hquotes
      simp [inWord, hall _ List.mem_cons_self]

/-! ### Runs of words -/

/-- The words of a run that another run of whitespace follows. -/
def MoreWords (context : Context) (c : Cursor) (words : List Word) (c' : Cursor) : Prop :=
  ∃ word c₁, words = [word] ∧ word? context c = .ok (some word) c₁ ∧
    c₁.current.kind = .whitespace ∧ c₁.Skips c'

theorem MoreWords.reaches (hcontext : ContextOrderly context) (hc : c.Placed) {run : List Word}
    (h : MoreWords context c run c') : c.Reaches c' := by
  obtain ⟨word, c₁, -, hword, -, hskip⟩ := h
  obtain ⟨lexemes, hlexemes, -⟩ := passes_of_word?_eq_some hcontext hc hword
  exact hlexemes.reaches.trans hskip.reaches

/-- The last word of a run, if one stands there. -/
def LastWords (context : Context) (c : Cursor) (words : List Word) (c' : Cursor) : Prop :=
  (words = [] ∧ word? context c = .ok none c') ∨
    ∃ word, words = [word] ∧ word? context c = .ok (some word) c' ∧
      c'.current.kind ≠ .whitespace

theorem wordsRound_eq_yield_iff (hcontext : ContextOrderly context) (hc : c.Placed)
    {words words' : List Word} :
    wordsRound context words c = .ok (.yield words') c' ↔
      ∃ items, MoreWords context c items c' ∧ words' = items.reverse ++ words := by
  constructor
  · intro h
    obtain ⟨word, c₁, hword, h⟩ := bind_eq_ok_iff.1 h
    have hc₁ := (orderly_word? hcontext hc).placed hc hword
    cases word with
    | none => simp at h
    | some word =>
      obtain ⟨accepted, c₂, haccept, h⟩ := bind_eq_ok_iff.1 h
      rcases (accept_eq_ok_iff (by simp)).1 haccept with ⟨hkind, rfl, hpasses⟩ | ⟨-, rfl, -⟩
      · obtain ⟨_, c₃, hskip, h⟩ := bind_eq_ok_iff.1 h
        obtain ⟨hyield, rfl⟩ := EStateM.Result.ok.inj h
        obtain ⟨blanks, hblanks, hall, hend⟩ :=
          (skipWhitespace_eq_ok_iff (hpasses.placed hc₁)).1 hskip
        exact ⟨[word], ⟨word, c₁, rfl, hword, hkind, c₁.current :: blanks,
          hpasses.trans hblanks, by simpa using ⟨hkind, hall⟩, hend⟩,
          by simp [← ForInStep.yield.inj hyield]⟩
      · simp at h
  · intro h
    obtain ⟨_, ⟨word, c₁, rfl, hword, hkind, blanks, hpasses, hall, hend⟩, rfl⟩ := h
    have hc₁ := (orderly_word? hcontext hc).placed hc hword
    cases blanks with
    | nil =>
      obtain rfl := passes_nil_iff.1 hpasses
      exact absurd hkind hend
    | cons blank blanks =>
      obtain ⟨rfl, c₂, hstep, hrest⟩ := passes_cons_iff_step.1 hpasses
      have hskip : skipWhitespace c₂ = .ok () c' :=
        (skipWhitespace_eq_ok_iff (hstep.placed hc₁)).2
          ⟨blanks, hrest, fun lexeme hmem => hall lexeme (List.mem_cons_of_mem _ hmem), hend⟩
      refine bind_eq_ok_iff.2 ⟨some word, c₁, hword, bind_eq_ok_iff.2
        ⟨true, c₂, (accept_eq_ok_iff (by simp)).2 (.inl ⟨hkind, rfl, hstep⟩), ?_⟩⟩
      exact bind_eq_ok_iff.2 ⟨(), c', hskip, rfl⟩

theorem wordsRound_eq_done_iff (hcontext : ContextOrderly context) (hc : c.Placed)
    {words words' : List Word} :
    wordsRound context words c = .ok (.done words') c' ↔
      ∃ items, LastWords context c items c' ∧ words' = items.reverse ++ words := by
  constructor
  · intro h
    obtain ⟨word, c₁, hword, h⟩ := bind_eq_ok_iff.1 h
    have hc₁ := (orderly_word? hcontext hc).placed hc hword
    cases word with
    | none =>
      obtain ⟨hdone, rfl⟩ := EStateM.Result.ok.inj h
      exact ⟨[], .inl ⟨rfl, hword⟩, (ForInStep.done.inj hdone).symm⟩
    | some word =>
      obtain ⟨accepted, c₂, haccept, h⟩ := bind_eq_ok_iff.1 h
      rcases (accept_eq_ok_iff (by simp)).1 haccept with ⟨-, rfl, -⟩ | ⟨hkind, rfl, rfl⟩
      · obtain ⟨_, c₃, -, h⟩ := bind_eq_ok_iff.1 h
        simp at h
      · obtain ⟨hdone, rfl⟩ := EStateM.Result.ok.inj h
        exact ⟨[word], .inr ⟨word, rfl, hword, hkind⟩, (ForInStep.done.inj hdone).symm⟩
  · intro h
    obtain ⟨_, ⟨rfl, hword⟩ | ⟨word, rfl, hword, hkind⟩, rfl⟩ := h
    · exact bind_eq_ok_iff.2 ⟨none, c', hword, rfl⟩
    · refine bind_eq_ok_iff.2 ⟨some word, c', hword, bind_eq_ok_iff.2 ⟨false, c', ?_, rfl⟩⟩
      exact (accept_eq_ok_iff (by simp)).2 (.inr ⟨hkind, rfl, rfl⟩)

theorem wordsRound_gathers (hcontext : ContextOrderly context) :
    GathersBy (wordsRound context) (MoreWords context) (LastWords context) where
  orderly := orderly_wordsRound hcontext
  ne_nil hc hround hpasses := by
    obtain ⟨_, ⟨word, c₁, -, hword, -, blanks, hblanks, -⟩, -⟩ :=
      (wordsRound_eq_yield_iff hcontext hc).1 hround
    obtain ⟨lexemes, hlexemes, hne⟩ := passes_of_word?_eq_some hcontext hc hword
    simp [hpasses.unique (hlexemes.trans hblanks) hc, hne]
  yield_iff hc := wordsRound_eq_yield_iff hcontext hc
  done_iff hc := wordsRound_eq_done_iff hcontext hc

theorem words_eq_ok_iff (hcontext : ContextOrderly context) (hc : c.Placed)
    {result : List Word} :
    words context c = .ok result c' ↔
      Gathers (MoreWords context) (LastWords context) c result c' := by
  refine bind_eq_ok_iff.trans ?_
  simp only [loop_eq_ok_iff_gathers (wordsRound_gathers hcontext) hc]
  constructor
  · intro h
    obtain ⟨_, _, ⟨items, h, rfl⟩, hpure⟩ := h
    obtain ⟨rfl, rfl⟩ := EStateM.Result.ok.inj hpure
    simpa using h
  · intro h
    exact ⟨_, c', ⟨result, h, rfl⟩, by simp⟩

theorem word?_of_words_eq_nil (hcontext : ContextOrderly context) (hc : c.Placed)
    (h : words context c = .ok [] c') : word? context c = .ok none c' := by
  have hlast := ((words_eq_ok_iff hcontext hc).1 h).last_of_nil (by simp [MoreWords])
  simpa [LastWords] using hlast

/-- A run of words passes a lexeme unless it is empty. -/
theorem passes_of_words (hcontext : ContextOrderly context) (hc : c.Placed) {run : List Word}
    (hne : run ≠ []) (h : words context c = .ok run c') :
    ∃ lexemes, c.Passes lexemes c' ∧ lexemes ≠ [] := by
  cases (words_eq_ok_iff hcontext hc).1 h with
  | done hlast =>
    rcases hlast with ⟨rfl, -⟩ | ⟨word, -, hword, -⟩
    · exact absurd rfl hne
    · exact passes_of_word?_eq_some hcontext hc hword
  | yield hmore hrest =>
    obtain ⟨word, c₁, -, hword, -, blanks, hblanks, -⟩ := hmore
    obtain ⟨lexemes, hlexemes, hne⟩ := passes_of_word?_eq_some hcontext hc hword
    have hfront := hlexemes.trans hblanks
    obtain ⟨further, hfurther⟩ := (wordsRound_gathers hcontext).passes (hfront.placed hc) hrest
    exact ⟨_, hfront.trans hfurther, by simp [hne]⟩

end CommandSyntax.Production
