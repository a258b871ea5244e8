import CommandSyntax.Proofs.Grammar.Loop
import CommandSyntax.Proofs.Token.Shape

/-!
# CommandSyntax.Proofs.Grammar.PartSuccess

**When the productions of parts succeed**, and what they give then. There is one
equivalence for each production, so that no later proof opens a production: soundness
arguments read these statements from left to right, completeness arguments from right
to left.

Runs of lexemes come first (`skipWhitespace_eq_ok_iff`, `toggleQuotes_eq_ok_iff`,
`text?_eq_ok_iff`), then what stands between two brackets, then the parts of a word by
the lexeme at which they start (`PartAt`).
-/

namespace CommandSyntax.Production

open Cursor

variable {c c' : Cursor} {context : Context} {quoted : Bool}

/-! ### Runs of lexemes -/

theorem skipWhitespace_eq_loop :
    skipWhitespace = loop (passWhile fun (_ : Unit) lexeme =>
      if lexeme.kind = .whitespace then some () else none) () := by
  unfold skipWhitespace
  congr 1
  funext _ c
  by_cases h : c.current.kind = .whitespace
  · simp only [passWhile, accept, h, if_true, bind, EStateM.bind, current_apply]
    cases take c <;> rfl
  · simp [passWhile, accept, h, bind, EStateM.bind]

/-- Skipping whitespace passes all whitespace there is. -/
theorem skipWhitespace_eq_ok_iff (hc : c.Placed) :
    skipWhitespace c = .ok () c' ↔ c.Skips c' := by
  have hfold (lexemes : List Lexeme) :
      lexemes.foldlM (fun (_ : Unit) lexeme =>
        if lexeme.kind = TokenKind.whitespace then some () else none) () = some () ↔
      ∀ lexeme ∈ lexemes, lexeme.kind = .whitespace := by
    induction lexemes with
    | nil => simp
    | cons lexeme lexemes ih => by_cases h : lexeme.kind = .whitespace <;> simp [h, ih]
  rw [skipWhitespace_eq_loop, loop_passWhile_eq_ok_iff ?_ hc]
  · simp [hfold, Skips]
  · intro _ _ lexeme h hstop
    simp [hstop] at h

theorem toggleQuotes_eq_loop :
    toggleQuotes = loop (passWhile fun quoted lexeme =>
      if lexeme.kind = .doubleQuote then some (!quoted) else none) := by
  funext quoted
  unfold toggleQuotes
  congr 1
  funext _ c
  by_cases h : c.current.kind = .doubleQuote
  · simp only [passWhile, accept, h, if_true, bind, EStateM.bind, current_apply]
    cases take c <;> rfl
  · simp [passWhile, accept, h, bind, EStateM.bind]

/-- Passing over double quotes passes all there are, and each opens or closes a quotation. -/
theorem toggleQuotes_eq_ok_iff (hc : c.Placed) {quoted' : Bool} :
    toggleQuotes quoted c = .ok quoted' c' ↔
      ∃ quotes, c.Passes quotes c' ∧ (∀ lexeme ∈ quotes, lexeme.kind = .doubleQuote) ∧
        c'.current.kind ≠ .doubleQuote ∧ quoted' = (quoted ^^ decide (quotes.length % 2 = 1)) := by
  have hfold (quotes : List Lexeme) (quoted : Bool) :
      quotes.foldlM (fun quoted lexeme =>
        if lexeme.kind = TokenKind.doubleQuote then some (!quoted) else none) quoted =
          some quoted' ↔
      (∀ lexeme ∈ quotes, lexeme.kind = .doubleQuote) ∧
        quoted' = (quoted ^^ decide (quotes.length % 2 = 1)) := by
    induction quotes generalizing quoted with
    | nil => simp [eq_comm]
    | cons lexeme quotes ih =>
      by_cases h : lexeme.kind = .doubleQuote
      · have hparity : (!quoted ^^ decide (quotes.length % 2 = 1)) =
            (quoted ^^ decide ((quotes.length + 1) % 2 = 1)) := by
          rcases Nat.mod_two_eq_zero_or_one quotes.length with hlength | hlength <;>
            simp [hlength, Nat.add_mod]
        simp [h, ih, hparity]
      · simp [h]
  rw [toggleQuotes_eq_loop, loop_passWhile_eq_ok_iff ?_ hc]
  · simp only [hfold]
    constructor
    · intro h
      obtain ⟨quotes, hpasses, ⟨hquotes, hquoted⟩, hnone⟩ := h
      exact ⟨quotes, hpasses, hquotes, by simpa using hnone, hquoted⟩
    · intro h
      obtain ⟨quotes, hpasses, hquotes, hkind, hquoted⟩ := h
      exact ⟨quotes, hpasses, ⟨hquotes, hquoted⟩, by simpa using hkind⟩
  · intro _ _ lexeme h hstop
    simp [hstop] at h

/-- The delimiters of a lexeme that is text can always be stripped. -/
theorem textRound_eq_passWhile (hc : c.Placed) (text : List Char) :
    textRound quoted text c =
      passWhile (fun text lexeme => (textOf? quoted lexeme).map (text ++ ·)) text c := by
  rw [textRound, current_bind_apply]
  cases hrule : textRule? quoted c.current.kind with
  | none =>
    have hnone := textOf?_eq_none_iff.2 (textRule?_eq_none_iff.1 hrule)
    exact (passWhile_of_eq_none (by rw [hnone]; rfl)).symm
  | some rule =>
    have hscanned := hc.scanned (kind_ne_stop_of_textRule? hrule)
    obtain ⟨inner, hstrip, hpiece⟩ := exists_strip?_of_textRule? hscanned hrule
    rw [passWhile_of_eq_some (by rw [hpiece]; rfl)]
    exact tokenText_bind_of_strip? rfl hstrip _ _

theorem text?_eq_bind (hc : c.Placed) :
    text? quoted c = (do
      let text ← loop (passWhile fun text lexeme => (textOf? quoted lexeme).map (text ++ ·)) []
      return Part.literal? (String.ofList text) : Production (Option Part)) c := by
  refine bind_congr_at ?_ fun _ _ _ => rfl
  exact loop_congr Placed (fun h hok => (orderly_textRound quoted _ h).placed h hok)
    (fun text _ h => textRound_eq_passWhile h text) [] hc

theorem stopsAtEnd_textOf? :
    StopsAtEnd fun (text : List Char) lexeme => (textOf? quoted lexeme).map (text ++ ·) := by
  intro _ _ lexeme h
  obtain ⟨piece, hpiece, -⟩ := Option.map_eq_some_iff.1 h
  exact kind_ne_stop_of_textOf? hpiece

/-- A run of text passes all text there is and joins what it means. -/
theorem text?_eq_ok_iff (hc : c.Placed) {part : Option Part} :
    text? quoted c = .ok part c' ↔
      ∃ lexemes, c.Passes lexemes c' ∧ (∀ lexeme ∈ lexemes, isText quoted lexeme.kind = true) ∧
        isText quoted c'.current.kind = false ∧
        part = Part.literal? (String.ofList (lexemes.flatMap (textOf quoted))) := by
  have hfold (lexemes : List Lexeme) (text text' : List Char) :
      lexemes.foldlM (fun text lexeme => (textOf? quoted lexeme).map (text ++ ·)) text =
          some text' ↔
      (∀ lexeme ∈ lexemes, isText quoted lexeme.kind = true) ∧
        text' = text ++ lexemes.flatMap (textOf quoted) := by
    induction lexemes generalizing text with
    | nil => simpa using eq_comm
    | cons lexeme lexemes ih =>
      by_cases h : isText quoted lexeme.kind = true
      · simp only [List.foldlM_cons, textOf?_eq_some h, Option.map_some, Option.bind_eq_bind,
          Option.bind_some, ih, List.forall_mem_cons, h, true_and, List.flatMap_cons,
          List.append_assoc]
      · have hnone : textOf? quoted lexeme = none := textOf?_eq_none_iff.2 (by simpa using h)
        simp [hnone, h]
  rw [text?_eq_bind hc]
  refine bind_eq_ok_iff.trans ?_
  simp only [loop_passWhile_eq_ok_iff stopsAtEnd_textOf? hc, hfold, Option.map_eq_none_iff,
    textOf?_eq_none_iff, List.nil_append]
  constructor
  · intro h
    obtain ⟨_, _, ⟨lexemes, hpasses, ⟨htext, rfl⟩, hnone⟩, hpure⟩ := h
    obtain ⟨rfl, rfl⟩ := EStateM.Result.ok.inj hpure
    exact ⟨lexemes, hpasses, htext, hnone, rfl⟩
  · intro h
    obtain ⟨lexemes, hpasses, htext, hnone, rfl⟩ := h
    exact ⟨_, c', ⟨lexemes, hpasses, ⟨htext, rfl⟩, hnone⟩, rfl⟩

/-! ### Substitutions and parameters -/

/-- A substitution passes its opening token, a script one level deeper and its closing token. -/
theorem substitution_eq_ok_iff {opening closing : TokenKind} (hopening : opening ≠ .stop)
    (hclosing : closing ≠ .stop) {inBackticks : Bool} {part : Part} :
    substitution context opening closing inBackticks c = .ok part c' ↔
      ∃ script c₁ body c₂, context.script? = some script ∧ c.current.kind = opening ∧
        c.Passes [c.current] c₁ ∧ script inBackticks c₁ = .ok body c₂ ∧
        c₂.current.kind = closing ∧ c₂.Passes [c₂.current] c' ∧ part = .substitution body := by
  constructor
  · intro h
    obtain ⟨opener, c₁, hopener, h⟩ := bind_eq_ok_iff.1 h
    obtain ⟨hkind, -, hpasses⟩ := (require_eq_ok_iff hopening).1 hopener
    cases hscript : context.script? with
    | none => simp [hscript] at h
    | some script =>
      simp only [hscript] at h
      obtain ⟨body, c₂, hbody, h⟩ := bind_eq_ok_iff.1 h
      obtain ⟨closer, c₃, hcloser, h⟩ := bind_eq_ok_iff.1 h
      obtain ⟨rfl, rfl⟩ := EStateM.Result.ok.inj h
      obtain ⟨hkind', -, hpasses'⟩ := (require_eq_ok_iff hclosing).1 hcloser
      exact ⟨script, c₁, body, c₂, rfl, hkind, hpasses, hbody, hkind', hpasses', rfl⟩
  · intro h
    obtain ⟨script, c₁, body, c₂, hscript, hkind, hpasses, hbody, hkind', hpasses', rfl⟩ := h
    refine bind_eq_ok_iff.2
      ⟨c.current, c₁, (require_eq_ok_iff hopening).2 ⟨hkind, rfl, hpasses⟩, ?_⟩
    simp only [hscript]
    refine bind_eq_ok_iff.2 ⟨body, c₂, hbody, ?_⟩
    exact bind_eq_ok_iff.2
      ⟨c₂.current, c', (require_eq_ok_iff hclosing).2 ⟨hkind', rfl, hpasses'⟩, rfl⟩

section BracedName

variable {opener : Lexeme} {name name' : List Char}

theorem bracedNameRound_eq_done_iff :
    bracedNameRound opener name c = .ok (.done name') c' ↔
      c.current.kind = .rightBrace ∧ name' = name ∧ c.Passes [c.current] c' := by
  rw [bracedNameRound, current_bind_apply]
  by_cases hbrace : c.current.kind = .rightBrace
  · simp only [hbrace, true_and, bind_eq_ok_iff,
      take_eq_ok_iff (c := c) (by simp [hbrace] : c.current.kind ≠ .stop)]
    constructor
    · intro h
      obtain ⟨lexeme, c₁, ⟨-, hpasses⟩, hpure⟩ := h
      obtain ⟨hdone, rfl⟩ := EStateM.Result.ok.inj hpure
      exact ⟨(ForInStep.done.inj hdone).symm, hpasses⟩
    · intro h
      obtain ⟨rfl, hpasses⟩ := h
      exact ⟨c.current, c', ⟨rfl, hpasses⟩, rfl⟩
  · by_cases hstop : c.current.kind = .stop
    · simp [hstop]
    · simp [hbrace, bind_eq_ok_iff, -bind_pure_comp]

theorem bracedNameRound_eq_yield_iff :
    bracedNameRound opener name c = .ok (.yield name') c' ↔
      c.current.kind ≠ .rightBrace ∧ name' = name ++ c.current.text ∧
        c.Passes [c.current] c' := by
  rw [bracedNameRound, current_bind_apply]
  by_cases hbrace : c.current.kind = .rightBrace
  · simp [hbrace, bind_eq_ok_iff, -bind_pure_comp]
  · by_cases hstop : c.current.kind = .stop
    · have : ¬ c.Passes [c.current] c' := fun h => (passes_cons_iff.1 h).1 hstop
      simp [hstop, this]
    · simp only [hbrace, ne_eq, not_false_eq_true, true_and, bind_eq_ok_iff,
        take_eq_ok_iff hstop]
      constructor
      · intro h
        obtain ⟨lexeme, c₁, ⟨-, hpasses⟩, hpure⟩ := h
        obtain ⟨hyield, rfl⟩ := EStateM.Result.ok.inj hpure
        exact ⟨(ForInStep.yield.inj hyield).symm, hpasses⟩
      · intro h
        obtain ⟨rfl, hpasses⟩ := h
        exact ⟨c.current, c', ⟨rfl, hpasses⟩, rfl⟩

theorem bracedNameRound_advances (opener : Lexeme) : Advances (bracedNameRound opener) where
  orderly := orderly_bracedNameRound opener
  ne_nil hc hround hpasses := by
    have hstep := (bracedNameRound_eq_yield_iff.1 hround).2.2
    simp [hpasses.unique hstep hc]

/-- The name in braces is all text up to the closing brace. -/
theorem loop_bracedNameRound_eq_ok_iff (hc : c.Placed) :
    loop (bracedNameRound opener) name c = .ok name' c' ↔
      ∃ body closer, c.Passes (body ++ [closer]) c' ∧
        (∀ lexeme ∈ body, lexeme.kind ≠ .rightBrace) ∧ closer.kind = .rightBrace ∧
        name' = name ++ body.flatMap Lexeme.text := by
  rw [loop_eq_ok_iff (bracedNameRound_advances opener) hc]
  constructor
  · intro hloops
    induction hloops with
    | done hround =>
      obtain ⟨hkind, rfl, hpasses⟩ := bracedNameRound_eq_done_iff.1 hround
      exact ⟨[], _, hpasses, by simp, hkind, by simp⟩
    | yield hround _ ih =>
      obtain ⟨hkind, rfl, hstep⟩ := bracedNameRound_eq_yield_iff.1 hround
      obtain ⟨body, closer, hpasses, hbody, hcloser, rfl⟩ := ih (hstep.placed hc)
      exact ⟨_ :: body, closer, hstep.trans hpasses, by simpa using ⟨hkind, hbody⟩, hcloser,
        by simp⟩
  · intro h
    obtain ⟨body, closer, hpasses, hbody, hcloser, rfl⟩ := h
    induction body generalizing c name with
    | nil =>
      obtain ⟨-, rfl, -⟩ := passes_cons_iff.1 hpasses
      exact .done (bracedNameRound_eq_done_iff.2 ⟨hcloser, by simp, hpasses⟩)
    | cons lexeme body ih =>
      obtain ⟨rfl, c₁, hstep, hrest⟩ := passes_cons_iff_step.1 hpasses
      obtain ⟨hkind, hbody⟩ := List.forall_mem_cons.1 hbody
      refine .yield (bracedNameRound_eq_yield_iff.2 ⟨hkind, rfl, hstep⟩) ?_
      have hmore : Loops (bracedNameRound opener) (name ++ c.current.text) c₁
          (name ++ c.current.text ++ body.flatMap Lexeme.text) c' :=
        ih (hstep.placed hc) hrest hbody
      rw [List.flatMap_cons, ← List.append_assoc]
      exact hmore

end BracedName

/-- A parameter in braces passes the braces and at least one lexeme between them. -/
theorem bracedParameter_eq_ok_iff (hc : c.Placed) {part : Part} :
    bracedParameter c = .ok part c' ↔
      ∃ opener body closer, c.Passes (opener :: (body ++ [closer])) c' ∧
        opener.kind = .startExpansion ∧ body ≠ [] ∧
        (∀ lexeme ∈ body, lexeme.kind ≠ .rightBrace) ∧ closer.kind = .rightBrace ∧
        part = .parameter (String.ofList (body.flatMap Lexeme.text)) := by
  constructor
  · intro h
    obtain ⟨opener, c₁, hopener, h⟩ := bind_eq_ok_iff.1 h
    obtain ⟨hkind, -, hstep⟩ := (require_eq_ok_iff (by simp)).1 hopener
    rw [current_bind_apply] at h
    by_cases hbrace : c₁.current.kind = .rightBrace
    · simp [hbrace] at h
    · rw [if_neg hbrace] at h
      obtain ⟨name, c₂, hloop, hpure⟩ := bind_eq_ok_iff.1 h
      obtain ⟨rfl, rfl⟩ := EStateM.Result.ok.inj hpure
      obtain ⟨body, closer, hpasses, hbody, hcloser, rfl⟩ :=
        (loop_bracedNameRound_eq_ok_iff (hstep.placed hc)).1 hloop
      refine ⟨c.current, body, closer, hstep.trans hpasses, hkind, ?_, hbody, hcloser, by simp⟩
      rintro rfl
      obtain ⟨-, rfl, -⟩ := passes_cons_iff.1 hpasses
      exact hbrace hcloser
  · intro h
    obtain ⟨opener, body, closer, hpasses, hopener, hne, hbody, hcloser, rfl⟩ := h
    obtain ⟨rfl, c₁, hstep, hrest⟩ := passes_cons_iff_step.1 hpasses
    refine bind_eq_ok_iff.2
      ⟨c.current, c₁, (require_eq_ok_iff (by simp)).2 ⟨hopener, rfl, hstep⟩, ?_⟩
    obtain ⟨first, body, rfl⟩ := List.exists_cons_of_ne_nil hne
    have hbrace : c₁.current.kind ≠ .rightBrace := by
      rw [(passes_cons_iff_step.1 hrest).1]
      exact hbody first (by simp)
    rw [current_bind_apply, if_neg hbrace]
    exact bind_eq_ok_iff.2 ⟨_, c', (loop_bracedNameRound_eq_ok_iff (hstep.placed hc)).2
      ⟨first :: body, closer, hrest, hbody, hcloser, rfl⟩, by simp⟩

/-! ### Parts -/

/-- Whether a lexeme of a kind starts a part that is not text. -/
def startsPart (inBackticks quoted : Bool) : TokenKind → Bool
  | .unbracedParameter | .startExpansion | .startSubstitution => true
  | .backtick => !inBackticks
  | .globStar | .globOne | .globCharset => !quoted
  | _ => false

theorem isText_eq_false_of_startsPart {inBackticks : Bool} {kind : TokenKind}
    (h : startsPart inBackticks quoted kind = true) : isText quoted kind = false := by
  cases kind <;> cases quoted <;> simp_all [startsPart, isText]

/-- What a part of a word gives, by the lexeme at which it starts. -/
inductive PartAt (context : Context) (quoted : Bool) (c : Cursor) : Option Part → Cursor → Prop
  /-- A parameter without braces. -/
  | parameter {c' : Cursor} (hkind : c.current.kind = .unbracedParameter)
      (hpasses : c.Passes [c.current] c') :
      PartAt context quoted c (some (.parameter (String.ofList c.current.text.tail))) c'
  /-- A parameter in braces. -/
  | braced {part : Part} {c' : Cursor} (hkind : c.current.kind = .startExpansion)
      (h : bracedParameter c = .ok part c') : PartAt context quoted c (some part) c'
  /-- A substitution in backticks. -/
  | backticks {part : Part} {c' : Cursor} (hkind : c.current.kind = .backtick)
      (hcontext : context.inBackticks = false)
      (h : substitution context .backtick .backtick true c = .ok part c') :
      PartAt context quoted c (some part) c'
  /-- A substitution in parentheses. -/
  | parentheses {part : Part} {c' : Cursor} (hkind : c.current.kind = .startSubstitution)
      (h : substitution context .startSubstitution .rightParen context.inBackticks c =
        .ok part c') : PartAt context quoted c (some part) c'
  /-- Any characters. -/
  | star {c' : Cursor} (hquoted : quoted = false) (hkind : c.current.kind = .globStar)
      (hpasses : c.Passes [c.current] c') : PartAt context quoted c (some (.glob .star)) c'
  /-- Any one character. -/
  | one {c' : Cursor} (hquoted : quoted = false) (hkind : c.current.kind = .globOne)
      (hpasses : c.Passes [c.current] c') : PartAt context quoted c (some (.glob .one)) c'
  /-- One character of a set. -/
  | charset {c' : Cursor} (hquoted : quoted = false) (hkind : c.current.kind = .globCharset)
      (hpasses : c.Passes [c.current] c') :
      PartAt context quoted c
        (some (.glob (.charset (String.ofList (inside c.current.text))))) c'
  /-- A run of text, possibly empty. -/
  | text {part : Option Part} {c' : Cursor}
      (hkind : startsPart context.inBackticks quoted c.current.kind = false)
      (h : text? quoted c = .ok part c') : PartAt context quoted c part c'

theorem part?_of_startsPart_eq_false
    (h : startsPart context.inBackticks quoted c.current.kind = false) :
    part? context quoted c = text? quoted c := by
  rw [part?, current_bind_apply]
  cases hkind : c.current.kind <;> cases quoted <;> simp_all [startsPart]

private theorem take_some_eq_ok_iff (hkind : c.current.kind ≠ .stop) {part : Part}
    {part' : Option Part} :
    (do let _ ← take; return some part : Production (Option Part)) c = .ok part' c' ↔
      part' = some part ∧ c.Passes [c.current] c' := by
  simp only [bind_eq_ok_iff, take_eq_ok_iff hkind]
  constructor
  · intro h
    obtain ⟨_, _, ⟨-, hpasses⟩, hpure⟩ := h
    obtain ⟨rfl, rfl⟩ := EStateM.Result.ok.inj hpure
    exact ⟨rfl, hpasses⟩
  · intro h
    obtain ⟨rfl, hpasses⟩ := h
    exact ⟨_, _, ⟨rfl, hpasses⟩, rfl⟩

/-- The dollar sign of a parameter can always be stripped. -/
theorem part?_of_unbracedParameter (hc : c.Placed)
    (hkind : c.current.kind = .unbracedParameter) :
    part? context quoted c =
      (do let _ ← take; return some (.parameter (String.ofList c.current.text.tail)) :
        Production (Option Part)) c := by
  have hscanned := hc.scanned (by simp [hkind])
  simp only [part?, current_bind_apply, hkind]
  exact tokenText_nil_bind_of_strip? hkind (hscanned.strip?_of_unbracedParameter hkind) _

/-- The brackets of a set of characters can always be stripped. -/
theorem part?_of_globCharset (hc : c.Placed) (hkind : c.current.kind = .globCharset) :
    part? context false c =
      (do let _ ← take; return some (.glob (.charset (String.ofList (inside c.current.text)))) :
        Production (Option Part)) c := by
  have hscanned := hc.scanned (by simp [hkind])
  simp only [part?, current_bind_apply, hkind]
  exact tokenText_nil_bind_of_strip? hkind (hscanned.strip?_of_globCharset hkind) _

/-- The lexeme at the cursor decides what a part gives. -/
theorem partAt_of_part? (hc : c.Placed) {part : Option Part}
    (h : part? context quoted c = .ok part c') :
    PartAt context quoted c part c' := by
  by_cases htext : startsPart context.inBackticks quoted c.current.kind = false
  · exact .text htext (part?_of_startsPart_eq_false htext ▸ h)
  cases hkind : c.current.kind
  case unbracedParameter =>
    rw [part?_of_unbracedParameter hc hkind] at h
    obtain ⟨rfl, hpasses⟩ := (take_some_eq_ok_iff (by simp [hkind])).1 h
    exact .parameter hkind hpasses
  case globCharset =>
    obtain rfl : quoted = false := by simpa [hkind, startsPart] using htext
    rw [part?_of_globCharset hc hkind] at h
    obtain ⟨rfl, hpasses⟩ := (take_some_eq_ok_iff (by simp [hkind])).1 h
    exact .charset rfl hkind hpasses
  all_goals rw [part?, current_bind_apply] at h
  case startExpansion =>
    simp only [hkind] at h
    obtain ⟨part, hpart, rfl⟩ := map_eq_ok_iff.1 h
    exact .braced hkind hpart
  case backtick =>
    have hcontext : context.inBackticks = false := by simpa [hkind, startsPart] using htext
    simp only [hkind, hcontext] at h
    obtain ⟨part, hpart, rfl⟩ := map_eq_ok_iff.1 h
    exact .backticks hkind hcontext hpart
  case startSubstitution =>
    simp only [hkind] at h
    obtain ⟨part, hpart, rfl⟩ := map_eq_ok_iff.1 h
    exact .parentheses hkind hpart
  case globStar =>
    obtain rfl : quoted = false := by simpa [hkind, startsPart] using htext
    simp only [hkind] at h
    obtain ⟨rfl, hpasses⟩ := (take_some_eq_ok_iff (by simp [hkind])).1 h
    exact .star rfl hkind hpasses
  case globOne =>
    obtain rfl : quoted = false := by simpa [hkind, startsPart] using htext
    simp only [hkind] at h
    obtain ⟨rfl, hpasses⟩ := (take_some_eq_ok_iff (by simp [hkind])).1 h
    exact .one rfl hkind hpasses
  -- no lexeme of another kind starts a part
  all_goals simp [hkind, startsPart] at htext

theorem PartAt.part?_eq_ok {part : Option Part} (h : PartAt context quoted c part c')
    (hc : c.Placed) :
    part? context quoted c = .ok part c' := by
  cases h with
  | text hkind h => rwa [part?_of_startsPart_eq_false hkind]
  | parameter hkind hpasses =>
    rw [part?_of_unbracedParameter hc hkind]
    exact (take_some_eq_ok_iff (by simp [hkind])).2 ⟨rfl, hpasses⟩
  | braced hkind h =>
    simp only [part?, current_bind_apply, hkind]
    exact map_eq_ok_iff.2 ⟨_, h, rfl⟩
  | backticks hkind hcontext h =>
    simp only [part?, current_bind_apply, hkind, hcontext]
    exact map_eq_ok_iff.2 ⟨_, h, rfl⟩
  | parentheses hkind h =>
    simp only [part?, current_bind_apply, hkind]
    exact map_eq_ok_iff.2 ⟨_, h, rfl⟩
  | star hquoted hkind hpasses =>
    simp only [part?, current_bind_apply, hkind, hquoted]
    exact (take_some_eq_ok_iff (by simp [hkind])).2 ⟨rfl, hpasses⟩
  | one hquoted hkind hpasses =>
    simp only [part?, current_bind_apply, hkind, hquoted]
    exact (take_some_eq_ok_iff (by simp [hkind])).2 ⟨rfl, hpasses⟩
  | charset hquoted hkind hpasses =>
    rw [hquoted, part?_of_globCharset hc hkind]
    exact (take_some_eq_ok_iff (by simp [hkind])).2 ⟨rfl, hpasses⟩

theorem part?_eq_ok_iff (hc : c.Placed) {part : Option Part} :
    part? context quoted c = .ok part c' ↔ PartAt context quoted c part c' :=
  ⟨partAt_of_part? hc, fun h => h.part?_eq_ok hc⟩

/-- A lexeme that stands for no text at all, outside or inside double quotes. -/
def IsBlankText (quoted : Bool) (lexeme : Lexeme) : Prop :=
  isText quoted lexeme.kind = true ∧ textOf quoted lexeme = []

theorem isEmptyText_of_isBlankText {lexeme : Lexeme} (hscanned : lexeme.Scanned)
    (h : IsBlankText quoted lexeme) : quoted = false ∧ lexeme.IsEmptyText :=
  empty_of_textOf?_eq_nil hscanned (h.2 ▸ textOf?_eq_some h.1)

theorem literal?_eq_none_iff {text : String} : Part.literal? text = none ↔ text = "" := by
  simp [Part.literal?]

theorem literal?_ofList_eq_none_iff {lexemes : List Lexeme}
    (h : ∀ lexeme ∈ lexemes, isText quoted lexeme.kind = true) :
    Part.literal? (String.ofList (lexemes.flatMap (textOf quoted))) = none ↔
      ∀ lexeme ∈ lexemes, IsBlankText quoted lexeme := by
  rw [literal?_eq_none_iff, String.ofList_eq_empty_iff, List.flatMap_eq_nil_iff]
  exact ⟨fun hnil lexeme hmem => ⟨h lexeme hmem, hnil lexeme hmem⟩,
    fun hblank lexeme hmem => (hblank lexeme hmem).2⟩

/-- No part stands at the cursor, though some text that stands for nothing may. -/
theorem part?_eq_none_iff (hc : c.Placed) :
    part? context quoted c = .ok none c' ↔
      startsPart context.inBackticks quoted c.current.kind = false ∧
        ∃ lexemes, c.Passes lexemes c' ∧ (∀ lexeme ∈ lexemes, IsBlankText quoted lexeme) ∧
          isText quoted c'.current.kind = false := by
  rw [part?_eq_ok_iff hc]
  constructor
  · intro h
    cases h with
    | text hkind h =>
      obtain ⟨lexemes, hpasses, htext, hend, hnone⟩ := (text?_eq_ok_iff hc).1 h
      exact ⟨hkind, lexemes, hpasses, (literal?_ofList_eq_none_iff htext).1 hnone.symm, hend⟩
  · intro h
    obtain ⟨hkind, lexemes, hpasses, hblank, hend⟩ := h
    have htext lexeme (hmem : lexeme ∈ lexemes) := (hblank lexeme hmem).1
    exact .text hkind ((text?_eq_ok_iff hc).2
      ⟨lexemes, hpasses, htext, hend, ((literal?_ofList_eq_none_iff htext).2 hblank).symm⟩)

/-- In double quotes no text stands for nothing. -/
theorem eq_of_part?_eq_none (hc : c.Placed) (h : part? context true c = .ok none c') : c = c' := by
  obtain ⟨-, lexemes, hpasses, hblank, -⟩ := (part?_eq_none_iff hc).1 h
  cases lexemes with
  | nil => exact passes_nil_iff.1 hpasses
  | cons lexeme lexemes =>
    have hscanned := hpasses.scanned hc lexeme (by simp)
    simpa using (isEmptyText_of_isBlankText hscanned (hblank lexeme (by simp))).1

/-- A part passes the lexeme at which it starts. -/
theorem passes_of_part?_eq_some (hcontext : ContextOrderly context) (hc : c.Placed) {part : Part}
    (h : part? context quoted c = .ok (some part) c') :
    ∃ lexemes, c.Passes (c.current :: lexemes) c' := by
  obtain ⟨lexemes, hpasses⟩ := (orderly_part? hcontext quoted hc).passes h
  cases lexemes with
  | cons lexeme lexemes =>
    obtain ⟨rfl, -⟩ := passes_cons_iff_step.1 hpasses
    exact ⟨lexemes, hpasses⟩
  | nil =>
    -- each case leaves at least the lexeme behind at which it starts
    exfalso
    cases (part?_eq_ok_iff hc).1 h with
    | parameter _ hstep | star _ _ hstep | one _ _ hstep | charset _ _ hstep =>
      exact absurd (hpasses.unique hstep hc) (by simp)
    | braced _ h =>
      obtain ⟨opener, body, closer, hbraced, -⟩ := (bracedParameter_eq_ok_iff hc).1 h
      exact absurd (hpasses.unique hbraced hc) (by simp)
    | backticks _ _ h | parentheses _ h =>
      obtain ⟨script, c₁, body, c₂, hscript, -, hopener, hbody, -, hcloser, -⟩ :=
        (substitution_eq_ok_iff (by simp) (by simp)).1 h
      obtain ⟨inner, hinner⟩ :=
        (hcontext script hscript _ (hopener.placed hc)).passes hbody
      have := (hopener.trans (hinner.trans hcloser)).unique hpasses hc
      simp at this
    | text _ h =>
      obtain ⟨lexemes, htext, -, -, hliteral⟩ := (text?_eq_ok_iff hc).1 h
      obtain rfl := hpasses.unique htext hc
      simp [Part.literal?] at hliteral

end CommandSyntax.Production
