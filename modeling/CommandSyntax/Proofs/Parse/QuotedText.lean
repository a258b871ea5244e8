import CommandSyntax.Proofs.Grammar.Alone
import CommandSyntax.Proofs.Grammar.Origin
import CommandSyntax.Proofs.Parse.Trace
import CommandSyntax.Proofs.Token.Pairing
import CommandSyntax.Script.Equality

/-!
# CommandSyntax.Proofs.Parse.QuotedText

**What a quotation means.** A word that is a pair of double quotes with text between them is one
literal. The tokens between the quotes are taken one by one, whitespace and sets of characters
as they are written and everything else with its escapes resolved (`Token.quotedText`).

Since no token cuts an escape in two, this is the text between the quotes with all escapes
resolved, exactly when the tokens that are taken as they are written have no escapes
(`text?_of_quotation`). A newline behind a backslash and a blank is an escape that stays.
-/

namespace CommandSyntax

open Production Cursor

/-! ### Quotations as tokens -/

/-- The kinds of tokens that end a run of text in double quotes, or start a part of their own. -/
def interruptions : List TokenKind :=
  [.doubleQuote, .unbracedParameter, .startExpansion, .startSubstitution, .backtick]

/-- The tokens of some bytes are a double quote, text without interruptions and a double quote. -/
structure Quotation (input : String) (span : Span) (opener : Token) (body : List Token)
    (closer : Token) : Prop where
  /-- The tokens stand next to each other. -/
  tokens : ∃ front back, tokenize input = .ok (front ++ opener :: (body ++ closer :: back))
  /-- The first token opens the quotation. -/
  opener_kind : opener.kind = .doubleQuote
  /-- The last token closes it. -/
  closer_kind : closer.kind = .doubleQuote
  /-- Nothing interrupts the text between them. -/
  body_kind : ∀ token ∈ body, token.kind ∉ interruptions
  /-- The bytes reach from the first token to the last. -/
  span_eq : span = ⟨opener.start, closer.stop⟩

/-- The text that a token stands for in double quotes. -/
def Token.quotedText (input : String) (token : Token) : List Char :=
  if keepsEscapes token.kind then (token.text input).toList
  else Quoting.double (token.text input).toList

/-! ### A quotation, seen from its first cursor -/

namespace Production

section

variable {context : Context} {quoted : Bool} {c c' : Cursor} {parts : List Part}
  {opener closer : Lexeme} {body : List Lexeme}

theorem startsPart_of_notMem_interruptions {inBackticks : Bool} {kind : TokenKind}
    (h : kind ∉ interruptions) : startsPart inBackticks true kind = false := by
  cases kind <;> simp_all [interruptions, startsPart]

/-- At a lexeme that is neither text nor the start of a part, a quotation can only be closed. -/
theorem PartsFrom.kind_eq_doubleQuote (hc : c.Placed) (h : PartsFrom context true c parts c')
    (htext : isText true c.current.kind = false)
    (hstarts : startsPart context.inBackticks true c.current.kind = false) :
    c.current.kind = .doubleQuote := by
  by_contra hkind
  cases h with
  | done hends =>
    obtain ⟨quotes, blanks, hpasses, hquotes, hodd, -⟩ := hends.passes
    cases quotes with
    | nil => simp at hodd
    | cons quote quotes =>
      obtain ⟨rfl, -⟩ := passes_cons_iff_step.1 hpasses
      exact hkind (hquotes _ List.mem_cons_self)
  | part htoggle hpart =>
    obtain ⟨quotes, hpasses, hquotes, -, hquoted⟩ := (toggleQuotes_eq_ok_iff hc).1 htoggle
    cases quotes with
    | nil =>
      obtain rfl := passes_nil_iff.1 hpasses
      obtain rfl : _ = true := by simpa using hquoted
      rw [part?_of_startsPart_eq_false hstarts] at hpart
      obtain ⟨lexemes, hlexemes, hne, hall⟩ := passes_of_text?_eq_some hc hpart
      obtain ⟨lexeme, lexemes, rfl⟩ := List.exists_cons_of_ne_nil hne
      obtain ⟨rfl, -⟩ := passes_cons_iff_step.1 hlexemes
      simp [htext] at hall
    | cons quote quotes =>
      obtain ⟨rfl, -⟩ := passes_cons_iff_step.1 hpasses
      exact hkind (hquotes _ List.mem_cons_self)

/-- A word that ends with the next quote has no further part. -/
theorem PartsFrom.eq_nil_of_passes_quote (hcontext : ContextOrderly context) (hc : c.Placed)
    (h : PartsFrom context quoted c parts c') (hpasses : c.Passes [closer] c')
    (hcloser : closer.kind = .doubleQuote) : parts = [] := by
  cases h with
  | done => rfl
  | part htoggle hpart hrest =>
    obtain ⟨quotes, hquotes, -, hkind, -⟩ := (toggleQuotes_eq_ok_iff hc).1 htoggle
    have hc₁ := hquotes.placed hc
    obtain ⟨first, hfirst⟩ := passes_of_part?_eq_some hcontext hc₁ hpart
    obtain ⟨further, hfurther, -⟩ := hrest.passes hcontext (hfirst.placed hc₁)
    -- the part would have to start with the quote
    have hsplit := hpasses.unique (hquotes.trans (hfirst.trans hfurther)) hc
    cases quotes with
    | nil =>
      obtain ⟨rfl, -⟩ := List.cons.inj hsplit
      exact absurd hcloser hkind
    | cons => simp at hsplit

/-- Behind the opening quote the text reaches to the closing quote, since nothing interrupts it. -/
theorem PartsFrom.of_text (hcontext : ContextOrderly context) (hc : c.Placed) {c₁ : Cursor}
    (hpasses : c.Passes (body ++ [closer]) c') (hcloser : closer.kind = .doubleQuote)
    (hbody : ∀ lexeme ∈ body, lexeme.kind ∉ interruptions) {part : Part}
    (hpart : text? true c = .ok (some part) c₁) (hrest : PartsFrom context true c₁ parts c') :
    (∀ lexeme ∈ body, isText true lexeme.kind = true) ∧
      part :: parts = [.literal (String.ofList (body.flatMap (textOf true)))] := by
  obtain ⟨run, hrun, htext, hend, hliteral⟩ := (text?_eq_ok_iff hc).1 hpart
  have hc₁ := hrun.placed hc
  obtain ⟨hopen, -⟩ | ⟨front, last, hlast, -⟩ := hrest.exists_last hcontext hc₁
  · simp at hopen
  have hsplit := hpasses.unique (hrun.trans hlast) hc
  rw [← List.append_assoc] at hsplit
  obtain ⟨rfl, hcloserLast⟩ := List.append_inj' hsplit rfl
  obtain rfl := List.singleton_inj.1 hcloserLast
  obtain rfl : front = [] := by
    cases front with
    | nil => rfl
    | cons next front =>
      obtain ⟨rfl, -⟩ := passes_cons_iff_step.1 hlast
      have hnext := hbody c₁.current (by simp)
      have hquote := hrest.kind_eq_doubleQuote hc₁ hend (startsPart_of_notMem_interruptions hnext)
      simp [hquote, interruptions] at hnext
  rw [List.append_nil]
  refine ⟨htext, ?_⟩
  rw [hrest.eq_nil_of_passes_quote hcontext hc₁ hlast hcloser]
  rw [Part.literal?] at hliteral
  split at hliteral
  · simp at hliteral
  · rw [Option.some.inj hliteral]

/-- The parts of a quotation: one literal of what the text between the quotes means. -/
theorem PartsFrom.of_quotation (hcontext : ContextOrderly context) (hc : c.Placed)
    (hpasses : c.Passes (opener :: (body ++ [closer])) c') (hopener : opener.kind = .doubleQuote)
    (hcloser : closer.kind = .doubleQuote) (hbody : ∀ lexeme ∈ body, lexeme.kind ∉ interruptions)
    (h : PartsFrom context false c parts c') (hne : parts ≠ []) :
    (∀ lexeme ∈ body, isText true lexeme.kind = true) ∧
      parts = [.literal (String.ofList (body.flatMap (textOf true)))] := by
  cases h with
  | done => exact absurd rfl hne
  | @part _ quoted₁ _ c₁ c₂ _ part parts htoggle hpart hrest =>
    obtain ⟨quotes, hquotes, hall, hkind, hquoted⟩ := (toggleQuotes_eq_ok_iff hc).1 htoggle
    have hc₁ := hquotes.placed hc
    obtain ⟨first, hfirst⟩ := passes_of_part?_eq_some hcontext hc₁ hpart
    obtain ⟨further, hfurther, -⟩ := hrest.passes hcontext (hfirst.placed hc₁)
    have hsplit := hpasses.unique (hquotes.trans (hfirst.trans hfurther)) hc
    -- only the opening quote is passed before the part, which is the text behind it
    obtain rfl : quotes = [opener] := by
      match quotes, body with
      | [], _ => simp_all
      | [quote], _ => simp_all
      | quote :: quote' :: more, [] => simp at hsplit
      | quote :: quote' :: more, lexeme :: body => simp_all [interruptions]
    obtain rfl : quoted₁ = true := by simpa using hquoted
    obtain ⟨-, hsplit⟩ := List.cons.inj hsplit
    have hcurrent : c₁.current ∈ body := by
      have hmem : c₁.current ∈ body ++ [closer] := by simp [hsplit]
      rcases List.mem_append.1 hmem with hmem | hmem
      · exact hmem
      · exact absurd (List.mem_singleton.1 hmem ▸ hcloser) hkind
    rw [part?_of_startsPart_eq_false (startsPart_of_notMem_interruptions (hbody _ hcurrent))]
      at hpart
    have hpasses₁ : c₁.Passes (body ++ [closer]) c' := hsplit ▸ hfirst.trans hfurther
    exact hrest.of_text hcontext hc₁ hpasses₁ hcloser hbody hpart

end

end Production

/-! ### A quotation of a parsed tree -/

section

variable {limits : ParseLimits} {input : String} {script : Script} {word : Word}
  {opener closer : Token} {body front back : List Token}

/-- Between the start of a token and the end of another, the tokens in between are passed. -/
theorem lexemes_between {c d d' : Cursor} {before passed : List Lexeme} (hopens : c.Opens input)
    (hbefore : c.Passes before d) (hpassed : d.Passes passed d')
    (htokens : tokenize input = .ok (front ++ opener :: (body ++ closer :: back)))
    (hkind : closer.kind ≠ .stop) (hstart : opener.start = d.current.start)
    (hstop : closer.stop = d'.current.start) :
    ∃ (first : Lexeme) (lexemes : List Lexeme) (last : Lexeme) (rest : List Lexeme)
        (position : Nat),
      passed = first :: (lexemes ++ [last]) ∧ first.token = opener ∧
      lexemes.map Lexeme.token = body ∧ last.token = closer ∧
      TokenStream.ofString input = TokenStream.prepend (before ++ passed ++ rest)
        (.finished position) := by
  obtain ⟨rest, position, hstream, hall, -⟩ :=
    lexemes_of_passes hopens htokens (hbefore.trans hpassed)
  have hsplit : (before ++ passed ++ rest).map Lexeme.token ++ [Token.endMarker position] =
      (front ++ opener :: body) ++ closer :: back := by
    rw [← hall, List.append_assoc, List.cons_append]
  obtain ⟨firsts, last, after, hlexemes, hfirsts, rfl⟩ := lexemes_of_tokens hkind hsplit
  obtain ⟨earlier, middle, rfl, -, hmiddle⟩ := List.map_eq_append_iff.1 hfirsts
  obtain ⟨first, lexemes, rfl, rfl, rfl⟩ := List.map_eq_cons_iff.1 hmiddle
  refine ⟨first, lexemes, last, rest, position, ?_, rfl, rfl, rfl, hstream⟩
  -- both divisions of the lexemes of the input are at the same places
  have hne (lexeme) (hmem : lexeme ∈ before ++ passed ++ rest) : lexeme.text ≠ [] :=
    ((hstream ▸ Cursor.Opens.tiles_ofString input).scanned lexeme hmem).text_ne_nil
  have hbefore' := hopens.start_eq ▸ hbefore.laidOut hopens.placed
  have hpassed' := hpassed.laidOut (hbefore.placed hopens.placed)
  have hlaid := TokenStream.laidOut_of_ofText (hlexemes ▸ hstream)
  simp only [List.append_assoc, List.cons_append, Lexeme.laidOut_append_iff, Lexeme.LaidOut]
    at hlaid
  obtain ⟨_, hearlier, rfl, _, hinner, rfl, -⟩ := hlaid
  have hquotation : Lexeme.LaidOut first.start (first :: (lexemes ++ [last])) last.stop :=
    ⟨rfl, Lexeme.laidOut_append_iff.2 ⟨last.start, hinner, rfl, rfl⟩⟩
  have hcut : before ++ (passed ++ rest) = earlier ++ (first :: (lexemes ++ [last]) ++ after) := by
    simpa using hlexemes
  obtain ⟨rfl, hcut'⟩ := hbefore'.unique (hstart ▸ hearlier) hcut (by simpa using hne)
  exact (hpassed'.unique (hstart ▸ hstop ▸ hquotation) hcut' fun lexeme hmem =>
    hne lexeme (by rw [List.append_assoc]; exact List.mem_append_right _ hmem)).1

/-- The lexemes of a quotation, and the one part that they make. -/
theorem Quotation.exists_lexemes (h : Quotation input word.span opener body closer)
    (hparse : parse limits input = .ok script) (hword : .word word ∈ script.nodes) :
    ∃ (before : List Lexeme) (first : Lexeme) (lexemes : List Lexeme) (last : Lexeme)
        (rest : List Lexeme) (position : Nat),
      TokenStream.ofString input = TokenStream.prepend
        (before ++ first :: (lexemes ++ last :: rest)) (.finished position) ∧
      first.token = opener ∧ lexemes.map Lexeme.token = body ∧ last.token = closer ∧
      (∀ lexeme ∈ lexemes, isText true lexeme.kind = true) ∧
      word.parts = [.literal (String.ofList (lexemes.flatMap (textOf true)))] := by
  obtain ⟨c, c', hopens, hscript, -⟩ := parse_eq_ok_iff.1 hparse
  obtain ⟨levels, inBackticks, d, d', ⟨before, hbefore⟩, -, hgiven⟩ :=
    given_of_mem_nodes hopens.placed hscript _ hword
  have hd := hbefore.placed hopens.placed
  have hcontext := levelContext_orderly limits.nesting levels inBackticks
  obtain ⟨hparts, hne, hspan⟩ := (word?_eq_some_iff hcontext hd).1 hgiven
  obtain ⟨passed, hpassed, hend⟩ :
      ∃ passed, d.Passes passed d' ∧ d'.lastEnd = d'.current.start := by
    rcases hparts.exists_last hcontext hd with ⟨-, hnil, -⟩ | ⟨front, last, hpasses, hkind⟩
    · exact absurd hnil hne
    · exact ⟨_, hpasses, hpasses.lastEnd_eq hd hkind⟩
  rw [h.span_eq, hend, Span.mk.injEq] at hspan
  obtain ⟨front, back, htokens⟩ := h.tokens
  obtain ⟨first, lexemes, last, rest, position, rfl, rfl, rfl, rfl, hstream⟩ :=
    lexemes_between hopens hbefore hpassed htokens (by simp [h.closer_kind]) hspan.1 hspan.2
  obtain ⟨htext, hliteral⟩ := hparts.of_quotation hcontext hd hpassed h.opener_kind h.closer_kind
    (fun lexeme hmem => h.body_kind _ (List.mem_map_of_mem hmem)) hne
  exact ⟨before, first, lexemes, last, rest, position, by simpa using hstream, rfl, rfl, rfl,
    htext, hliteral⟩

section

variable {before lexemes rest : List Lexeme} {first last lexeme : Lexeme} {stream : TokenStream}

/-- A token of an input stands for what its lexeme means in double quotes. -/
theorem quotedText_token
    (h : TokenStream.ofString input = TokenStream.prepend (before ++ lexeme :: rest) stream)
    (htext : isText true lexeme.kind = true) :
    lexeme.token.quotedText input = textOf true lexeme := by
  have hscanned := (h ▸ Cursor.Opens.tiles_ofString input).scanned lexeme (by simp)
  rw [Token.quotedText, TokenStream.text_token_of_ofString h, String.toList_ofList,
    textOf_true hscanned htext]
  rfl

/-- The text between two lexemes is that of the lexemes between them. -/
theorem slice_between
    (h : TokenStream.ofString input =
      TokenStream.prepend (before ++ first :: (lexemes ++ last :: rest)) stream) :
    Span.slice ⟨first.stop, last.start⟩ input = String.ofList (lexemes.flatMap Lexeme.text) := by
  have hlaid := TokenStream.laidOut_of_ofText h
  simp only [Lexeme.laidOut_append_iff, Lexeme.LaidOut] at hlaid
  obtain ⟨_, hbefore, rfl, _, hinner, rfl, -⟩ := hlaid
  have hsplit : TokenStream.ofString input =
      TokenStream.prepend ((before ++ [first]) ++ lexemes ++ (last :: rest)) stream := by
    simpa using h
  exact TokenStream.slice_of_ofString hsplit
    (Lexeme.laidOut_append_iff.2 ⟨_, hbefore, rfl, rfl⟩) hinner

/-- Text in double quotes between two lexemes leaves no escape unfinished. -/
theorem closed_between
    (h : TokenStream.ofString input =
      TokenStream.prepend (before ++ first :: (lexemes ++ last :: rest)) stream)
    (htext : ∀ lexeme ∈ lexemes, isText true lexeme.kind = true) :
    ∀ lexeme ∈ lexemes, Quoting.Closed lexeme.text := by
  rw [List.append_cons, TokenStream.prepend_append] at h
  obtain ⟨text, -, hstream⟩ := TokenStream.eq_append_of_ofText h
  exact Lexeme.closed_of_ofText hstream.symm htext

/-- The lexemes of a text in double quotes mean what the whole text means, exactly when none that
keeps its escapes has any. -/
theorem flatMap_textOf_eq_double_iff (hscanned : ∀ lexeme ∈ lexemes, lexeme.Scanned)
    (htext : ∀ lexeme ∈ lexemes, isText true lexeme.kind = true)
    (hclosed : ∀ lexeme ∈ lexemes, Quoting.Closed lexeme.text) :
    lexemes.flatMap (textOf true) = Quoting.double (lexemes.flatMap Lexeme.text) ↔
      ∀ lexeme ∈ lexemes, keepsEscapes lexeme.kind →
        Quoting.double lexeme.text = lexeme.text := by
  have htextOf (lexeme) (hmem : lexeme ∈ lexemes) :=
    textOf_true (hscanned lexeme hmem) (htext lexeme hmem)
  have hle : ∀ lexeme ∈ lexemes,
      (Quoting.double lexeme.text).length ≤ (textOf true lexeme).length := by
    intro lexeme hmem
    rw [htextOf lexeme hmem]
    split
    · exact Quoting.length_double_le lexeme.text
    · exact Nat.le_refl _
  rw [Quoting.double_flatMap hclosed, eq_comm, flatMap_eq_iff_of_length_le hle]
  refine forall₂_congr fun lexeme hmem => ?_
  rw [htextOf lexeme hmem]
  by_cases hkeeps : keepsEscapes lexeme.kind <;> simp [hkeeps]

end

/-- **What a quotation means.** A word that is a pair of double quotes with text between them
means what the tokens between the quotes stand for, one after the other. This is the text between
the quotes with all escapes resolved, exactly when no token that keeps its escapes has any. -/
theorem text?_of_quotation (hparse : parse limits input = .ok script)
    (hword : .word word ∈ script.nodes) (h : Quotation input word.span opener body closer) :
    word.text? = some (String.ofList (body.flatMap (Token.quotedText input))) ∧
      (word.text? = some (String.ofList
          (Quoting.double (Span.slice ⟨opener.stop, closer.start⟩ input).toList)) ↔
        ∀ token ∈ body, keepsEscapes token.kind →
          Quoting.double (token.text input).toList = (token.text input).toList) := by
  obtain ⟨before, first, lexemes, last, rest, position, hstream, rfl, rfl, rfl, htext, hparts⟩ :=
    h.exists_lexemes hparse hword
  have hmeans : word.text? = some (String.ofList (lexemes.flatMap (textOf true))) := by
    simp [Word.text?, hparts, Part.text?]
  have hscanned := (hstream ▸ Cursor.Opens.tiles_ofString input).scanned
  -- each token between the quotes, seen as its lexeme
  have htoken : ∀ lexeme ∈ lexemes, lexeme.token.text input = String.ofList lexeme.text ∧
      lexeme.token.quotedText input = textOf true lexeme := by
    intro lexeme hmem
    obtain ⟨front, back, rfl⟩ := List.append_of_mem hmem
    have hstream' : TokenStream.ofString input = TokenStream.prepend
        ((before ++ first :: front) ++ lexeme :: (back ++ last :: rest)) (.finished position) := by
      simpa using hstream
    exact ⟨TokenStream.text_token_of_ofString hstream',
      quotedText_token hstream' (htext lexeme hmem)⟩
  rw [hmeans]
  constructor
  · rw [List.flatMap_map, List.flatMap_congr fun lexeme hmem => (htoken lexeme hmem).2]
  · have hslice : Span.slice ⟨first.token.stop, last.token.start⟩ input =
        String.ofList (lexemes.flatMap Lexeme.text) := slice_between hstream
    rw [hslice, String.toList_ofList, Option.some.injEq, String.ofList_inj,
      flatMap_textOf_eq_double_iff (fun lexeme hmem => hscanned lexeme (by simp [hmem])) htext
        (closed_between hstream htext), List.forall_mem_map]
    refine forall₂_congr fun lexeme hmem => ?_
    rw [(htoken lexeme hmem).1, String.toList_ofList]
    rfl

end

/-! ### An escape that stays -/

/-- The word that a quotation of a blank and an escaped newline is read as. -/
def keptWord : Word := ⟨[.literal "a \\\nb"], ⟨0, 7⟩⟩

/-- The command of that word. -/
def keptCommand : Command where
  assignments := []
  arguments := [keptWord]
  input := none
  output := none
  append := none
  span := ⟨0, 7⟩

theorem parse_kept : parse {} "\"a \\\nb\"" = .ok (.ofCommand keptCommand ⟨0, 7⟩) := by
  decide +kernel

theorem keptWord_mem : .word keptWord ∈ (Script.ofCommand keptCommand ⟨0, 7⟩).nodes := by
  rw [Script.nodes_eq_all]
  refine Node.mem_all_of_child List.mem_cons_self (Node.mem_all_of_child List.mem_cons_self ?_)
  refine Node.mem_all_of_child List.mem_cons_self (Node.mem_all_of_child List.mem_cons_self ?_)
  exact Node.mem_all_self _

theorem quotation_kept : Quotation "\"a \\\nb\"" keptWord.span ⟨.doubleQuote, 0, 1⟩
    [⟨.raw, 1, 1⟩, ⟨.whitespace, 2, 3⟩, ⟨.raw, 5, 1⟩] ⟨.doubleQuote, 6, 1⟩ where
  tokens := ⟨[], [Token.endMarker 7], by decide +kernel⟩
  opener_kind := rfl
  closer_kind := rfl
  body_kind := by decide
  span_eq := rfl

/-- The newline is not removed, since the token of whitespace keeps its escapes. -/
theorem text?_of_quotation_kept :
    keptWord.text? = some (String.ofList (([⟨.raw, 1, 1⟩, ⟨.whitespace, 2, 3⟩, ⟨.raw, 5, 1⟩] :
        List Token).flatMap (Token.quotedText "\"a \\\nb\""))) ∧
      keptWord.text? ≠ some (String.ofList
        (Quoting.double (Span.slice ⟨1, 6⟩ "\"a \\\nb\"").toList)) := by
  obtain ⟨htext, hiff⟩ := text?_of_quotation parse_kept keptWord_mem quotation_kept
  refine ⟨htext, fun hdouble => ?_⟩
  have hwhitespace := hiff.1 hdouble ⟨.whitespace, 2, 3⟩ (by simp) rfl
  revert hwhitespace
  decide

/-- Not every quotation means the text between its quotes with all escapes resolved. -/
theorem exists_kept_escape :
    ¬ ∀ (limits : ParseLimits) (input : String) (script : Script) (word : Word)
        (opener closer : Token) (body : List Token), parse limits input = .ok script →
      .word word ∈ script.nodes → Quotation input word.span opener body closer →
      word.text? = some (String.ofList
        (Quoting.double (Span.slice ⟨opener.stop, closer.start⟩ input).toList)) := by
  intro h
  have htext := h {} _ _ _ _ _ _ parse_kept keptWord_mem quotation_kept
  revert htext
  decide

end CommandSyntax
