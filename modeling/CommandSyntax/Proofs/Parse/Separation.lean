import CommandSyntax.Proofs.Grammar.Origin
import CommandSyntax.Proofs.Parse.Trace
import CommandSyntax.Script.Equality
import Mathlib.Data.List.Chain

/-!
# CommandSyntax.Proofs.Parse.Separation

**Where the words of a command come apart.** Between two assignments or words that
follow each other there is always a byte, whitespace or a redirection, with one
exception: a pair of single quotes with nothing inside ends a word when a lexeme
follows that starts a part of its own (`SplitsAt`). So in `$a''$b` the parameters are
two words, although nothing stands between them.

This is an equivalence, for all commands of a tree. The invariant behind it is `Chained`:
the pieces read so far are separated, and the last of them either ended right here
(`EndedAt`) or is left behind (`Apart`).
-/

namespace CommandSyntax

open Production Cursor

/-! ### Words that the input splits -/

/-- Whether a lexeme of a kind starts a part of a word outside double quotes that is not text. -/
def opensPart (kind : TokenKind) : Bool := startsPart false false kind || kind == .doubleQuote

/-- A pair of single quotes with nothing inside ends at a position, and right behind it a token
starts a part of a word. -/
def SplitsAt (input : String) (position : Nat) : Prop :=
  ∃ front quotes next back, tokenize input = .ok (front ++ quotes :: next :: back) ∧
    quotes.stop = position ∧ quotes.text input = "''" ∧ opensPart next.kind = true

/-- Two pieces are in order, and they touch exactly where the input splits a word. -/
def Separated (input : String) (left right : Span) : Prop :=
  left.stop ≤ right.start ∧ (left.stop = right.start ↔ SplitsAt input left.stop)

/-! ### Splits, seen from a cursor -/

section

variable {input : String} {c₀ c c' : Cursor} {tokens : List Token} {lexemes : List Lexeme}

theorem opensPart_ne_stop {kind : TokenKind} (h : opensPart kind = true) : kind ≠ .stop := by
  rintro rfl
  simp [opensPart, startsPart] at h

/-- The input splits a word at a cursor when the lexeme before it is an empty pair of quotes and
the one at it starts a part. -/
theorem splitsAt_iff (hopens : c₀.Opens input) (htokens : tokenize input = .ok tokens)
    (hpasses : c₀.Passes lexemes c) :
    SplitsAt input c.current.start ↔
      (∃ front quotes, lexemes = front ++ [quotes] ∧ quotes.text = ['\'', '\'']) ∧
        opensPart c.current.kind = true := by
  obtain ⟨rest, position, hstream, rfl, hrest⟩ := lexemes_of_passes hopens htokens hpasses
  have hlaid := hpasses.laidOut hopens.placed
  rw [hopens.start_eq] at hlaid
  constructor
  · intro h
    obtain ⟨front, token, next, back, hsplit, hstop, htext, hnext⟩ := h
    rw [htokens, Except.ok.injEq] at hsplit
    obtain ⟨firsts, lexeme', after, hall, hfirsts, rfl⟩ :=
      lexemes_of_tokens (opensPart_ne_stop hnext) (hsplit.trans (List.append_cons ..))
    obtain ⟨before, last, rfl, -, hlast⟩ := List.map_eq_append_iff.1 hfirsts
    obtain ⟨quotes, rfl, rfl⟩ := List.map_eq_singleton_iff.1 hlast
    rw [List.append_assoc, List.singleton_append] at hall
    rw [hall] at hstream
    have hquotes : quotes.text = ['\'', '\''] := by
      rw [TokenStream.text_token_of_ofString hstream] at htext
      exact String.ofList_inj.1 (htext.trans rfl)
    -- the lexemes up to the quotes cover what the passage covers, so they are its lexemes
    have hlaid' : Lexeme.LaidOut 0 (before ++ [quotes]) c.current.start := by
      obtain ⟨q, hbefore, hstart, -⟩ :=
        Lexeme.laidOut_append_iff.1 (TokenStream.laidOut_of_ofText hstream)
      exact Lexeme.laidOut_append_iff.2 ⟨q, hbefore, hstart, hstop⟩
    have hscanned := (hstream ▸ Cursor.Opens.tiles_ofString input).scanned
    have hcut : lexemes ++ rest = before ++ [quotes] ++ lexeme' :: after := by simpa using hall
    obtain ⟨hlexemes, hafter⟩ := hlaid.unique hlaid' hcut
      fun lexeme hmem => (hscanned lexeme (hall ▸ hmem)).text_ne_nil
    refine ⟨⟨before, quotes, hlexemes, hquotes⟩, ?_⟩
    rw [hafter, TokenStream.prepend_cons] at hrest
    have hkind : c.current.kind ≠ .stop := fun hkind => by
      rw [(hpasses.placed hopens.placed).stream_of_stop hkind] at hrest
      simp at hrest
    rw [stream_of_ne_stop hkind, TokenStream.next.injEq] at hrest
    rw [hrest.1]
    exact hnext
  · intro h
    obtain ⟨⟨front, quotes, rfl, hquotes⟩, hnext⟩ := h
    rw [stream_of_ne_stop (opensPart_ne_stop hnext)] at hrest
    cases rest with
    | nil => simp at hrest
    | cons next back =>
      rw [TokenStream.prepend_cons, TokenStream.next.injEq] at hrest
      obtain ⟨rfl, -⟩ := hrest
      refine ⟨front.map Lexeme.token, quotes.token, c.current.token,
        back.map Lexeme.token ++ [Token.endMarker position], by simp [htokens], ?_, ?_, hnext⟩
      · obtain ⟨q, -, hstart, hstop⟩ := Lexeme.laidOut_append_iff.1 hlaid
        exact hstop
      · rw [List.append_assoc, List.singleton_append] at hstream
        rw [TokenStream.text_token_of_ofString hstream, hquotes]

/-- Behind a backslash that escapes nothing the input ends. -/
theorem kind_eq_stop_of_backslash (hopens : c₀.Opens input) {front : List Lexeme} {last : Lexeme}
    (hpasses : c₀.Passes (front ++ [last]) c) (hkind : last.kind = .raw)
    (hbackslash : last.text = ['\\']) : c.current.kind = .stop := by
  have hstream := hopens.stream_of_passes hpasses
  rw [TokenStream.prepend_append] at hstream
  obtain ⟨rest, -, hrest⟩ := TokenStream.eq_append_of_ofText hstream
  obtain ⟨-, hread, hahead⟩ := TokenStream.read_of_ofText_eq_next hrest.symm
  obtain rfl := Lexeme.eq_of_read_backslash hread hkind hbackslash
  by_cases hkind : c.current.kind = .stop
  · exact hkind
  · simp [hbackslash, stream_of_ne_stop hkind] at hahead

/-- Where a word ends although it could go on, the input splits it. -/
theorem splitsAt_of_endsWord (hopens : c₀.Opens input) (htokens : tokenize input = .ok tokens)
    (hc : c₀.Reaches c) {inBackticks quoted : Bool} (hends : EndsWord inBackticks quoted c c')
    (hin : inWord inBackticks c'.current.kind = true) : SplitsAt input c'.current.start := by
  obtain ⟨front, hfront⟩ := hc
  obtain ⟨quotes, blanks, hpasses, -, -, hblank, hend⟩ := hends.passes
  rcases List.eq_nil_or_concat' blanks with rfl | ⟨blanks, last, rfl⟩
  · simp [hend rfl] at hin
  have hall : c₀.Passes ((front ++ quotes ++ blanks) ++ [last]) c' := by
    simpa using hfront.trans hpasses
  have hopening : opensPart c'.current.kind = true := by
    have := hends.isText_eq_false
    cases hkind : c'.current.kind <;> simp_all [inWord, opensPart, isText, startsPart]
  -- the last text passed stands for nothing: quotes around nothing, or a lone backslash
  have hempty := isEmptyText_of_isBlankText (hall.scanned hopens.placed last (by simp))
    (hblank last (by simp))
  rcases hempty.2 with hquotes | ⟨hraw, hbackslash⟩
  · exact (splitsAt_iff hopens htokens hall).2 ⟨⟨_, last, rfl, hquotes⟩, hopening⟩
  · exact absurd (kind_eq_stop_of_backslash hopens hall hraw hbackslash)
      (opensPart_ne_stop hopening)

/-! ### The pieces read so far -/

/-- A piece ends right at a cursor. If a word can go on there, then the input splits it. -/
structure EndedAt (input : String) (inBackticks : Bool) (piece : Span) (c : Cursor) : Prop where
  /-- The end is the place of the cursor. -/
  stop_eq : piece.stop = c.current.start
  /-- The lexeme at the cursor goes on with a word only behind an empty pair of quotes. -/
  splits : inWord inBackticks c.current.kind = true → SplitsAt input piece.stop

/-- A piece is left behind: something stands between it and a cursor. -/
def Apart (input : String) (piece : Span) (c : Cursor) : Prop :=
  piece.stop < c.current.start ∧ ¬ SplitsAt input piece.stop

/-- Pieces are separated, and the last of them ended right at a cursor or is left behind. -/
structure Chained (input : String) (inBackticks : Bool) (pieces : List Span) (c : Cursor) :
    Prop where
  /-- Each piece is separated from the next. -/
  separated : pieces.IsChain (Separated input)
  /-- Where the last piece ended. -/
  last : ∀ piece ∈ pieces.getLast?, EndedAt input inBackticks piece c ∨ Apart input piece c

variable {inBackticks : Bool} {piece : Span} {pieces : List Span}

theorem Apart.reaches (h : Apart input piece c) (hc : c.Placed) (hreaches : c.Reaches c') :
    Apart input piece c' := by
  obtain ⟨_, hpasses⟩ := hreaches
  exact ⟨Nat.lt_of_lt_of_le h.1 (hpasses.start_le hc), h.2⟩

/-- Passing a lexeme that starts no part leaves a piece behind. -/
theorem EndedAt.apart (hopens : c₀.Opens input) (htokens : tokenize input = .ok tokens)
    (hc : c₀.Reaches c) (h : EndedAt input inBackticks piece c)
    (hkind : opensPart c.current.kind = false) (hpasses : c.Passes lexemes c')
    (hne : lexemes ≠ []) : Apart input piece c' := by
  obtain ⟨front, hfront⟩ := hc
  rw [Apart, h.stop_eq, splitsAt_iff hopens htokens hfront]
  exact ⟨hpasses.start_lt (hfront.placed hopens.placed) hne, by simp [hkind]⟩

theorem Chained.nil (c : Cursor) : Chained input inBackticks [] c :=
  ⟨List.isChain_nil, by simp⟩

theorem Chained.of_apart (hseparated : pieces.IsChain (Separated input))
    (hlast : ∀ piece ∈ pieces.getLast?, Apart input piece c) :
    Chained input inBackticks pieces c :=
  ⟨hseparated, fun piece hmem => .inr (hlast piece hmem)⟩

/-- After a lexeme that starts no part all pieces are left behind. -/
theorem Chained.apart (hopens : c₀.Opens input) (htokens : tokenize input = .ok tokens)
    (hc : c₀.Reaches c) (h : Chained input inBackticks pieces c)
    (hkind : opensPart c.current.kind = false) (hpasses : c.Passes lexemes c')
    (hne : lexemes ≠ []) : ∀ piece ∈ pieces.getLast?, Apart input piece c' := by
  intro piece hmem
  rcases h.last piece hmem with hended | hapart
  · exact hended.apart hopens htokens hc hkind hpasses hne
  · exact hapart.reaches (hc.placed hopens.placed) hpasses.reaches

theorem Chained.skips (hopens : c₀.Opens input) (htokens : tokenize input = .ok tokens)
    (hc : c₀.Reaches c) (h : Chained input inBackticks pieces c) (hskip : c.Skips c') :
    Chained input inBackticks pieces c' := by
  -- skipping nothing changes nothing, and skipping whitespace leaves all pieces behind
  by_cases hkind : c.current.kind = .whitespace
  · obtain ⟨blanks, hblanks, -, hend⟩ := hskip
    refine .of_apart h.separated
      (h.apart hopens htokens hc (by simp [hkind, opensPart, startsPart]) hblanks ?_)
    rintro rfl
    exact hend (passes_nil_iff.1 hblanks ▸ hkind)
  · rwa [← (skips_iff_of_kind_ne hkind).1 hskip]

/-- A piece that starts at the cursor is separated from those before it. -/
theorem Chained.concat (h : Chained input inBackticks pieces c)
    (hstart : piece.start = c.current.start)
    (hin : inWord inBackticks c.current.kind = true) (hended : EndedAt input inBackticks piece c') :
    Chained input inBackticks (pieces ++ [piece]) c' where
  separated := by
    refine List.isChain_append.2 ⟨h.separated, List.isChain_singleton _, ?_⟩
    intro before hmem after hafter
    obtain rfl : piece = after := by simpa using hafter
    rw [Separated, hstart]
    rcases h.last before hmem with hbefore | ⟨hlt, hnot⟩
    · exact ⟨Nat.le_of_eq hbefore.stop_eq, fun _ => hbefore.splits hin, fun _ => hbefore.stop_eq⟩
    · exact ⟨Nat.le_of_lt hlt, fun heq => absurd heq (Nat.ne_of_lt hlt),
        fun hsplits => absurd hsplits hnot⟩
  last := by simpa using .inl hended

/-! ### Every production keeps the pieces chained -/

variable {context : Context}

theorem EndedAt.of_partsFrom (hopens : c₀.Opens input) (htokens : tokenize input = .ok tokens)
    (hcontext : ContextOrderly context) (hc : c₀.Reaches c) {parts : List Part}
    (h : PartsFrom context false c parts c') (hstop : piece.stop = c'.lastEnd)
    (hlast : c'.lastEnd = c'.current.start) : EndedAt input context.inBackticks piece c' where
  stop_eq := hstop.trans hlast
  splits hin := by
    obtain ⟨quoted, d, hd, hends⟩ := h.exists_endsWord hcontext (hc.placed hopens.placed)
    rw [hstop, hlast]
    exact splitsAt_of_endsWord hopens htokens (hc.trans hd) hends hin

/-- A word ends where its production leads. -/
theorem endedAt_of_word? (hopens : c₀.Opens input) (htokens : tokenize input = .ok tokens)
    (hcontext : ContextOrderly context) (hc : c₀.Reaches c) {word : Word}
    (h : word? context c = .ok (some word) c') :
    EndedAt input context.inBackticks word.span c' := by
  have hplaced := hc.placed hopens.placed
  obtain ⟨hparts, hne, hspan⟩ := (word?_eq_some_iff hcontext hplaced).1 h
  rcases hparts.exists_last hcontext hplaced with ⟨-, hnil, -⟩ | ⟨front, last, hpasses, hkind⟩
  · exact absurd hnil hne
  · exact .of_partsFrom hopens htokens hcontext hc hparts (by rw [hspan])
      (hpasses.lastEnd_eq hplaced hkind)

/-- An assignment ends where its production leads. -/
theorem endedAt_of_assignment (hopens : c₀.Opens input) (htokens : tokenize input = .ok tokens)
    (hcontext : ContextOrderly context) (hc : c₀.Reaches c) {result : Assignment}
    (h : assignment context c = .ok result c') :
    EndedAt input context.inBackticks result.span c' := by
  have hplaced := hc.placed hopens.placed
  obtain ⟨c₁, value, hkind, hname, hvalue, rfl⟩ := (assignment_eq_ok_iff hplaced).1 h
  have hc₁ := hname.placed hplaced
  obtain ⟨parts, hparts⟩ : ∃ parts, PartsFrom context false c₁ parts c' := by
    cases value with
    | some word => exact ⟨_, ((word?_eq_some_iff hcontext hc₁).1 hvalue).1⟩
    | none => exact ⟨[], .done ((word?_eq_none_iff hcontext hc₁).1 hvalue)⟩
  refine .of_partsFrom hopens htokens hcontext (hc.trans hname.reaches) hparts rfl ?_
  rcases hparts.exists_last hcontext hc₁ with ⟨-, -, rfl⟩ | ⟨front, last, hpasses, hlast⟩
  · have hall : c.Passes ([] ++ [c.current]) c₁ := hname
    exact hall.lastEnd_eq hplaced (by simp [hkind])
  · have hall : c.Passes ((c.current :: front) ++ [last]) c' := hname.trans hpasses
    exact hall.lastEnd_eq hplaced hlast

theorem Chained.word (hopens : c₀.Opens input) (htokens : tokenize input = .ok tokens)
    (hcontext : ContextOrderly context) (hc : c₀.Reaches c)
    (hchained : Chained input context.inBackticks pieces c) {word : Word}
    (h : word? context c = .ok (some word) c') :
    Chained input context.inBackticks (pieces ++ [word.span]) c' := by
  have hplaced := hc.placed hopens.placed
  have hspan := ((word?_eq_some_iff hcontext hplaced).1 h).2.2
  exact hchained.concat (by rw [hspan]) (inWord_of_word?_eq_some hcontext hplaced h)
    (endedAt_of_word? hopens htokens hcontext hc h)

/-- A word that whitespace follows is left behind. -/
theorem Chained.moreWords (hopens : c₀.Opens input) (htokens : tokenize input = .ok tokens)
    (hcontext : ContextOrderly context) (hc : c₀.Reaches c)
    (hchained : Chained input context.inBackticks pieces c) {run : List Word}
    (h : MoreWords context c run c') :
    (pieces ++ run.map Word.span).IsChain (Separated input) ∧
      ∀ piece ∈ (pieces ++ run.map Word.span).getLast?, Apart input piece c' := by
  obtain ⟨word, c₁, rfl, hword, hkind, blanks, hblanks, -, hend⟩ := h
  have hc₁ : c₀.Reaches c₁ :=
    hc.trans ((orderly_word? hcontext (hc.placed hopens.placed)).passes hword)
  have hnext := hchained.word hopens htokens hcontext hc hword
  refine ⟨hnext.separated,
    hnext.apart hopens htokens hc₁ (by simp [hkind, opensPart, startsPart]) hblanks ?_⟩
  rintro rfl
  exact hend (passes_nil_iff.1 hblanks ▸ hkind)

/-- A run of words that starts behind the pieces keeps them chained. -/
theorem Chained.words_of_apart (hopens : c₀.Opens input) (htokens : tokenize input = .ok tokens)
    (hcontext : ContextOrderly context) (hc : c₀.Reaches c) {run : List Word}
    (h : Gathers (MoreWords context) (LastWords context) c run c')
    (hseparated : pieces.IsChain (Separated input))
    (hlast : ∀ piece ∈ pieces.getLast?, Apart input piece c) :
    Chained input context.inBackticks (pieces ++ run.map Word.span) c' := by
  induction h generalizing pieces with
  | done h =>
    rcases h with ⟨rfl, hword⟩ | ⟨word, rfl, hword, -⟩
    · have hplaced := hc.placed hopens.placed
      have hreaches : Reaches _ _ := (orderly_word? hcontext hplaced).passes hword
      rw [List.map_nil, List.append_nil]
      exact .of_apart hseparated fun piece hmem => (hlast piece hmem).reaches hplaced hreaches
    · exact (Chained.of_apart hseparated hlast).word hopens htokens hcontext hc hword
  | yield hmore _ ih =>
    have hnext := (Chained.of_apart hseparated hlast).moreWords hopens htokens hcontext hc hmore
    have := ih (hc.trans (hmore.reaches hcontext (hc.placed hopens.placed))) hnext.1 hnext.2
    simpa using this

/-- So does a run that starts where the last piece ended, unless it is empty. -/
theorem Chained.words (hopens : c₀.Opens input) (htokens : tokenize input = .ok tokens)
    (hcontext : ContextOrderly context) (hc : c₀.Reaches c)
    (hchained : Chained input context.inBackticks pieces c) {run : List Word} (hne : run ≠ [])
    (h : words context c = .ok run c') :
    Chained input context.inBackticks (pieces ++ run.map Word.span) c' := by
  have hplaced := hc.placed hopens.placed
  cases (words_eq_ok_iff hcontext hplaced).1 h with
  | done h =>
    rcases h with ⟨rfl, -⟩ | ⟨word, rfl, hword, -⟩
    · exact absurd rfl hne
    · exact hchained.word hopens htokens hcontext hc hword
  | yield hmore hrest =>
    have hnext := hchained.moreWords hopens htokens hcontext hc hmore
    have := Chained.words_of_apart hopens htokens hcontext
      (hc.trans (hmore.reaches hcontext hplaced)) hrest hnext.1 hnext.2
    simpa using this

theorem Chained.assignments (hopens : c₀.Opens input) (htokens : tokenize input = .ok tokens)
    (hcontext : ContextOrderly context) (hc : c₀.Reaches c)
    (hchained : Chained input context.inBackticks pieces c) {assigned : List Assignment}
    (h : Gathers (MoreAssignments context) LastAssignments c assigned c') :
    Chained input context.inBackticks (pieces ++ assigned.map Assignment.span) c' := by
  induction h generalizing pieces with
  | done h =>
    obtain ⟨rfl, hskip, -⟩ := h
    simpa using hchained.skips hopens htokens hc hskip
  | yield hmore _ ih =>
    obtain ⟨result, c₁, rfl, hskip, hresult⟩ := hmore
    have hc₁ := hc.trans hskip.reaches
    have hplaced := hc₁.placed hopens.placed
    obtain ⟨c₂, value, hkind, -, -, hspan⟩ := (assignment_eq_ok_iff hplaced).1 hresult
    have hstart : result.span.start = c₁.current.start := by rw [hspan]
    have hnext := (hchained.skips hopens htokens hc hskip).concat hstart
      (by simp [inWord, isText, hkind])
      (endedAt_of_assignment hopens htokens hcontext hc₁ hresult)
    have := ih (hc₁.trans ((orderly_assignment hcontext hplaced).passes hresult)) hnext
    simpa using this

/-- A redirection or a run of words keeps the pieces of a command chained. -/
theorem Chained.commandItem (hopens : c₀.Opens input) (htokens : tokenize input = .ok tokens)
    (hcontext : ContextOrderly context) (hc : c₀.Reaches c) {command command' : Command}
    (hchained : Chained input context.inBackticks command.pieces c)
    (h : CommandItem context c command command' c') :
    Chained input context.inBackticks command'.pieces c' := by
  obtain ⟨lexemes, hlexemes, hne⟩ := h.passes hcontext (hc.placed hopens.placed)
  cases h with
  | redirection hkind =>
    have hopening : opensPart c.current.kind = false := by
      cases hcurrent : c.current.kind <;>
        simp_all [Redirection.ofKind?, opensPart, startsPart]
    simpa [Command.pieces] using Chained.of_apart hchained.separated
      (hchained.apart hopens htokens hc hopening hlexemes hne)
  | words _ hrun h =>
    simpa [Command.pieces] using hchained.words hopens htokens hcontext hc hrun h

theorem Chained.commandRounds (hopens : c₀.Opens input) (htokens : tokenize input = .ok tokens)
    (hcontext : ContextOrderly context) (hc : c₀.Reaches c) {command command' : Command}
    (hchained : Chained input context.inBackticks command.pieces c)
    (h : Loops (commandRound context) command c command' c') :
    command'.pieces.IsChain (Separated input) := by
  induction h with
  | done hround =>
    obtain ⟨rfl, -⟩ := (commandRound_eq_done_iff hcontext (hc.placed hopens.placed)).1 hround
    exact hchained.separated
  | yield hround _ ih =>
    have hplaced := hc.placed hopens.placed
    obtain ⟨c₁, hskip, hitem⟩ := (commandRound_eq_yield_iff hplaced).1 hround
    have hc₁ := hc.trans hskip.reaches
    have hnext := (hchained.skips hopens htokens hc hskip).commandItem hopens htokens hcontext
      hc₁ hitem
    obtain ⟨lexemes, hlexemes, -⟩ := hitem.passes hcontext (hc₁.placed hopens.placed)
    exact ih (hc₁.trans hlexemes.reaches) hnext

theorem separated_of_command? (hopens : c₀.Opens input) (htokens : tokenize input = .ok tokens)
    (hcontext : ContextOrderly context) (hc : c₀.Reaches c) {command : Command}
    (h : command? context c = .ok (some command) c') :
    command.pieces.IsChain (Separated input) := by
  have hplaced := hc.placed hopens.placed
  obtain ⟨c₁, content, hskip, ⟨c₂, hgathers, hloops⟩, hresult⟩ :=
    (command?_eq_ok_iff hcontext hplaced).1 h
  have hpieces : command.pieces = content.pieces := by
    split at hresult
    · simp at hresult
    · rw [Option.some.inj hresult]
      rfl
  have hc₁ := hc.trans hskip.reaches
  have hassigned := (Chained.nil c₁).assignments hopens htokens hcontext hc₁ hgathers
  have hc₂ : c₁.Reaches c₂ :=
    (assignmentsRound_gathers hcontext).passes (hc₁.placed hopens.placed) hgathers
  rw [hpieces]
  refine Chained.commandRounds hopens htokens hcontext (hc₁.trans hc₂) ?_ hloops
  simpa [Command.pieces, Command.empty] using hassigned

/-- **Words come apart only where the input splits them.** In every command of a parsed tree, at
any depth, the assignments and words are in order, and two neighbours touch exactly where a pair
of single quotes with nothing inside stands before a token that starts a part of its own. -/
theorem separated_of_parse {limits : ParseLimits} {body : Script}
    (h : parse limits input = .ok body) :
    ∀ command, .command command ∈ body.nodes → command.pieces.IsChain (Separated input) := by
  obtain ⟨c, last, hopens, hscript, hkind⟩ := parse_eq_ok_iff.1 h
  obtain ⟨lexemes, hpasses⟩ := (orderly_script _ _ _ hopens.placed).passes hscript
  have htokens := (tokens_of_passes_stop hopens hpasses hkind).1
  intro command hmem
  obtain ⟨levels, inBackticks, d, d', hd, -, hgiven⟩ :=
    given_of_mem_nodes hopens.placed hscript _ hmem
  exact separated_of_command? hopens htokens (levelContext_orderly _ _ _) hd hgiven

end

/-! ### An input that splits a word -/

/-- The command of two parameters with an empty pair of quotes between them. -/
def touchingCommand : Command where
  assignments := []
  arguments := [⟨[.parameter "a"], ⟨0, 4⟩⟩, ⟨[.parameter "b"], ⟨4, 6⟩⟩]
  input := none
  output := none
  append := none
  span := ⟨0, 6⟩

/-- The script of that command. -/
def touchingScript : Script := ⟨[⟨⟨[touchingCommand], ⟨0, 6⟩⟩, false, ⟨0, 6⟩⟩], ⟨0, 6⟩⟩

theorem parse_touching : parse {} "$a''$b" = .ok touchingScript := by
  decide +kernel

theorem touchingCommand_mem : .command touchingCommand ∈ touchingScript.nodes := by
  rw [Script.nodes_eq_all]
  refine Node.mem_all_of_child List.mem_cons_self (Node.mem_all_of_child List.mem_cons_self ?_)
  exact Node.mem_all_of_child List.mem_cons_self (Node.mem_all_self _)

/-- Adjacent lexemes may be two words: nothing stands between the quotes and the parameter. -/
theorem exists_touching_words :
    ∃ input body command left right, parse {} input = .ok body ∧
      .command command ∈ body.nodes ∧ command.arguments = [left, right] ∧
      ¬ left.span.stop < right.span.start :=
  ⟨"$a''$b", touchingScript, touchingCommand, _, _, parse_touching, touchingCommand_mem, rfl,
    by decide⟩

theorem splitsAt_touching : SplitsAt "$a''$b" 4 := by
  have hchain := separated_of_parse parse_touching touchingCommand touchingCommand_mem
  have hwords : Separated "$a''$b" ⟨0, 4⟩ ⟨4, 6⟩ := (List.isChain_cons_cons.1 hchain).1
  exact hwords.2.1 rfl

end CommandSyntax
