import CommandSyntax.Log
import CommandSyntax.Proofs.Grammar.Orderly
import CommandSyntax.Proofs.Grammar.Standing
import CommandSyntax.Proofs.Token.Scanning

/-!
# CommandSyntax.Proofs.Parse.Trace

**What a parse reads is what the scanner reads.** The tokens that the log of a
parse tells are the tokens of a scanner that is advanced over the same input, from
the first one on and without a gap (`AgreesWithScanner`). A parse that succeeds has
read them all, and one that fails on an uncuttable input fails where the scanner does,
with the error of the scanner.

`runParse_passage` is the way there: it describes how any parse ends by the cursor
at which it ends. The productions enter by `orderly_script` alone.
-/

namespace CommandSyntax

open Production

/-! ### The first token -/

/-- The cursor stands on the first token of an input. -/
def Cursor.Opens (c : Cursor) (input : String) : Prop :=
  advance (Cursor.ofString input) = .ok () c

namespace Cursor.Opens

variable {c : Cursor} {input : String}

theorem cases (h : c.Opens input) :
    (∃ position, TokenStream.ofString input = .finished position ∧
        c = (Cursor.ofString input).moveTo (Lexeme.endMarker position) (.finished position)) ∨
      ∃ next rest, TokenStream.ofString input = .next next rest ∧
        c = (Cursor.ofString input).moveTo next rest := by
  simp only [Cursor.Opens, advance] at h
  split at h
  · obtain ⟨-, rfl⟩ := EStateM.Result.ok.inj h
    exact .inl ⟨_, ‹_›, rfl⟩
  · simp at h
  · obtain ⟨-, rfl⟩ := EStateM.Result.ok.inj h
    exact .inr ⟨_, _, ‹_›, rfl⟩

theorem tiles_ofString (input : String) :
    (TokenStream.ofString input).Tiles (Text.width input.toList) 0 := by
  have := TokenStream.tiles_ofText 0 input.toList
  rwa [Nat.zero_add] at this

theorem placed (h : c.Opens input) : c.Placed := by
  have htiles := tiles_ofString input
  rcases h.cases with ⟨position, hstream, rfl⟩ | ⟨next, rest, hstream, rfl⟩
  · exact (Cursor.Placed.moveTo_end (hstream ▸ htiles)).1
  · exact (Cursor.Placed.moveTo (hstream ▸ htiles)).1

theorem stream_eq (h : c.Opens input) : c.stream = TokenStream.ofString input := by
  have htiles := tiles_ofString input
  rcases h.cases with ⟨position, hstream, rfl⟩ | ⟨next, rest, hstream, rfl⟩
  · rw [hstream]
    rfl
  · rw [hstream]
    exact Cursor.stream_of_ne_stop (Cursor.Placed.moveTo (c := Cursor.ofString input)
      (hstream ▸ htiles)).2.2

theorem scanned_eq (h : c.Opens input) : c.scanned = [c.current.token] := by
  rcases h.cases with ⟨position, -, rfl⟩ | ⟨next, rest, -, rfl⟩ <;> rfl

theorem lastEnd_eq (h : c.Opens input) : c.lastEnd = 0 := by
  rcases h.cases with ⟨position, -, rfl⟩ | ⟨next, rest, -, rfl⟩ <;> rfl

theorem size_eq (h : c.Opens input) : c.size = Text.width input.toList := by
  rcases h.cases with ⟨position, -, rfl⟩ | ⟨next, rest, -, rfl⟩ <;> rfl

theorem ne_failed (h : c.Opens input) (error : ScanError) :
    TokenStream.ofString input ≠ .failed error := by
  rcases h.cases with ⟨position, hstream, -⟩ | ⟨next, rest, hstream, -⟩ <;> simp [hstream]

theorem start_eq (h : c.Opens input) : c.current.start = 0 := by
  have htiles := tiles_ofString input
  rcases h.cases with ⟨position, hstream, rfl⟩ | ⟨next, rest, hstream, rfl⟩
  · exact (Cursor.Placed.moveTo_end (c := Cursor.ofString input) (hstream ▸ htiles)).2
  · exact (Cursor.Placed.moveTo (c := Cursor.ofString input) (hstream ▸ htiles)).2.1

/-- The whole input is ahead of the cursor. -/
theorem stands (h : c.Opens input) : c.Stands input.toList :=
  ⟨h.placed, h.start_eq ▸ h.stream_eq⟩

theorem faces (h : c.Opens input) : c.Faces input.toList :=
  ⟨h.stands, by rw [h.start_eq, h.size_eq, Nat.zero_add]⟩

end Cursor.Opens

/-- An input without a first token fails at once. -/
theorem advance_ofString_eq_error {input : String} {error : SyntaxError} {c : Cursor}
    (h : advance (Cursor.ofString input) = .error error c) :
    ∃ scanError, error = .scan scanError ∧ TokenStream.ofString input = .failed scanError ∧
      c = Cursor.ofString input := by
  simp only [advance] at h
  split at h
  · simp at h
  · obtain ⟨rfl, rfl⟩ := EStateM.Result.error.inj h
    exact ⟨_, rfl, ‹_›, rfl⟩
  · simp at h

/-! ### How a parse ends -/

/-- The script at a cursor, which the end of the input has to follow. -/
def scriptToEnd (limit : Nat) (c : Cursor) : EStateM.Result SyntaxError Cursor Script :=
  match script limit limit false c with
  | .error error last => .error error last
  | .ok body last =>
    if last.current.kind = .stop then .ok body last
    else .error (.trailingToken last.current.kind last.current.span) last

/-- A script, unless something follows it before the end of the input. -/
def Production.toEnd (body : Script) : Production Script := do
  let lexeme ← current
  if lexeme.kind = .stop then return body
  else fail (.trailingToken lexeme.kind lexeme.span)

theorem scriptToEnd_eq_bind (limit : Nat) :
    scriptToEnd limit = (script limit limit false >>= toEnd : Production Script) := by
  funext c
  rw [scriptToEnd]
  cases hscript : script limit limit false c with
  | error error last => rw [bind_of_eq_error _ hscript]
  | ok body last =>
    rw [bind_of_eq_ok _ hscript]
    by_cases hkind : last.current.kind = .stop <;> simp [toEnd, bind, EStateM.bind, hkind]

theorem wholeInput_of_opens {c : Cursor} {input : String} (limit : Nat) (h : c.Opens input) :
    wholeInput limit (Cursor.ofString input) = scriptToEnd limit c := by
  rw [wholeInput, bind_of_eq_ok _ h, scriptToEnd]
  cases hscript : script limit limit false c with
  | error error last => rw [bind_of_eq_error _ hscript]
  | ok body last =>
    rw [bind_of_eq_ok _ hscript]
    by_cases hkind : last.current.kind = .stop <;> simp [bind, EStateM.bind, hkind]

/-- Either the first token can be read, or the input fails at once. -/
theorem opens_or_failed (input : String) :
    (∃ c : Cursor, c.Opens input) ∨
      ∃ error, TokenStream.ofString input = .failed error ∧
        ∀ limits, runParse limits input = ⟨.error (.scan error), []⟩ := by
  cases hadvance : advance (Cursor.ofString input) with
  | ok value c => exact .inl ⟨c, hadvance⟩
  | error error c =>
    obtain ⟨scanError, rfl, hstream, rfl⟩ := advance_ofString_eq_error hadvance
    refine .inr ⟨scanError, hstream, fun limits => ?_⟩
    rw [runParse, wholeInput, bind_of_eq_error _ hadvance]
    rfl

theorem exists_opens_of_ne_failed {input : String}
    (h : ∀ error, TokenStream.ofString input ≠ .failed error) : ∃ c : Cursor, c.Opens input := by
  rcases opens_or_failed input with hopens | ⟨error, hfailed, -⟩
  · exact hopens
  · exact absurd hfailed (h error)

/-- An input without a first token is not parsed. -/
theorem parse_of_failed {input : String} {error : ScanError}
    (h : TokenStream.ofString input = .failed error) (limits : ParseLimits) :
    parse limits input = .error (.scan error) := by
  have hadvance : advance (Cursor.ofString input) =
      .error (.scan error) (Cursor.ofString input) := by
    have hahead : (Cursor.ofString input).ahead = .failed error := h
    simp only [advance, hahead]
  rw [parse, runParse, wholeInput, bind_of_eq_error _ hadvance]

/-- An input with a first token is parsed from there to the end. -/
theorem parse_of_opens {c : Cursor} {input : String} (h : c.Opens input) (limits : ParseLimits) :
    parse limits input =
      match scriptToEnd limits.nesting c with
      | .ok body _ => .ok body
      | .error error _ => .error error := by
  rw [parse, runParse, wholeInput_of_opens _ h]
  cases scriptToEnd limits.nesting c <;> rfl

/-- A parse gives a script when the script reaches from the first token to the end marker. -/
theorem parse_eq_ok_iff {limits : ParseLimits} {input : String} {body : Script} :
    parse limits input = .ok body ↔
      ∃ c last, Cursor.Opens c input ∧
        script limits.nesting limits.nesting false c = .ok body last ∧
        last.current.kind = .stop := by
  constructor
  · intro h
    rcases opens_or_failed input with ⟨c, hopens⟩ | ⟨error, -, hfailed⟩
    · rw [parse, runParse, wholeInput_of_opens _ hopens, scriptToEnd] at h
      cases hscript : script limits.nesting limits.nesting false c with
      | error error last => simp [hscript] at h
      | ok body' last =>
        by_cases hkind : last.current.kind = .stop
        · simp only [hscript, hkind, if_true, Except.ok.injEq] at h
          exact ⟨c, last, hopens, h ▸ hscript, hkind⟩
        · simp [hscript, hkind] at h
    · simp [parse, hfailed] at h
  · intro h
    obtain ⟨c, last, hopens, hscript, hkind⟩ := h
    rw [parse, runParse, wholeInput_of_opens _ hopens, scriptToEnd]
    simp [hscript, hkind]

/-- Where a script ends before the end of the input, its next lexeme is the error. -/
theorem parse_eq_trailingToken {limits : ParseLimits} {input : String} {c last : Cursor}
    {body : Script} (hopens : c.Opens input)
    (hscript : script limits.nesting limits.nesting false c = .ok body last)
    (hkind : last.current.kind ≠ .stop) :
    parse limits input = .error (.trailingToken last.current.kind last.current.span) := by
  rw [parse_of_opens hopens, scriptToEnd]
  simp [hscript, hkind]

/-- However a parse ends, it has passed some lexemes and stands on the next one; unless not
even the first token could be read. -/
theorem runParse_passage (limits : ParseLimits) (input : String) :
    (∃ error, TokenStream.ofString input = .failed error ∧
        runParse limits input = ⟨.error (.scan error), []⟩) ∨
      ∃ (c : Cursor) (lexemes : List Lexeme) (last : Cursor), c.Opens input ∧
        c.Passes lexemes last ∧
        (runParse limits input).scanned = lexemes.map Lexeme.token ++ [last.current.token] ∧
        (∀ script, parse limits input = .ok script → last.current.kind = .stop) ∧
        ∀ error, parse limits input = .error (.scan error) → last.ahead = .failed error := by
  rcases opens_or_failed input with ⟨c, hopens⟩ | ⟨error, hstream, hfailed⟩
  · refine .inr ?_
    have hscanned {lexemes : List Lexeme} {last : Cursor} (h : c.Passes lexemes last) :
        last.scanned.reverse = lexemes.map Lexeme.token ++ [last.current.token] := by
      rw [h.scanned_eq hopens.placed hopens.scanned_eq]
      simp
    have horderly := orderly_script limits.nesting limits.nesting false hopens.placed
    simp only [parse, runParse, wholeInput_of_opens _ hopens, scriptToEnd]
    cases hscript : script limits.nesting limits.nesting false c with
    | error error c' =>
      obtain ⟨lexemes, last, hpasses, hlast, hend⟩ := horderly.halts hscript
      exact ⟨c, lexemes, last, hopens, hpasses, by simp [hlast, hscanned hpasses],
        by simp, by simpa using hend⟩
    | ok body last =>
      obtain ⟨lexemes, hpasses⟩ := horderly.passes hscript
      refine ⟨c, lexemes, last, hopens, hpasses, ?_⟩
      by_cases hkind : last.current.kind = .stop <;> simp [hkind, hscanned hpasses]
  · exact .inl ⟨error, hstream, hfailed limits⟩

/-! ### The tokens that are told -/

/-- The token that an event tells of. -/
def LogEvent.told? : LogEvent → Option Token
  | .token told => some told
  | _ => none

/-- The tokens that the log of a parse tells, in order. -/
def parsedTokens (limits : ParseLimits) (input : String) : List Token :=
  (parseLog limits input).filterMap LogEvent.told?

theorem parsedTokens_eq (limits : ParseLimits) (input : String) :
    parsedTokens limits input = (runParse limits input).scanned := by
  have htold (tokens : List Token) :
      (tokens.map LogEvent.token).filterMap LogEvent.told? = tokens := by
    induction tokens with
    | nil => rfl
    | cons token tokens ih => simp [LogEvent.told?, ih]
  cases hresult : (runParse limits input).result <;>
    simp [parsedTokens, parseLog, hresult, List.filterMap_cons, LogEvent.told?, htold]

/-- The tokens and the result of a parse agree with what a scanner makes of the input. -/
structure AgreesWithScanner (input : String) (tokens : List Token)
    (result : Except SyntaxError Script) : Prop where
  /-- The tokens are those of a scanner that advances from the start of the input. It cannot
  advance further when the parse fails because the input cannot be cut into tokens. -/
  reads : ∃ scanner, (Scanner.ofString input).Reads tokens scanner ∧
    ∀ error, result = .error (.scan error) → scanner.advance = .error error
  /-- No token comes after an end marker. -/
  ne_stop : ∀ token ∈ tokens.dropLast, token.kind ≠ .stop
  /-- They are the first tokens of the input. -/
  first : ∀ all, tokenize input = .ok all → tokens <+: all
  /-- A script comes of all tokens, of which the end marker is the last. -/
  ok : ∀ script, result = .ok script → tokenize input = .ok tokens ∧
    tokens.getLast? = some (Token.endMarker (Text.width input.toList))
  /-- The error of the parse is the error of the scanner, and no end marker is read. -/
  scanError : ∀ error, result = .error (.scan error) →
    tokenize input = .error error ∧ ∀ token ∈ tokens, token.kind ≠ .stop
  /-- An input that cannot be cut into tokens cannot be parsed. -/
  failed : ∀ error, tokenize input = .error error → ∃ syntaxError, result = .error syntaxError

section Agreement

variable {input : String} {c last : Cursor} {lexemes : List Lexeme}

/-- Where a passage ends, the stream of the input goes on. -/
theorem Cursor.Opens.stream_of_passes (hopens : c.Opens input) (hpasses : c.Passes lexemes last) :
    TokenStream.ofString input = TokenStream.prepend lexemes last.stream :=
  hopens.stream_eq.symm.trans (hpasses.stream_eq hopens.placed)

theorem Cursor.Opens.size_of_passes (hopens : c.Opens input) (hpasses : c.Passes lexemes last) :
    last.size = Text.width input.toList := by
  rw [hpasses.size_eq hopens.placed, hopens.size_eq]

/-- A scanner reads what a passage passes, and the token on which it ends. -/
theorem reads_of_passes (hopens : c.Opens input) (hpasses : c.Passes lexemes last) :
    ∃ scanner, (Scanner.ofString input).Reads
        (lexemes.map Lexeme.token ++ [last.current.token]) scanner ∧
      ∀ error, last.ahead = .failed error → scanner.advance = .error error := by
  have hstream := hopens.stream_of_passes hpasses
  have hplaced := hpasses.placed hopens.placed
  have hfollows := Scanner.follows_ofString input
  rw [hstream] at hfollows
  obtain ⟨s₁, hreads, hs₁⟩ := hfollows.reads
  by_cases hkind : last.current.kind = .stop
  · obtain ⟨hcurrent, hahead⟩ := hplaced.current_of_stop hkind
    rw [hplaced.stream_of_stop hkind] at hs₁
    obtain ⟨s₂, hadvance, htoken⟩ := hs₁.advance_finished
    refine ⟨s₂, hreads.trans ?_, by simp [hahead]⟩
    rw [hcurrent, Lexeme.token_endMarker, ← htoken]
    exact .cons hadvance (.nil s₂)
  · rw [Cursor.stream_of_ne_stop hkind] at hs₁
    obtain ⟨s₂, hadvance, htoken, hs₂⟩ := hs₁.advance_next
    refine ⟨s₂, hreads.trans ?_, fun error herror => ?_⟩
    · rw [← htoken]
      exact .cons hadvance (.nil s₂)
    · rw [herror] at hs₂
      exact hs₂.advance_failed

/-- All tokens of an input begin with what a passage passes and where it ends. -/
theorem tokens_of_passes (hopens : c.Opens input) (hpasses : c.Passes lexemes last)
    {all : List Token} (h : tokenize input = .ok all) :
    lexemes.map Lexeme.token ++ [last.current.token] <+: all := by
  have hplaced := hpasses.placed hopens.placed
  rw [tokenize, hopens.stream_of_passes hpasses] at h
  cases htokens : last.stream.tokens with
  | error error => simp [TokenStream.tokens_prepend_eq_error htokens] at h
  | ok tokens =>
    rw [TokenStream.tokens_prepend_eq_ok htokens, Except.ok.injEq] at h
    rw [← h, List.prefix_append_right_inj]
    by_cases hkind : last.current.kind = .stop
    · have hlast : [last.current.token] = tokens := by
        rw [hplaced.stream_of_stop hkind, TokenStream.tokens, Except.ok.injEq] at htokens
        rw [← htokens, (hplaced.current_of_stop hkind).1, Lexeme.token_endMarker]
      exact hlast ▸ List.prefix_rfl
    · rw [Cursor.stream_of_ne_stop hkind, TokenStream.tokens] at htokens
      split at htokens
      · simp [← Except.ok.inj htokens]
      · simp at htokens

theorem tokens_of_passes_stop (hopens : c.Opens input) (hpasses : c.Passes lexemes last)
    (hkind : last.current.kind = .stop) :
    tokenize input = .ok (lexemes.map Lexeme.token ++ [last.current.token]) ∧
      last.current.token = Token.endMarker (Text.width input.toList) := by
  have hplaced := hpasses.placed hopens.placed
  have hsize := hopens.size_of_passes hpasses
  have hcurrent := (hplaced.current_of_stop hkind).1
  have htokens : last.stream.tokens = .ok [last.current.token] := by
    rw [hplaced.stream_of_stop hkind, hcurrent]
    rfl
  refine ⟨?_, by rw [hcurrent, Lexeme.token_endMarker, hsize]⟩
  rw [tokenize, hopens.stream_of_passes hpasses, TokenStream.tokens_prepend_eq_ok htokens]

theorem tokens_of_passes_failed (hopens : c.Opens input) (hpasses : c.Passes lexemes last)
    {error : ScanError} (h : last.ahead = .failed error) :
    tokenize input = .error error ∧ last.current.kind ≠ .stop := by
  have hplaced := hpasses.placed hopens.placed
  have hkind : last.current.kind ≠ .stop := fun hkind => by
    simp [(hplaced.current_of_stop hkind).2] at h
  refine ⟨?_, hkind⟩
  have htokens : last.stream.tokens = .error error := by
    rw [Cursor.stream_of_ne_stop hkind, h]
    rfl
  rw [tokenize, hopens.stream_of_passes hpasses, TokenStream.tokens_prepend_eq_error htokens]

/-- The lexemes that a passage passes are the first of those that the tokens stand for. -/
theorem lexemes_of_passes (hopens : c.Opens input) {tokens : List Token}
    (htokens : tokenize input = .ok tokens) (hpasses : c.Passes lexemes last) :
    ∃ rest position, TokenStream.ofString input =
        TokenStream.prepend (lexemes ++ rest) (.finished position) ∧
      tokens = (lexemes ++ rest).map Lexeme.token ++ [Token.endMarker position] ∧
      last.stream = TokenStream.prepend rest (.finished position) := by
  obtain ⟨position, hstream, rfl⟩ := TokenStream.eq_prepend_finished htokens
  have hfront := hopens.stream_of_passes hpasses
  obtain ⟨rest, hlexemes, hrest⟩ :=
    TokenStream.eq_append_of_prepend_eq (hfront.symm.trans hstream)
  exact ⟨rest, position, hlexemes ▸ hstream, by rw [hlexemes], hrest⟩

/-- Up to a token that is not the end marker, the tokens are those of lexemes. -/
theorem lexemes_of_tokens {position : Nat} {front back : List Token} {token : Token}
    (hkind : token.kind ≠ .stop)
    (h : lexemes.map Lexeme.token ++ [Token.endMarker position] = front ++ token :: back) :
    ∃ before lexeme after, lexemes = before ++ lexeme :: after ∧
      before.map Lexeme.token = front ∧ lexeme.token = token := by
  rcases List.eq_nil_or_concat' back with rfl | ⟨back, last, rfl⟩
  · have hlast := (List.append_inj' h rfl).2
    exact absurd (congrArg Token.kind (List.singleton_inj.1 hlast).symm) hkind
  · have hinit : lexemes.map Lexeme.token ++ [Token.endMarker position] =
        (front ++ token :: back) ++ [last] := h.trans (by simp)
    have hmap := (List.append_inj' hinit rfl).1
    obtain ⟨before, further, rfl, rfl, hfurther⟩ := List.map_eq_append_iff.1 hmap
    obtain ⟨lexeme, after, rfl, rfl, -⟩ := List.map_eq_cons_iff.1 hfurther
    exact ⟨before, lexeme, after, rfl, rfl, rfl⟩

/-- A parse that passes lexemes agrees with the scanner when it succeeds only at the end of the
input, and fails with the error of the scanner only where the scanner fails. -/
theorem agrees_of_passes (hopens : c.Opens input) (hpasses : c.Passes lexemes last)
    {result : Except SyntaxError Script}
    (hok : ∀ script, result = .ok script → last.current.kind = .stop)
    (herror : ∀ error, result = .error (.scan error) → last.ahead = .failed error) :
    AgreesWithScanner input (lexemes.map Lexeme.token ++ [last.current.token]) result where
  reads := by
    obtain ⟨scanner, hreads, hfailed⟩ := reads_of_passes hopens hpasses
    exact ⟨scanner, hreads, fun error h => hfailed error (herror error h)⟩
  ne_stop := by simpa [Lexeme.token] using hpasses.kind_ne_stop
  first all h := tokens_of_passes hopens hpasses h
  ok script h := by
    obtain ⟨htokenize, hlast⟩ := tokens_of_passes_stop hopens hpasses (hok script h)
    exact ⟨htokenize, by simp [hlast]⟩
  scanError error h := by
    obtain ⟨htokenize, hkind⟩ := tokens_of_passes_failed hopens hpasses (herror error h)
    refine ⟨htokenize, fun token hmem => ?_⟩
    rcases List.mem_append.1 hmem with hmem | hmem
    · obtain ⟨lexeme, hlexeme, rfl⟩ := List.mem_map.1 hmem
      exact hpasses.kind_ne_stop lexeme hlexeme
    · rwa [List.mem_singleton.1 hmem]
  failed error h := by
    cases result with
    | error syntaxError => exact ⟨syntaxError, rfl⟩
    | ok script =>
      have htokenize := (tokens_of_passes_stop hopens hpasses (hok script rfl)).1
      simp [h] at htokenize

/-- So does one that fails because not even the first token can be read. -/
theorem agrees_of_failed {error : ScanError}
    (hstream : TokenStream.ofString input = .failed error) :
    AgreesWithScanner input [] (.error (.scan error)) := by
  have htokenize : tokenize input = .error error := by
    rw [tokenize, hstream]
    rfl
  have hfollows : (Scanner.ofString input).Follows (.failed error) := hstream
  exact {
    reads := ⟨Scanner.ofString input, .nil _, by simpa using hfollows.advance_failed⟩
    ne_stop := by simp
    first := by simp
    ok := by simp
    scanError := by simpa using htokenize
    failed := by simp }

end Agreement

/-- **A parse reads what the scanner reads.** Whatever the input and the limits, and
however the parse ends, the tokens it tells are those of a scanner over the input. -/
theorem parsedTokens_agree (limits : ParseLimits) (input : String) :
    AgreesWithScanner input (parsedTokens limits input) (parse limits input) := by
  obtain ⟨error, hstream, hrun⟩ | ⟨c, lexemes, last, hopens, hpasses, hscanned, hok, herror⟩ :=
    runParse_passage limits input
  · rw [parsedTokens_eq, parse, hrun]
    exact agrees_of_failed hstream
  · rw [parsedTokens_eq, hscanned]
    exact agrees_of_passes hopens hpasses hok herror

end CommandSyntax
