import CommandSyntax.Proofs.Grammar.ScriptAcceptance
import CommandSyntax.Proofs.Parse.Trace

/-!
# CommandSyntax.Proofs.Parse.Derivability

**A parse succeeds on exactly the inputs that the grammar derives**, as long as the limit
on nesting leaves room for every opening token. Inputs with text that stands for nothing,
or with two double quotes side by side, are left out: there a word can end, or go on,
without a part (`Plain`).

Soundness and completeness of the productions meet here: `eats_of_script` and
`accepts_script`, on the cursor before the first token.
-/

namespace CommandSyntax

open Cursor Production

variable {input : String} {tokens : List Token} {c : Cursor}

/-- No token of an input is an empty pair of quotes or a backslash that escapes nothing, and
no two double quotes stand side by side. -/
structure Plain (input : String) (tokens : List Token) : Prop where
  /-- Every token stands for something. -/
  text_ne : ∀ token ∈ tokens,
    token.text input ≠ "''" ∧ ¬ (token.kind = .raw ∧ token.text input = "\\")
  /-- The double quotes. -/
  quotesApart : QuotesApart (tokens.map Token.kind)

/-- An input that can be cut into tokens has a first one. -/
theorem exists_opens (htokens : tokenize input = .ok tokens) : ∃ c : Cursor, c.Opens input := by
  rcases opens_or_failed input with hopens | ⟨error, hfailed, -⟩
  · exact hopens
  · rw [tokenize, hfailed] at htokens
    simp [TokenStream.tokens] at htokens

/-- Ahead of the first token of a plain input are all its tokens but the end marker. -/
theorem Cursor.Opens.ahead (hopens : c.Opens input) (htokens : tokenize input = .ok tokens)
    (hplain : Plain input tokens) : c.Ahead (tokens.dropLast.map Token.kind) := by
  obtain ⟨position, hstream, rfl⟩ := TokenStream.eq_prepend_finished htokens
  generalize (TokenStream.ofString input).lexemes = lexemes at hstream hplain
  have hc := hopens.stream_eq.trans hstream
  obtain rfl := hopens.placed.position_eq hc
  rw [List.dropLast_concat, List.map_map]
  refine ⟨hopens.placed, ⟨lexemes, hc, rfl, ?_⟩, ?_⟩
  · intro lexeme hmem hempty
    obtain ⟨hquotes, hbackslash⟩ := hplain.text_ne lexeme.token
      (List.mem_append_left _ (List.mem_map_of_mem hmem))
    obtain ⟨front, back, rfl⟩ := List.append_of_mem hmem
    rw [TokenStream.text_token_of_ofString hstream] at hquotes hbackslash
    rcases hempty with htext | ⟨hraw, htext⟩
    · exact hquotes (by rw [htext])
    · exact hbackslash ⟨hraw, by rw [htext]⟩
  · have hapart := hplain.quotesApart
    rw [List.map_append, List.map_map] at hapart
    exact hapart.left_of_append

/-- A parse succeeds exactly where the grammar derives the tokens before the end marker, when
there are no more openings of substitutions than the limit on nesting. -/
theorem parse_isOk_iff_derivable {limits : ParseLimits} (htokens : tokenize input = .ok tokens)
    (hplain : Plain input tokens)
    (hlimit : Grammar.openers (tokens.map Token.kind) ≤ limits.nesting) :
    (∃ body, parse limits input = .ok body) ↔
      Grammar.Derivable (tokens.dropLast.map Token.kind) := by
  constructor
  · intro h
    -- the script passes a list of the grammar, and behind it is the end of the input
    obtain ⟨body, hparse⟩ := h
    obtain ⟨c, last, hopens, hscript, hstop⟩ := parse_eq_ok_iff.1 hparse
    have hahead := hopens.ahead htokens hplain
    obtain ⟨lexemes, hpasses, hmem⟩ := eats_of_script _ _ _ ⟨_, hahead⟩ hscript
    obtain ⟨back, heq, hlast, -⟩ := hahead.of_passes hpasses
    rw [heq, hlast.eq_nil_of_stop hstop, List.append_nil]
    exact ⟨_, hmem⟩
  · intro h
    obtain ⟨levels, hderives⟩ := h
    obtain ⟨c, hopens⟩ := exists_opens htokens
    have hahead := hopens.ahead htokens hplain
    rw [← List.append_nil (tokens.dropLast.map Token.kind)] at hahead
    -- a derivation needs no more levels than there are openings
    have hopeners : Grammar.openers (tokens.dropLast.map Token.kind) ≤ limits.nesting := by
      refine Nat.le_trans (List.Sublist.countP_le ?_) hlimit
      exact (List.dropLast_sublist tokens).map _
    obtain ⟨body, last, hscript, hlast⟩ := accepts_script limits.nesting limits.nesting
      (Grammar.mem_scripts_of_openers_le hderives hopeners) hahead rfl
    exact ⟨body, parse_eq_ok_iff.2 ⟨c, last, hopens, hscript, hlast.kind_eq⟩⟩

/-! ### An input with everything nested -/

/-- The tokens of an assignment from a substitution, piped into a quotation. -/
def nestedTokens : List Token :=
  [⟨.assignmentLhs, 0, 2⟩, ⟨.startSubstitution, 2, 2⟩, ⟨.raw, 4, 1⟩, ⟨.rightParen, 5, 1⟩,
    ⟨.pipe, 6, 1⟩, ⟨.doubleQuote, 7, 1⟩, ⟨.globStar, 8, 1⟩, ⟨.doubleQuote, 9, 1⟩,
    ⟨.background, 10, 1⟩, Token.endMarker 11]

theorem derivable_nestedTokens :
    tokenize "a=$(b)|\"*\"&" = .ok nestedTokens ∧
      Plain "a=$(b)|\"*\"&" nestedTokens ∧
      Grammar.Derivable (nestedTokens.dropLast.map Token.kind) := by
  have htokens : tokenize "a=$(b)|\"*\"&" = .ok nestedTokens := by decide +kernel
  have hplain : Plain "a=$(b)|\"*\"&" nestedTokens :=
    ⟨by decide +kernel, by simp [QuotesApart, nestedTokens, Token.endMarker]⟩
  have hok : (parse ⟨1⟩ "a=$(b)|\"*\"&").toBool = true := by decide +kernel
  have hparse : ∃ body, parse ⟨1⟩ "a=$(b)|\"*\"&" = .ok body := by
    cases h : parse ⟨1⟩ "a=$(b)|\"*\"&" with
    | ok body => exact ⟨body, rfl⟩
    | error error => simp [h, Except.toBool] at hok
  exact ⟨htokens, hplain, (parse_isOk_iff_derivable htokens hplain (by decide)).1 hparse⟩

end CommandSyntax
