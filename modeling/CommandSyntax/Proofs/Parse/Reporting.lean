import CommandSyntax.Proofs.Grammar.Noticing
import CommandSyntax.Proofs.Parse.Placement
import CommandSyntax.Proofs.Script.Violations
import CommandSyntax.Proofs.Token.Boundary

/-!
# CommandSyntax.Proofs.Parse.Reporting

**Every error points into the input** (`pointsInto_of_parse`): the error of a parse, and every
violation of whatever rules in the script that a parse gives. So each can be shown in the
source, on the line that the newlines before it tell.

An error is noticed at a cursor that has come there by passing lexemes (`notices_of_parse`), and
what it tells is made up from these. A violation is told with the bytes of a node, and a node
with bytes is framed by lexemes.
-/

namespace CommandSyntax

open Production Cursor

variable {limits : ParseLimits} {input : String} {error : SyntaxError} {c last : Cursor}
  {lexemes : List Lexeme}

/-! ### Where the error of a parse is noticed -/

/-- What follows a script before the end of the input is noticed. -/
theorem noticedAt_scriptToEnd (limit : Nat) (hc : c.Placed) :
    NoticedAt limit [] (scriptToEnd limit) c := by
  rw [scriptToEnd_eq_bind]
  refine (noticed_script limit limit false).bind hc fun body _ c' _ => ?_
  refine noticedAt_current_bind ?_
  split
  · exact noticedAt_pure _
  · exact noticedAt_fail (.trailingToken ‹_›)

/-- A parse that fails has passed some lexemes from the first on, and its error is noticed where
it came to; unless not even the first token could be read. -/
theorem notices_of_parse (h : parse limits input = .error error) :
    (∃ scanError, TokenStream.ofString input = .failed scanError ∧ error = .scan scanError) ∨
      ∃ c lexemes last, Cursor.Opens c input ∧ c.Passes lexemes last ∧
        last.Notices limits.nesting lexemes error := by
  rcases opens_or_failed input with ⟨c, hopens⟩ | ⟨scanError, hfailed, -⟩
  · rw [parse_of_opens hopens] at h
    cases hscript : scriptToEnd limits.nesting c with
    | ok body last => simp [hscript] at h
    | error error' last =>
      obtain rfl : error' = error := by simpa [hscript] using h
      obtain ⟨lexemes, last, hpasses, hnotices⟩ :=
        noticedAt_scriptToEnd limits.nesting hopens.placed hscript
      exact .inr ⟨c, lexemes, last, hopens, hpasses, hnotices⟩
  · rw [parse_of_failed hfailed, Except.error.injEq] at h
    exact .inl ⟨scanError, hfailed, h.symm⟩

/-! ### Errors of a parse -/

namespace Cursor.Opens

/-- The lexemes that are passed lie in the input. -/
theorem pointsInto_of_mem (hopens : c.Opens input) (hpasses : c.Passes lexemes last) :
    ∀ lexeme ∈ lexemes, lexeme.span.PointsInto input :=
  TokenStream.pointsInto_of_mem (hopens.stream_of_passes hpasses)

/-- The current lexeme stands behind those that are passed. -/
theorem stream_of_current (hopens : c.Opens input) (hpasses : c.Passes lexemes last)
    (hkind : last.current.kind ≠ .stop) :
    TokenStream.ofString input = TokenStream.prepend (lexemes ++ [last.current]) last.ahead := by
  rw [hopens.stream_of_passes hpasses, stream_of_ne_stop hkind, TokenStream.prepend_append]
  rfl

/-- The lexeme on which the cursor stands lies in the input, and so does the end marker. -/
theorem pointsInto_current (hopens : c.Opens input) (hpasses : c.Passes lexemes last) :
    last.current.span.PointsInto input := by
  by_cases hkind : last.current.kind = .stop
  · rw [((hpasses.placed hopens.placed).current_of_stop hkind).1, hopens.size_of_passes hpasses]
    exact Span.pointsInto_end input
  · exact TokenStream.pointsInto_of_mem (hopens.stream_of_current hpasses hkind) _ (by simp)

/-- The text behind the current lexeme at which nothing can be read lies in the input. -/
theorem pointsInto_of_failed (hopens : c.Opens input) (hpasses : c.Passes lexemes last)
    {error : ScanError} (h : last.ahead = .failed error) : error.span.PointsInto input := by
  have hkind := (tokens_of_passes_failed hopens hpasses h).2
  exact TokenStream.pointsInto_of_failed (h ▸ hopens.stream_of_current hpasses hkind)

/-- A lexeme that has been passed starts before the current one. -/
theorem start_le_of_mem (hopens : c.Opens input) (hpasses : c.Passes lexemes last)
    {opener : Lexeme} (hmem : opener ∈ lexemes) : opener.start ≤ last.current.start := by
  obtain ⟨front, back, rfl⟩ := List.append_of_mem hmem
  obtain ⟨d, hfront, hback⟩ := passes_append_iff.1 hpasses
  obtain ⟨rfl, -⟩ := passes_cons_iff_step.1 hback
  exact hback.start_le (hfront.placed hopens.placed)

/-- Whatever is noticed lies in the input. -/
theorem pointsInto_of_notices (hopens : c.Opens input) (hpasses : c.Passes lexemes last)
    {limit : Nat} (h : last.Notices limit lexemes error) :
    error.errorClass = .malformed ∧ ∃ span, error.span? = some span ∧ span.PointsInto input := by
  have hcurrent := hopens.pointsInto_current hpasses
  have hpassed := hopens.pointsInto_of_mem hpasses
  cases h with
  | scan hfailed => exact ⟨rfl, _, rfl, hopens.pointsInto_of_failed hpasses hfailed⟩
  | badParameter hmem => exact ⟨rfl, _, rfl, (hpassed _ hmem).merge hcurrent⟩
  | unclosedExpansion hmem =>
    have hle := hopens.start_le_of_mem hpasses hmem
    have hstop := Nat.le_trans hcurrent.start_le_stop hcurrent.stop_le
    exact ⟨rfl, _, rfl, (hpassed _ hmem).to hle hstop hcurrent.start⟩
  | nestingTooDeep hmem => exact ⟨rfl, _, rfl, hpassed _ hmem⟩
  | _ => exact ⟨rfl, _, rfl, hcurrent⟩

/-! ### Violations -/

theorem marked (hopens : c.Opens input) : c.Marked :=
  ⟨hopens.placed, by rw [hopens.lastEnd_eq]; exact Nat.zero_le _⟩

/-- What is framed by lexemes of the input lies in the input. -/
theorem pointsInto_of_frames (hopens : c.Opens input) {span : Span} (h : c.Frames last span) :
    span.PointsInto input := by
  obtain ⟨lexemes, hpasses, ⟨first, hfirst, -, hstart⟩, final, hfinal, -, hstop⟩ :=
    h.exists_passes
  have hpassed := hopens.pointsInto_of_mem hpasses
  have hlt := h.start_lt
  have hend := hpassed final hfinal
  rw [← hstart, ← hstop] at hlt
  have hpoints : Span.PointsInto ⟨first.start, final.stop⟩ input :=
    (hpassed first hfirst).to (Nat.le_of_lt hlt) hend.stop_le hend.stop
  rwa [hstart, hstop] at hpoints

end Cursor.Opens

/-- A node of a parsed script that is not blank has bytes, and they lie in the input. -/
theorem pointsInto_of_mem_nodes {body : Script} (h : parse limits input = .ok body) {node : Node}
    (hnode : node ∈ body.nodes) (hblank : node.isBlank = false) {span : Span}
    (hspan : node.span? = some span) : span.start < span.stop ∧ span.PointsInto input := by
  obtain ⟨c, last, hopens, hscript, -⟩ := parse_eq_ok_iff.1 h
  obtain ⟨levels, inBackticks, d, d', hd, hd', hgiven⟩ :=
    given_of_mem_nodes hopens.placed hscript node hnode
  have hframed := hgiven.framed (hopens.marked.reaches hd) span hspan
  rw [hblank, if_neg (by simp)] at hframed
  exact ⟨hframed.start_lt, hopens.pointsInto_of_frames (hframed.reaches hd hd')⟩

/-- **Every error points into the input.** -/
theorem pointsInto_of_parse (limits : ParseLimits) (input : String) :
    match parse limits input with
    | .error error =>
      error.errorClass = .malformed ∧ ∃ span, error.span? = some span ∧ span.PointsInto input
    | .ok body => ∀ rules, ∀ violation ∈ body.violations rules,
      violation.span.start < violation.span.stop ∧ violation.span.PointsInto input ∧
        ∃ node ∈ body.nodes, node.span? = some violation.span := by
  cases h : parse limits input with
  | error error =>
    rcases notices_of_parse h with ⟨scanError, hfailed, rfl⟩ |
      ⟨c, lexemes, last, hopens, hpasses, hnotices⟩
    · have hstream : TokenStream.ofString input = TokenStream.prepend [] (.failed scanError) :=
        hfailed
      exact ⟨rfl, _, rfl, TokenStream.pointsInto_of_failed hstream⟩
    · exact hopens.pointsInto_of_notices hpasses hnotices
  | ok body =>
    intro rules violation hviolation
    obtain ⟨node, hnode, hblank, hspan⟩ := Script.span_of_mem_violations hviolation
    obtain ⟨hlt, hpoints⟩ := pointsInto_of_mem_nodes h hnode hblank hspan
    exact ⟨hlt, hpoints, node, hnode, hspan⟩

/-- The brace that is not closed is told behind a character of two bytes and a newline. -/
theorem pointsInto_unclosedExpansion :
    parse {} "é\n$\x7ba" = .error (.unclosedExpansion ⟨3, 6⟩) ∧
      Span.PointsInto ⟨3, 6⟩ "é\n$\x7ba" ∧ (Span.locate ⟨3, 6⟩ "é\n$\x7ba").line = 2 := by
  have hparse : parse {} "é\n$\x7ba" = .error (.unclosedExpansion ⟨3, 6⟩) := by decide +kernel
  have hpoints := pointsInto_of_parse {} "é\n$\x7ba"
  rw [hparse] at hpoints
  obtain ⟨-, span, hspan, hpoints⟩ := hpoints
  obtain rfl := Option.some.inj hspan
  exact ⟨hparse, hpoints, by decide +kernel⟩

end CommandSyntax
