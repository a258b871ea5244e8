import CommandSyntax.Proofs.Grammar.Following
import CommandSyntax.Proofs.Parse.Trace
import CommandSyntax.Proofs.Token.Unreadable
import CommandSyntax.Script.Equality

/-!
# CommandSyntax.Proofs.Parse.Finality

**Errors are final.** A parse that fails before the end of its input fails in the same way
when the input goes on (`parse_append_of_error`). So an error can be told as soon as two more
bytes have been read.

The parse of the longer input follows the parse of the shorter one for as long as two bytes
are left behind the current lexeme (`extension`): up to there the lexemes are the same. Behind
that the shorter input may be scanned otherwise, but then any error reaches too far.
-/

namespace CommandSyntax

open Production Cursor

/-! ### Scripts that reach to the end -/

namespace Simulation

variable {sim : Simulation}

theorem follows_toEnd (hlast : sim.last = .stop) (f : Script → Script) (body : Script) :
    sim.Follows f (toEnd body) (toEnd (f body)) := by
  refine follows_current fun lexeme lexeme' hsees => ?_
  cases hsees with
  | last _ halone => exact absurd hlast halone
  | same =>
    rw [Lexeme.kind_shift, Lexeme.span_shift]
    by_cases hstop : lexeme.kind = .stop
    · rw [if_pos hstop, if_pos hstop]
      exact (follows_pure rfl).at lexeme
    · rw [if_neg hstop, if_neg hstop]
      exact followsAt_fail rfl (Nat.le_refl _) fun _ => rfl

/-- The script of an input and the end after it are followed. -/
theorem follows_scriptToEnd (hlast : sim.last = .stop) {limit limit' : Nat}
    (hlevels : sim.LevelsFollow limit limit limit' limit') :
    sim.Follows (Script.mapSpans sim.move) (scriptToEnd limit) (scriptToEnd limit') := by
  rw [scriptToEnd_eq_bind, scriptToEnd_eq_bind]
  exact (follows_script hlast hlevels fun _ => rfl).bind (follows_toEnd hlast _)

end Simulation

/-! ### Inputs that go on -/

variable {size position : Nat} {text more : List Char} {lexeme : Lexeme} {rest : TokenStream}

/-- Two bytes are left behind the first lexeme of a stream. -/
def TokenStream.Early (size : Nat) : TokenStream → Prop
  | .next lexeme _ => lexeme.stop + 2 ≤ size
  | _ => False

/-- An error reaches to the end of an input of some bytes, or all but one byte of it. -/
def SyntaxError.Late (size : Nat) (error : SyntaxError) : Prop :=
  ∃ span, error.span? = some span ∧ size < span.stop + 2

/-- What follows a lexeme that is not early is not early either. -/
theorem TokenStream.not_early_ofText (h : ¬ lexeme.stop + 2 ≤ size) :
    ¬ (ofText lexeme.stop text).Early size := by
  cases hstream : ofText lexeme.stop text with
  | finished => exact id
  | failed => exact id
  | next lexeme' rest =>
    obtain ⟨htext, hread, -⟩ := read_of_ofText_eq_next hstream
    have := Lexeme.lt_stop_of_text_ne_nil (Lexeme.read_text_ne_nil htext hread)
    have := Lexeme.read_start hread
    simp only [Early]
    omega

/-- The parse of an input that goes on follows the parse of the input. -/
def extension (size : Nat) (more : List Char) : Simulation where
  shift := 0
  extra := Text.width more
  last := .stop
  ticks := true
  Along stream stream' := stream.Early size ∧ ∃ position text,
    position + Text.width text = size ∧ stream = .ofText position text ∧
      stream' = .ofText position (text ++ more)
  Astray stream := ¬ stream.Early size ∧ ∃ position text,
    position + Text.width text = size ∧ stream = .ofText position text
  Lost := SyntaxError.Late size
  stops_last := stops_stop
  along_next := by
    intro lexeme rest stream' ⟨hearly, position, text, hsize, hstream, hstream'⟩
    obtain ⟨htext, hread, rfl⟩ := TokenStream.read_of_ofText_eq_next hstream.symm
    have hwidth := (Lexeme.stop_add_width_drop hread).trans hsize
    have hbehind : 2 ≤ Text.width (text.drop lexeme.text.length) := by
      have hearly : lexeme.stop + 2 ≤ size := hearly
      omega
    have hdrop : text.drop lexeme.text.length ≠ [] := by
      intro hnil
      simp [hnil] at hbehind
    have hread' : Lexeme.read position (text ++ more) = .ok lexeme :=
      Lexeme.read_append htext hread (.ahead hbehind)
    have hle : lexeme.text.length ≤ text.length := by
      have := List.length_pos_iff.2 hdrop
      rw [List.length_drop] at this
      omega
    refine ⟨.ofText lexeme.stop (text.drop lexeme.text.length ++ more), ?_, fun error hfailed => ?_,
      fun hrest => ⟨fun error hfailed => ?_, ?_⟩⟩
    · rw [hstream', TokenStream.ofText_of_read_eq_ok (by simp [htext]) hread',
        List.drop_append_of_le_length hle]
      rfl
    · obtain ⟨-, hunreadable⟩ := TokenStream.unreadable_of_ofText hfailed
      by_cases hlate : size < error.span.stop + 2
      · exact .inl ⟨_, rfl, hlate⟩
      · refine .inr ?_
        rw [ScanError.shift_zero]
        exact TokenStream.ofText_of_unreadable (by simp [hdrop]) (hunreadable.append (by omega))
    · obtain ⟨-, hunreadable⟩ := TokenStream.unreadable_of_ofText hfailed
      obtain ⟨error', hunreadable'⟩ := hunreadable.of_append hdrop
      exact hrest error' (TokenStream.ofText_of_unreadable hdrop hunreadable')
    · by_cases hearly' : (TokenStream.ofText lexeme.stop (text.drop lexeme.text.length)).Early size
      · exact .inl ⟨hearly', _, _, hwidth, rfl, rfl⟩
      · exact .inr ⟨hearly', _, _, hwidth, rfl⟩
  along_finished h := h.1.elim
  astray_next := by
    intro lexeme rest ⟨hearly, position, text, hsize, hstream⟩
    obtain ⟨htext, hread, rfl⟩ := TokenStream.read_of_ofText_eq_next hstream.symm
    have hearly : ¬ lexeme.stop + 2 ≤ size := hearly
    have hwidth := (Lexeme.stop_add_width_drop hread).trans hsize
    refine ⟨fun error hfailed => ⟨_, rfl, ?_⟩, fun _ =>
      ⟨TokenStream.not_early_ofText hearly, _, _, hwidth, rfl⟩⟩
    have := (TokenStream.unreadable_of_ofText hfailed).2.lt_stop
    omega
  lost_of_astray_next := by
    intro lexeme rest error span hastray hspan hlate
    have hearly : ¬ lexeme.stop + 2 ≤ size := hastray.1
    exact ⟨span, hspan, by omega⟩
  lost_of_astray_finished := by
    intro position error span ⟨_, position', text, hsize, hstream⟩ hspan hlate
    have htiles := TokenStream.tiles_ofText position' text
    rw [← hstream, hsize] at htiles
    cases htiles
    exact ⟨span, hspan, by omega⟩
  lost_of_last hlast := absurd rfl hlast
  ticks_of_backtick _ _ := rfl

/-! ### Errors are final -/

variable {limits : ParseLimits} {s t : String} {c c' : Cursor}

/-- The first tokens go along, or the shorter input is too short for that. -/
theorem pair_extension (hopens : c.Opens s) (hopens' : c'.Opens (s ++ t)) :
    (extension (Text.width s.toList) t.toList).InStep c c' ∨
      (extension (Text.width s.toList) t.toList).Strays c := by
  have hstream : c.stream = .ofText 0 s.toList := hopens.stream_eq
  have hstream' : c'.stream = .ofText 0 (s.toList ++ t.toList) := by
    rw [hopens'.stream_eq, TokenStream.ofString, String.toList_append]
  by_cases hearly : c.stream.Early (Text.width s.toList)
  · refine .inl ⟨hopens.placed, hopens'.placed, ?_, ?_, hearly, 0, _, by simp, hstream, hstream'⟩
    · rw [hopens.lastEnd_eq, hopens'.lastEnd_eq]
      rfl
    · rw [hopens.size_eq, hopens'.size_eq, String.toList_append, Text.width_append]
      rfl
  · exact .inr ⟨hopens.placed, hearly, 0, _, by simp, hstream⟩

/-- An input has a first token if it has one when it goes on, unless it is empty. -/
theorem exists_opens_append (hopens : c.Opens s) (hne : s.toList ≠ []) (t : String) :
    ∃ c' : Cursor, c'.Opens (s ++ t) := by
  refine exists_opens_of_ne_failed fun error hfailed => ?_
  rw [TokenStream.ofString, String.toList_append] at hfailed
  obtain ⟨-, hunreadable⟩ := TokenStream.unreadable_of_ofText hfailed
  obtain ⟨error', hunreadable'⟩ := hunreadable.of_append hne
  exact absurd (TokenStream.ofText_of_unreadable hne hunreadable') (hopens.ne_failed error')

/-- **Errors are final.** A parse that fails at least two bytes before the end of the input fails
with the same error, noticed at the same site, whatever follows. -/
theorem parse_append_of_error {error : SyntaxError} {span : Span}
    (h : parse limits s = .error error) (hspan : error.span? = some span)
    (hearly : span.stop + 2 ≤ Text.width s.toList) (t : String) :
    parse limits (s ++ t) = .error error := by
  have hne : s.toList ≠ [] := by
    intro hnil
    simp [hnil] at hearly
  have hlate : ¬ error.Late (Text.width s.toList) := by
    rintro ⟨span', hspan', hlate⟩
    obtain rfl := Option.some.inj (hspan.symm.trans hspan')
    omega
  rcases opens_or_failed s with ⟨c, hopens⟩ | ⟨scanError, hfailed, -⟩
  · obtain ⟨c', hopens'⟩ := exists_opens_append hopens hne t
    have hfollows : (extension (Text.width s.toList) t.toList).Follows _
        (scriptToEnd limits.nesting) (scriptToEnd limits.nesting) :=
      Simulation.follows_scriptToEnd rfl (.inl ⟨rfl, rfl⟩)
    rw [parse_of_opens hopens] at h
    rw [parse_of_opens hopens']
    cases hscript : scriptToEnd limits.nesting c with
    | ok body last => simp [hscript] at h
    | error error' last =>
      obtain rfl : error' = error := by simpa [hscript] using h
      rcases pair_extension hopens hopens' with hstep | hstrays
      · rcases hfollows.eq_error hstep hscript with hlost | ⟨last', hscript'⟩
        · exact absurd hlost hlate
        · simp only [hscript', extension, SyntaxError.shift_zero]
      · exact absurd (hfollows.lost_of_strays hstrays hscript) hlate
  · rw [parse_of_failed hfailed, Except.error.injEq] at h
    subst h
    refine parse_of_failed ?_ limits
    obtain ⟨-, hunreadable⟩ := TokenStream.unreadable_of_ofText hfailed
    rw [TokenStream.ofString, String.toList_append]
    refine TokenStream.ofText_of_unreadable (by simp [hne]) (hunreadable.append ?_)
    obtain rfl := Option.some.inj hspan
    omega

/-- The missing file of a redirection is told although a quote is never closed behind it. -/
theorem parse_append_of_missingTarget :
    parse ⟨1⟩ ("a > ; b c" ++ "'") =
      .error (.missingTarget .writeRedirect .statementEnd ⟨4, 5⟩) :=
  parse_append_of_error (s := "a > ; b c") (by decide +kernel) rfl (by decide) "'"

end CommandSyntax
