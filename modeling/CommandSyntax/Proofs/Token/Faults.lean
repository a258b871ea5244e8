import CommandSyntax.Proofs.Token.Runs

/-!
# CommandSyntax.Proofs.Token.Faults

**Where the scanner fails, in terms of the bytes of the input.** A `Fault` is one of four
things that stand at an offset: a closing bracket, a dollar sign that nothing fitting follows, a
bracket that no bracket closes, and a quote that no quote closes (`Unclosed`). It speaks of
bytes, of the one after the offset, and of all that follow up to the end.

The scanner divides the input at the offset (`Scanner.Splits`), and there the text that is left
is `Unreadable` just when the bytes are at fault (`fault_iff_unreadable`). A failed attempt
leaves the scanner where it stands, so every later one fails in the same way.
-/

namespace CommandSyntax

variable {input : String} {before text : List Char} {error : ScanError}

/-! ### Faults -/

/-- No quote closes a text, where each backslash but a last one takes the next character. -/
inductive Unclosed : List Char → Prop
  /-- Nothing is left. -/
  | nil : Unclosed []
  /-- A last backslash takes nothing. -/
  | last : Unclosed ['\\']
  /-- A backslash takes the next character, which may be a quote. -/
  | escaped (c : Char) {text : List Char} (h : Unclosed text) : Unclosed ('\\' :: c :: text)
  /-- Any other character but a quote is passed over. -/
  | plain {c : Char} {text : List Char} (hquote : c ≠ '\'') (hbackslash : c ≠ '\\')
    (h : Unclosed text) : Unclosed (c :: text)

theorem quotedRun_eq_none_iff : Rule.quotedRun text = none ↔ Unclosed text := by
  constructor
  · intro h
    fun_induction Rule.quotedRun text with
    | case1 => simp at h
    | case2 c text ih => exact .escaped c (ih (Option.map_eq_none_iff.1 h))
    | case3 c text hquote hescape ih =>
      have htext := Option.map_eq_none_iff.1 h
      by_cases hc : c = '\\'
      · subst hc
        cases text with
        | nil => exact .last
        | cons d text => exact absurd rfl (hescape d text rfl)
      · exact .plain (fun heq => hquote heq) hc (ih htext)
    | case4 => exact .nil
  · intro h
    induction h with
    | nil | last => rfl
    | escaped c h ih => simp [Rule.quotedRun, ih]
    | plain hquote hbackslash h ih => simp [Rule.quotedRun_cons hquote hbackslash, ih]

/-- What keeps a token from starting at an offset of the bytes of an input. -/
inductive Fault (bytes : List Char) (offset : Nat) : ScanError → Prop
  /-- A closing bracket stands there. -/
  | bracket (h : bytes[offset]? = some ']') : Fault bytes offset (.noMatch offset)
  /-- A dollar sign stands there, and no byte is next that it opens something with. -/
  | dollar (h : bytes[offset]? = some '$')
    (hnext : ∀ c, bytes[offset + 1]? = some c → followsDollar c = false) :
    Fault bytes offset (.noMatch offset)
  /-- A bracket stands there, and none closes it. -/
  | charset (h : bytes[offset]? = some '[') (hopen : ']' ∉ bytes.drop (offset + 1)) :
    Fault bytes offset (.unclosedCharset ⟨offset, bytes.length⟩)
  /-- A quote stands there, and none closes it. -/
  | quote (h : bytes[offset]? = some '\'') (hopen : Unclosed (bytes.drop (offset + 1))) :
    Fault bytes offset (.unclosedSingleQuote ⟨offset, bytes.length⟩)

theorem Fault.lt {bytes : List Char} {offset : Nat} (h : Fault bytes offset error) :
    offset < bytes.length := by
  cases h
  all_goals exact (List.getElem?_eq_some_iff.1 ‹_›).1

/-! ### From bytes to characters -/

theorem utf8Size_of_followsDollar {c : Char} (h : followsDollar c = true) : c.utf8Size = 1 := by
  simp only [followsDollar, Bool.or_eq_true, List.contains_eq_mem, List.mem_cons,
    List.not_mem_nil, or_false, decide_eq_true_eq] at h
  rcases h with hname | rfl | rfl | rfl
  · exact utf8Size_of_isNameChar hname
  all_goals rfl

theorem Text.mem_bytes_iff {d : Char} (hd : d.utf8Size = 1) : d ∈ bytes text ↔ d ∈ text := by
  rw [bytes, List.mem_flatMap]
  constructor
  · rintro ⟨c, hmem, hc⟩
    rcases encode_cases c with ⟨-, hencode⟩ | ⟨hsize, -⟩
    · rw [hencode, List.mem_singleton] at hc
      exact hc ▸ hmem
    · exact absurd hd (utf8Size_of_mem_encode hsize d hc)
  · exact fun hmem => ⟨d, hmem, by simp [encode_of_utf8Size hd]⟩

theorem Unclosed.bytes_iff : Unclosed (Text.bytes text) ↔ Unclosed text := by
  rw [← quotedRun_eq_none_iff, Rule.quotedRun_bytes, Option.map_eq_none_iff,
    quotedRun_eq_none_iff]

/-- Where the text of an input is divided, the bytes are at fault just when the text that is
left is unreadable. -/
theorem fault_iff_unreadable (h : input.toList = before ++ text) :
    Fault (Text.ofBytes input) (Text.width before) error ↔
      Unreadable (Text.width before) text error := by
  have hdrop : (Text.ofBytes input).drop (Text.width before) = Text.bytes text := by
    rw [Text.ofBytes_eq, h, Text.drop_bytes_append]
  have hlength : (Text.ofBytes input).length = Text.width before + Text.width text := by
    rw [Text.ofBytes_eq, h, Text.length_bytes, Text.width_append]
  generalize Text.ofBytes input = bytes at hdrop hlength ⊢
  -- what stands at the offset is the head of the text, and the text behind it follows
  have hhead {c : Char} (hc : c.utf8Size = 1) :
      bytes[Text.width before]? = some c ↔ ∃ rest, text = c :: rest := by
    rw [← List.head?_drop, hdrop, Text.head?_bytes hc, List.head?_eq_some_iff]
  have htail {c : Char} {rest : List Char} (hc : c.utf8Size = 1) (htext : text = c :: rest) :
      bytes.drop (Text.width before + 1) = Text.bytes rest := by
    rw [← List.drop_drop, hdrop, htext, Text.bytes_cons, Text.encode_of_utf8Size hc]
    rfl
  have hnext {rest : List Char} (htext : text = '$' :: rest) :
      (∀ c, bytes[Text.width before + 1]? = some c → followsDollar c = false) ↔
        ∀ c, rest.head? = some c → followsDollar c = false := by
    rw [← List.head?_drop, htail rfl htext]
    constructor <;> intro hnone c hc <;> by_contra hfollows <;>
      have hsize := utf8Size_of_followsDollar (Bool.eq_true_of_not_eq_false hfollows)
    · exact hfollows (hnone c ((Text.head?_bytes hsize).2 hc))
    · exact hfollows (hnone c ((Text.head?_bytes hsize).1 hc))
  constructor
  · intro hfault
    cases hfault with
    | bracket hc =>
      obtain ⟨rest, rfl⟩ := (hhead rfl).1 hc
      exact .bracket rest
    | dollar hc hnone =>
      obtain ⟨rest, rfl⟩ := (hhead rfl).1 hc
      exact .dollar ((hnext rfl).1 hnone)
    | charset hc hopen =>
      obtain ⟨rest, rfl⟩ := (hhead rfl).1 hc
      rw [htail rfl rfl, Text.mem_bytes_iff rfl] at hopen
      exact hlength ▸ .charset hopen
    | quote hc hopen =>
      obtain ⟨rest, rfl⟩ := (hhead rfl).1 hc
      rw [htail rfl rfl, Unclosed.bytes_iff, ← quotedRun_eq_none_iff] at hopen
      exact hlength ▸ .quote hopen
  · intro hunreadable
    cases hunreadable with
    | bracket rest => exact .bracket ((hhead rfl).2 ⟨rest, rfl⟩)
    | @dollar rest hnone => exact .dollar ((hhead rfl).2 ⟨rest, rfl⟩) ((hnext rfl).2 hnone)
    | @charset rest hopen =>
      refine hlength ▸ .charset ((hhead rfl).2 ⟨rest, rfl⟩) ?_
      rwa [htail rfl rfl, Text.mem_bytes_iff rfl]
    | @quote rest hopen =>
      refine hlength ▸ .quote ((hhead rfl).2 ⟨rest, rfl⟩) ?_
      rwa [htail rfl rfl, Unclosed.bytes_iff, ← quotedRun_eq_none_iff]

/-! ### Attempts to advance -/

namespace Scanner

variable {s : Scanner}

/-- Tries to advance: the token that is reached or the error, and the scanner afterwards, which
is the one before where advancing fails. -/
def attempt (s : Scanner) : Except ScanError Token × Scanner :=
  match s.advance with
  | .ok s₁ => (.ok s₁.token, s₁)
  | .error error => (.error error, s)

/-- The scanner after a number of attempts to advance. -/
def after : Nat → Scanner → Scanner
  | 0, s => s
  | n + 1, s => after n s.attempt.2

theorem attempt_eq_error_iff : s.attempt.1 = .error error ↔ s.advance = .error error := by
  unfold attempt
  split <;> simp_all

/-- A failed attempt leaves the scanner where it is. -/
theorem attempt_of_error (h : s.attempt.1 = .error error) : s.attempt.2 = s := by
  rw [attempt_eq_error_iff] at h
  simp only [attempt, h]

/-- An attempt leaves the scanner at a division of the input. -/
theorem Splits.attempt (hs : s.Splits input before) :
    ∃ before', s.attempt.2.Splits input before' := by
  cases hadvance : s.advance with
  | ok s₁ =>
    obtain ⟨lexeme, -, -, hs₁⟩ := hs.advance hadvance
    exact ⟨_, by simpa only [Scanner.attempt, hadvance] using hs₁⟩
  | error error => exact ⟨before, by simpa only [Scanner.attempt, hadvance] using hs⟩

theorem Splits.after (n : Nat) (hs : s.Splits input before) :
    ∃ before', (s.after n).Splits input before' := by
  induction n generalizing s before with
  | zero => exact ⟨before, hs⟩
  | succ n ih =>
    obtain ⟨before', hattempt⟩ := hs.attempt
    exact ih hattempt

/-- Where a scanner divides its input, it cannot advance just when the bytes are at fault. -/
theorem Splits.advance_eq_error_iff (hs : s.Splits input before) :
    s.advance = .error error ↔ Fault (Text.ofBytes input) s.token.stop error := by
  have hadvance : s.advance = .error error ↔
      Lexeme.read s.token.stop s.rest = .error error := by
    unfold Scanner.advance
    split <;> simp_all
  rw [hadvance, hs.stop_eq, fault_iff_unreadable hs.toList_eq]
  by_cases hrest : s.rest = []
  · rw [hrest, Lexeme.read_nil]
    exact ⟨nofun, nofun⟩
  · exact Lexeme.read_eq_error_iff hrest

/-- Once an attempt has failed, the scanner stays. -/
theorem after_of_error (h : s.attempt.1 = .error error) (n : Nat) : s.after n = s := by
  induction n with
  | zero => rfl
  | succ n ih => rw [after, attempt_of_error h, ih]

end Scanner

/-- **The scanner fails in four cases, and for good.** However often it has tried to advance, the
next attempt fails just when it stands before the end and the bytes there are at fault, and with
the error of that fault. Otherwise a token is reached. After a failure the scanner is where it
was, and each further attempt fails with the same error. -/
theorem attempt_fails_iff (input : String) (attempts : Nat) :
    ∀ s, s = (Scanner.ofString input).after attempts →
      (∀ error, s.attempt.1 = .error error ↔
        s.token.stop < (Text.ofBytes input).length ∧
          Fault (Text.ofBytes input) s.token.stop error) ∧
      ((∀ error, ¬ Fault (Text.ofBytes input) s.token.stop error) →
        ∃ token, s.attempt.1 = .ok token) ∧
      ∀ error, s.attempt.1 = .error error →
        ∀ more, s.after more = s ∧ (s.after more).attempt.1 = .error error := by
  rintro s rfl
  obtain ⟨before, hs⟩ := (Scanner.splits_ofString input).after attempts
  generalize (Scanner.ofString input).after attempts = s at hs
  have hfails (error : ScanError) :
      s.attempt.1 = .error error ↔ Fault (Text.ofBytes input) s.token.stop error := by
    rw [Scanner.attempt_eq_error_iff, hs.advance_eq_error_iff]
  refine ⟨fun error => ?_, fun hnone => ?_, fun error herror more => ?_⟩
  · rw [hfails]
    exact ⟨fun h => ⟨h.lt, h⟩, And.right⟩
  · cases hattempt : s.attempt.1 with
    | ok token => exact ⟨token, rfl⟩
    | error error => exact absurd ((hfails error).1 hattempt) (hnone error)
  · rw [Scanner.after_of_error herror more]
    exact ⟨rfl, herror⟩

/-- The quote in ``a 'b\`` is not closed, and the last backslash takes nothing. -/
theorem attempt_fails_openQuote :
    ((Scanner.ofString "a 'b\\").after 2).attempt.1 =
        .error (.unclosedSingleQuote ⟨2, 5⟩) ∧
      Fault (Text.ofBytes "a 'b\\") 2 (.unclosedSingleQuote ⟨2, 5⟩) := by
  have hattempt : ((Scanner.ofString "a 'b\\").after 2).attempt.1 =
      .error (.unclosedSingleQuote ⟨2, 5⟩) := by
    decide
  exact ⟨hattempt, (((attempt_fails_iff "a 'b\\" 2 _ rfl).1 _).1 hattempt).2⟩

end CommandSyntax
