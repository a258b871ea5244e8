import CommandSyntax.Proofs.Token.Settling

/-!
# CommandSyntax.Proofs.Token.Unreadable

**Text at whose head nothing can be read.** The scan fails on a text in four cases: its first
two characters begin no token, or it begins with an opening that is not closed up to the end
(`Lexeme.read_eq_error_iff`).

So more text behind can only mend a failure that reaches to the end of the text
(`Unreadable.append`), and it never makes something unreadable that could be read before
(`Unreadable.of_append`).
-/

namespace CommandSyntax

variable {position : Nat} {text more : List Char}

/-! ### The four cases -/

/-- The characters with which a dollar sign opens something. -/
def followsDollar (c : Char) : Bool := isNameChar c || ['?', '(', '{'].contains c

/-- Why nothing can be read at the head of a text that is left from a position. -/
inductive Unreadable (position : Nat) : List Char → ScanError → Prop
  /-- No token starts with a closing bracket. -/
  | bracket (text : List Char) : Unreadable position (']' :: text) (.noMatch position)
  /-- A dollar sign stands alone. -/
  | dollar {text : List Char} (h : ∀ c, text.head? = some c → followsDollar c = false) :
    Unreadable position ('$' :: text) (.noMatch position)
  /-- A set of characters is not closed. -/
  | charset {text : List Char} (h : ']' ∉ text) :
    Unreadable position ('[' :: text)
      (.unclosedCharset ⟨position, position + Text.width ('[' :: text)⟩)
  /-- A text in single quotes is not closed. -/
  | quote {text : List Char} (h : Rule.quotedRun text = none) :
    Unreadable position ('\'' :: text)
      (.unclosedSingleQuote ⟨position, position + Text.width ('\'' :: text)⟩)

namespace Rule

variable {error : ScanError}

/-- No token is found when no rule applies or when a rule rejects. -/
theorem firstToken_eq_error {rules : List Rule}
    (h : firstToken rules position text = .error error) :
    (error = .noMatch position ∧ ∀ rule ∈ rules, rule.scan text = .pass) ∨
      ∃ rule ∈ rules, ∃ opening, rule.scan text = .reject opening ∧
        error = opening.unclosed ⟨position, position + Text.width text⟩ := by
  induction rules with
  | nil => exact .inl ⟨(Except.error.inj h).symm, by simp⟩
  | cons rule rules ih =>
    simp only [firstToken] at h
    split at h
    · rename_i hscan
      rcases ih h with ⟨herror, hpass⟩ | ⟨other, hmem, hreject⟩
      · exact .inl ⟨herror, List.forall_mem_cons.2 ⟨hscan, hpass⟩⟩
      · exact .inr ⟨other, List.mem_cons_of_mem _ hmem, hreject⟩
    · simp at h
    · exact .inr ⟨rule, List.mem_cons_self, _, ‹_›, (Except.error.inj h).symm⟩

theorem literal_ne_reject (kind : TokenKind) (characters : List Char) (opening : Opening) :
    (literal kind characters).scan text ≠ .reject opening := by
  simp only [literal]
  split <;> simp

/-- Of all rules only two reject. -/
theorem eq_of_reject {opening : Opening} :
    ∀ rule ∈ table, rule.scan text = .reject opening →
      rule = globCharset ∨ rule = singleQuoted := by
  have hparameter : unbracedParameter.scan text ≠ .reject opening := by
    simp only [unbracedParameter]
    repeat' split
    all_goals simp
  have hend : statementEnd.scan text ≠ .reject opening := by
    simp only [statementEnd]
    repeat' split
    all_goals simp
  have hstop : stop.scan text ≠ .reject opening := by
    cases text <;> simp [stop]
  have hassignment : assignmentLhs.scan text ≠ .reject opening := by
    simp only [assignmentLhs]
    split <;> simp
  have hwhitespace : whitespace.scan text ≠ .reject opening := Verdict.ofRun_ne_reject _ _
  have hraw : raw.scan text ≠ .reject opening := Verdict.ofRun_ne_reject _ _
  simp [table, literal_ne_reject, hparameter, hend, hstop, hassignment, hwhitespace, hraw]

/-- Only openings that are not closed are rejected. -/
theorem unreadable_of_reject {opening : Opening} {rule : Rule} (hmem : rule ∈ table)
    (h : rule.scan text = .reject opening) :
    Unreadable position text (opening.unclosed ⟨position, position + Text.width text⟩) := by
  rcases eq_of_reject rule hmem h with rfl | rfl
  · simp only [globCharset] at h
    split at h
    · rename_i text
      cases hfind : text.findIdx? (· == ']') with
      | some inside => simp [hfind] at h
      | none =>
        simp only [hfind, Verdict.reject.injEq] at h
        subst h
        exact .charset fun hmem => by simpa using List.findIdx?_eq_none_iff.1 hfind _ hmem
    · simp at h
  · simp only [singleQuoted] at h
    split at h
    · rename_i text
      cases hrun : quotedRun text with
      | some run => simp [hrun] at h
      | none =>
        simp only [hrun, Verdict.reject.injEq] at h
        subst h
        exact .quote hrun
    · simp at h

theorem rawRun_pos (text : List Char) {c : Char} (hc : isDelimiter c = false) :
    0 < rawRun (c :: text) := by
  rw [rawRun.eq_def]
  split <;> simp_all

/-- Each delimiter but four begins a token whatever comes after it. -/
theorem cases_of_pass {c : Char} (h : ∀ rule ∈ table, rule.scan (c :: text) = .pass) :
    c = '$' ∨ c = '[' ∨ c = ']' ∨ c = '\'' := by
  have hc : c ∈ delimiters := by
    have hraw : Verdict.ofRun (rawRun (c :: text)) = .pass := h raw (by simp [table])
    cases hdelimiter : isDelimiter c with
    | true => simpa [isDelimiter] using hdelimiter
    | false =>
      obtain ⟨run, hrun⟩ := Nat.exists_eq_add_of_lt (rawRun_pos text hdelimiter)
      simp [hrun, Verdict.ofRun] at hraw
  simp only [delimiters, List.mem_cons, List.not_mem_nil, or_false] at hc
  simp only [table, List.forall_mem_cons] at h
  rcases hc with rfl | rfl | rfl | rfl | rfl | rfl | rfl | rfl | rfl | rfl | rfl | rfl | rfl |
    rfl | rfl | rfl | rfl | rfl | rfl | rfl | rfl | rfl
  all_goals
    simp [stop, whitespace, blankRun, isBlank, Verdict.ofRun, literal, statementEnd] at h ⊢

/-- Where no rule applies, the text begins with a closing bracket or with a lone dollar sign. -/
theorem unreadable_of_pass (htext : text ≠ []) (h : ∀ rule ∈ table, rule.scan text = .pass) :
    Unreadable position text (.noMatch position) := by
  obtain ⟨c, text, rfl⟩ := List.exists_cons_of_ne_nil htext
  rcases cases_of_pass h with rfl | rfl | rfl | rfl
  · refine .dollar fun c hc => ?_
    obtain ⟨text, rfl⟩ : ∃ rest, text = c :: rest := by cases text <;> simp_all
    have hparameter := h unbracedParameter (by simp [table])
    have hparen := h (literal .startSubstitution ['$', '(']) (by simp [table])
    have hbrace := h (literal .startExpansion ['$', '{']) (by simp [table])
    simp only [unbracedParameter] at hparameter
    split at hparameter
    · simp at hparameter
    · split at hparameter
      · simp at hparameter
      · have hne : '(' ≠ c ∧ '{' ≠ c := by
          constructor <;> rintro rfl <;> simp [literal, Verdict.ofRun] at hparen hbrace
        simp_all [followsDollar, hne.1.symm, hne.2.symm]
  · have hcharset := h globCharset (by simp [table])
    simp only [globCharset] at hcharset
    split at hcharset <;> simp at hcharset
  · exact .bracket text
  · have hquote := h singleQuoted (by simp [table])
    simp only [singleQuoted] at hquote
    split at hquote <;> simp at hquote

end Rule

theorem Lexeme.read_eq_error_iff {error : ScanError} (htext : text ≠ []) :
    read position text = .error error ↔ Unreadable position text error := by
  constructor
  · intro h
    simp only [read] at h
    split at h
    · simp at h
    · rename_i hfirst
      obtain rfl := Except.error.inj h
      rcases Rule.firstToken_eq_error hfirst with ⟨rfl, hpass⟩ | ⟨rule, hmem, opening, hscan, rfl⟩
      · exact Rule.unreadable_of_pass htext hpass
      · exact Rule.unreadable_of_reject hmem hscan
  · intro h
    cases h with
    | bracket text =>
      simp [Lexeme.read, Rule.firstToken, Rule.table, Rule.stop, Rule.whitespace,
        Rule.blankRun, isBlank, Verdict.ofRun, Rule.unbracedParameter, Rule.literal,
        Rule.statementEnd, Rule.globCharset, Rule.singleQuoted, Rule.assignmentLhs,
        Rule.nameRun, isNameChar, Rule.raw, Rule.rawRun, isDelimiter, delimiters]
    | @dollar text h =>
      cases text with
      | nil => rfl
      | cons c text =>
        have hc := h c rfl
        simp only [followsDollar, isNameChar, Char.isAlphanum, Bool.or_eq_false_iff,
          List.contains_eq_mem, List.mem_cons, List.not_mem_nil, or_false,
          decide_eq_false_iff_not, not_or, beq_eq_false_iff_ne] at hc
        simp [Lexeme.read, Rule.firstToken, Rule.table, Rule.stop, Rule.whitespace,
          Rule.blankRun, isBlank, Verdict.ofRun, Rule.unbracedParameter, Rule.literal,
          Rule.statementEnd, Rule.globCharset, Rule.singleQuoted, Rule.assignmentLhs,
          Rule.nameRun, isNameChar, Char.isAlphanum, Rule.raw, Rule.rawRun, isDelimiter,
          delimiters, hc, Ne.symm hc.2.2.1, Ne.symm hc.2.2.2]
    | @charset text h =>
      have hfind : text.findIdx? (· == ']') = none := by
        rw [List.findIdx?_eq_none_iff]
        exact fun c hc => beq_eq_false_iff_ne.2 fun heq => h (heq ▸ hc)
      simp [Lexeme.read, Rule.firstToken, Rule.table, Rule.stop, Rule.whitespace,
        Rule.blankRun, isBlank, Verdict.ofRun, Rule.unbracedParameter, Rule.literal,
        Rule.statementEnd, Rule.globCharset, hfind, Opening.unclosed]
    | quote h =>
      simp [Lexeme.read, Rule.firstToken, Rule.table, Rule.stop, Rule.whitespace,
        Rule.blankRun, isBlank, Verdict.ofRun, Rule.unbracedParameter, Rule.literal,
        Rule.statementEnd, Rule.globCharset, Rule.singleQuoted, h, Opening.unclosed]

namespace Unreadable

variable {error : ScanError}

/-- The bytes at fault are those of the first characters of the text. -/
theorem exists_span (h : Unreadable position text error) :
    ∃ inside after, text = inside ++ after ∧ inside ≠ [] ∧
      error.span = ⟨position, position + Text.width inside⟩ := by
  cases h with
  | bracket text => exact ⟨[']'], text, rfl, by simp, rfl⟩
  | @dollar text => exact ⟨['$'], text, rfl, by simp, rfl⟩
  | charset | quote => exact ⟨_, [], (List.append_nil _).symm, by simp, rfl⟩

/-- The bytes at fault reach past the position. -/
theorem lt_stop (h : Unreadable position text error) : position < error.span.stop := by
  obtain ⟨inside, -, -, hne, hspan⟩ := h.exists_span
  have := List.length_pos_iff.2 hne
  have := Text.length_le_width inside
  simp only [hspan]
  omega

/-- An error that does not reach to the end of a text does not go away with more text. -/
theorem append (h : Unreadable position text error)
    (hearly : error.span.stop + 2 ≤ position + Text.width text) :
    Unreadable position (text ++ more) error := by
  cases h with
  | bracket text => exact .bracket (text ++ more)
  | @dollar text h =>
    refine .dollar fun c hc => h c ?_
    cases text with
    | nil =>
      have hwidth : Text.width ['$'] = 1 := rfl
      simp only [ScanError.span, hwidth] at hearly
      omega
    | cons d text => exact hc
  | charset | quote =>
    simp only [ScanError.span] at hearly
    omega

/-- Less text does not make anything readable, unless none is left. -/
theorem of_append (htext : text ≠ []) (h : Unreadable position (text ++ more) error) :
    ∃ error', Unreadable position text error' := by
  obtain ⟨c, text, rfl⟩ := List.exists_cons_of_ne_nil htext
  rw [List.cons_append] at h
  generalize hall : text ++ more = all at h
  cases h with
  | bracket => exact ⟨_, .bracket text⟩
  | dollar h =>
    refine ⟨_, .dollar fun c hc => h c ?_⟩
    cases text with
    | nil => simp at hc
    | cons d text => simpa [← hall] using hc
  | charset h => exact ⟨_, .charset fun hmem => h (hall ▸ List.mem_append_left more hmem)⟩
  | quote h =>
    refine ⟨_, .quote ?_⟩
    cases hrun : Rule.quotedRun text with
    | none => rfl
    | some run => simp [← hall, Rule.quotedRun_append hrun] at h

end Unreadable

/-! ### Streams that fail -/

namespace TokenStream

variable {error : ScanError}

theorem unreadable_of_ofText (h : ofText position text = .failed error) :
    text ≠ [] ∧ Unreadable position text error := by
  by_cases htext : text = []
  · simp [htext] at h
  refine ⟨htext, (Lexeme.read_eq_error_iff htext).1 ?_⟩
  cases hread : Lexeme.read position text with
  | ok lexeme => simp [ofText_of_read_eq_ok htext hread] at h
  | error error' =>
    rw [ofText_of_read_eq_error htext hread] at h
    rw [failed.inj h]

theorem ofText_of_unreadable (htext : text ≠ []) (h : Unreadable position text error) :
    ofText position text = .failed error :=
  ofText_of_read_eq_error htext ((Lexeme.read_eq_error_iff htext).2 h)

end TokenStream

end CommandSyntax
