import CommandSyntax.Proofs.Token.Precedence
import CommandSyntax.Proofs.Token.Settling
import CommandSyntax.Proofs.Token.Spacing
import CommandSyntax.Proofs.Token.Spelling

/-!
# CommandSyntax.Proofs.Token.Recutting

**Cutting the same lexeme off in front of another rest.** The rules look past what they accept, but
no further than to the next character. So a lexeme is cut off as before when the text behind it is
changed to one that begins with the same character, or with a blank or the end of a statement
(`Cuts.of_startsAlike`): these end a name and plain text, and they make no mark longer.

Each rule accepts the same characters in front of another rest (`Rule.recuts_of_mem_table`), and
those that have precedence over it pass there as well (`Rule.pass_of_startsAlike`). The two
exceptions are whitespace, which grows by blanks behind it, and plain text that ends in a backslash
at the very end of the input, which would escape what is put there.
-/

namespace CommandSyntax

variable {kind : TokenKind} {rule other : Rule} {chars rest rest' : List Char}

/-! ### What comes next -/

/-- The characters that blanks and the ends of statements begin with. -/
def layoutChars : List Char := [' ', '\t', '\r', '\x0b', ';', '\n']

/-- The second text begins with the same character as the first, or with the layout. -/
def StartsAlike (rest rest' : List Char) : Prop :=
  ∀ c, rest'.head? = some c → rest.head? = some c ∨ c ∈ layoutChars

/-- What holds of the layout, and of the character with which the first text begins, holds of the
character with which the second one begins. -/
theorem StartsAlike.transfer (h : StartsAlike rest rest') {P : Char → Prop}
    (hlayout : ∀ c ∈ layoutChars, P c) (hrest : ∀ c, rest.head? = some c → P c) :
    ∀ c, rest'.head? = some c → P c :=
  fun c hc => (h c hc).elim (hrest c) (hlayout c)

theorem StartsAlike.append (h : StartsAlike rest rest') (hne : rest ≠ []) (hne' : rest' ≠ [])
    (more : List Char) : StartsAlike (rest ++ more) (rest' ++ more) := by
  obtain ⟨c, rest, rfl⟩ := List.exists_cons_of_ne_nil hne
  obtain ⟨d, rest', rfl⟩ := List.exists_cons_of_ne_nil hne'
  exact h

theorem isDelimiter_of_mem_layoutChars : ∀ c ∈ layoutChars, isDelimiter c = true := by
  simp [layoutChars, isDelimiter, delimiters]

theorem isNameChar_of_mem_layoutChars : ∀ c ∈ layoutChars, isNameChar c = false := by
  simp [layoutChars, isNameChar]

theorem StartsAlike.beginsDelimited (h : StartsAlike rest rest') (hrest : BeginsDelimited rest) :
    BeginsDelimited rest' :=
  h.transfer isDelimiter_of_mem_layoutChars hrest

/-! ### Runs in front of another rest -/

namespace Rule

theorem spacing_take_blankRun (text : List Char) : Spacing (text.take (blankRun text)) := by
  fun_induction blankRun text with
  | case1 text ih => exact .escapedNewline ih
  | case2 c text _ hblank ih => exact .blank hblank ih
  | case3 | case4 => exact .nil

/-- A run of blanks that ends in front of the rest is spacing. -/
theorem spacing_of_blankRun_append (h : blankRun (chars ++ rest) = chars.length) :
    Spacing chars := by
  have := spacing_take_blankRun (chars ++ rest)
  rwa [h, List.take_left] at this

theorem forall_isNameChar_of_nameRun_append (h : nameRun (chars ++ rest) = chars.length) :
    (∀ c ∈ chars, isNameChar c = true) ∧ ∀ c, rest.head? = some c → isNameChar c = false := by
  induction chars with
  | nil =>
    refine ⟨by simp, fun c hc => ?_⟩
    obtain ⟨text, rfl⟩ : ∃ text, rest = c :: text := by cases rest <;> simp_all
    rw [List.nil_append, nameRun_cons] at h
    by_contra hname
    simp [hname] at h
  | cons d chars ih =>
    rw [List.cons_append, nameRun_cons] at h
    split at h
    · rename_i hd
      obtain ⟨hchars, hrest⟩ := ih (by simpa using h)
      exact ⟨List.forall_mem_cons.2 ⟨hd, hchars⟩, hrest⟩
    · simp at h

theorem quotedRun_of_append {n : Nat} (h : quotedRun (chars ++ rest) = some n)
    (hn : n ≤ chars.length) : quotedRun chars = some n := by
  fun_induction quotedRun chars generalizing n with
  | case1 text => simpa [quotedRun] using h
  | case2 c text ih =>
    simp only [List.cons_append, quotedRun] at h
    obtain ⟨run, hrun, rfl⟩ := Option.map_eq_some_iff.1 h
    simp [ih hrun (by simpa using hn)]
  | case3 c text hquote hescape ih =>
    have hc : c ≠ '\\' := by
      rintro rfl
      cases text with
      | cons d text => exact hescape d text rfl rfl
      | nil =>
        -- the quote would be behind the character that the backslash escapes
        cases rest with
        | nil => simp [quotedRun] at h
        | cons d rest =>
          simp only [List.cons_append, List.nil_append, quotedRun] at h
          obtain ⟨run, hrun, rfl⟩ := Option.map_eq_some_iff.1 h
          simp at hn
    have hstep : quotedRun (c :: (text ++ rest)) = (quotedRun (text ++ rest)).map (· + 1) := by
      rw [quotedRun]
      · exact hquote
      · exact fun _ _ heq => absurd heq hc
    rw [List.cons_append, hstep] at h
    obtain ⟨run, hrun, rfl⟩ := Option.map_eq_some_iff.1 h
    simp [ih hrun (by simpa using hn)]
  | case4 =>
    obtain rfl : n = 0 := by simpa using hn
    exact absurd (quotedRun_le h).1 (Nat.lt_irrefl 0)

/-- A run of plain text that ends in front of the rest goes on with whatever else is plain there,
unless its last backslash escapes nothing. -/
theorem rawRun_append_of_eq (h : rawRun (chars ++ rest) = chars.length)
    (hlast : rest ≠ [] ∨ chars.getLast? ≠ some '\\') (rest' : List Char) :
    rawRun (chars ++ rest') = chars.length + rawRun rest' := by
  fun_induction rawRun chars with
  | case1 c text ih =>
    simp only [List.cons_append, rawRun, List.length_cons] at h ⊢
    rw [ih (by omega) (hlast.imp_right fun h => getLast?_ne_of_cons (getLast?_ne_of_cons h))]
    omega
  | case2 c text hescape hdelimiter =>
    have hc : c ≠ '\\' := by
      rintro rfl
      simp [isDelimiter, delimiters] at hdelimiter
    rw [List.cons_append, rawRun] at h
    · simp [hdelimiter] at h
    · exact fun _ _ heq => absurd heq hc
  | case3 c text hescape hdelimiter ih =>
    have hc : c ≠ '\\' := by
      rintro rfl
      cases text with
      | cons d text => exact hescape d text rfl rfl
      | nil =>
        cases rest with
        | nil => simp at hlast
        | cons d rest => simp [rawRun] at h
    have hstep (rest : List Char) : rawRun (c :: (text ++ rest)) = rawRun (text ++ rest) + 1 := by
      rw [rawRun]
      · simp [hdelimiter]
      · exact fun _ _ heq => absurd heq hc
    rw [List.cons_append, hstep, List.length_cons] at h
    rw [List.cons_append, hstep, ih (by omega) (hlast.imp_right getLast?_ne_of_cons),
      List.length_cons]
    omega
  | case4 => simp

theorem beginsDelimited_of_rawRun_eq_zero {text : List Char} (h : rawRun text = 0) :
    BeginsDelimited text := by
  intro c hc
  obtain ⟨text, rfl⟩ : ∃ tail, text = c :: tail := by cases text <;> simp_all
  by_contra hdelimiter
  have := rawRun_pos text (by simpa using hdelimiter)
  omega

/-! ### Rules in front of another rest -/

/-- What a rule accepts in front of a text it accepts in front of another that begins alike. -/
def Recuts (rule : Rule) : Prop :=
  ∀ ⦃chars rest rest'⦄, chars ≠ [] → StartsAlike rest rest' →
    (rest ≠ [] ∨ chars.getLast? ≠ some '\\') → (rule.kind = .whitespace → blankRun rest' = 0) →
    rule.scan (chars ++ rest) = .accept chars.length →
    rule.scan (chars ++ rest') = .accept chars.length

theorem literal_accept {characters : List Char}
    (h : (literal kind characters).scan (chars ++ rest) = .accept chars.length) :
    chars = characters := by
  simp only [literal] at h
  split at h
  · rename_i hpre
    obtain ⟨hlength, -⟩ := Verdict.ofRun_eq_accept_iff.1 h
    have htake := List.prefix_iff_eq_take.1 (List.isPrefixOf_iff_prefix.1 hpre)
    rw [hlength, List.take_left] at htake
    exact htake.symm
  · simp at h

theorem stop_recuts : stop.Recuts := by
  intro chars rest rest' hne halike hlast hblank h
  obtain ⟨c, chars, rfl⟩ := List.exists_cons_of_ne_nil hne
  simp [stop] at h

theorem literal_recuts (kind : TokenKind) (characters : List Char) :
    (literal kind characters).Recuts := by
  intro chars rest rest' hne halike hlast hblank h
  obtain rfl := literal_accept h
  obtain ⟨n, hn⟩ := Nat.exists_eq_succ_of_ne_zero (List.length_pos_iff.2 hne).ne'
  simp [literal, hn, Verdict.ofRun]

theorem whitespace_recuts : whitespace.Recuts := by
  intro chars rest rest' hne halike hlast hblank h
  obtain ⟨hrun, hpos⟩ := Verdict.ofRun_eq_accept_iff.1 h
  refine Verdict.ofRun_eq_accept_iff.2 ⟨?_, hpos⟩
  rw [(spacing_of_blankRun_append hrun).blankRun_append, hblank rfl, Nat.add_zero]

theorem unbracedParameter_recuts : unbracedParameter.Recuts := by
  intro chars rest rest' hne halike hlast hblank h
  obtain ⟨d, chars, rfl⟩ := List.exists_cons_of_ne_nil hne
  by_cases hd : d = '$'
  · subst hd
    cases chars with
    | nil =>
      -- at least one more character would be accepted
      simp only [unbracedParameter, List.cons_append, List.nil_append] at h
      split at h
      · repeat' split at h
        all_goals simp at h
      · simp at h
    | cons c name =>
      simp only [unbracedParameter, List.cons_append] at h ⊢
      by_cases hc : c = '?' ∨ c.isDigit = true
      · simpa [hc] using h
      by_cases hname : isNameChar c = true
      · simp only [if_neg hc, if_pos hname, Verdict.accept.injEq, List.length_cons] at h ⊢
        have hrun : nameRun (name ++ rest) = name.length := by omega
        obtain ⟨hchars, hrest⟩ := forall_isNameChar_of_nameRun_append hrun
        rw [nameRun_append hchars (halike.transfer isNameChar_of_mem_layoutChars hrest)]
      · simp [hc, hname] at h
  · simp [scan_unbracedParameter_of_ne hd] at h

theorem statementEnd_recuts : statementEnd.Recuts := by
  intro chars rest rest' hne halike hlast hblank h
  obtain ⟨c, chars, rfl⟩ := List.exists_cons_of_ne_nil hne
  exact h

theorem globCharset_recuts : globCharset.Recuts := by
  intro chars rest rest' hne halike hlast hblank h
  obtain ⟨c, chars, rfl⟩ := List.exists_cons_of_ne_nil hne
  by_cases hc : c = '['
  · subst hc
    simp only [List.cons_append, globCharset] at h ⊢
    cases hfind : chars.findIdx? (· == ']') with
    | some inside => simpa [List.findIdx?_append, hfind] using h
    | none =>
      -- otherwise the closing bracket would stand in the rest
      rw [List.findIdx?_append, hfind, Option.none_or] at h
      cases hrest : rest.findIdx? (· == ']') with
      | some inside =>
        simp [hrest] at h
        omega
      | none => simp [hrest] at h
  · simp [scan_globCharset_of_ne hc] at h

theorem singleQuoted_recuts : singleQuoted.Recuts := by
  intro chars rest rest' hne halike hlast hblank h
  obtain ⟨c, chars, rfl⟩ := List.exists_cons_of_ne_nil hne
  by_cases hc : c = '\''
  · subst hc
    simp only [List.cons_append, singleQuoted] at h ⊢
    cases hrun : quotedRun (chars ++ rest) with
    | some run =>
      simp only [hrun, Verdict.accept.injEq, List.length_cons] at h
      rw [quotedRun_append (quotedRun_of_append hrun (by omega))]
      simpa using h
    | none => simp [hrun] at h
  · simp [scan_singleQuoted_of_ne hc] at h

theorem assignmentLhs_recuts : assignmentLhs.Recuts := by
  intro chars rest rest' hne halike hlast hblank h
  have hcontends : assignmentLhs.scan (chars ++ rest) ≠ .pass := by simp [h]
  obtain ⟨name, more, hname, hchars⟩ := exists_isName_of_scan hcontends
  rw [hchars, scan_assignmentLhs hname, Verdict.accept.injEq] at h
  have hfront : chars ++ rest = (name ++ ['=']) ++ more := by simpa using hchars
  obtain ⟨rfl, -⟩ := List.append_inj hfront (by simpa using h.symm)
  simpa using scan_assignmentLhs hname rest'

/-- Plain text ends in front of a delimiter. -/
theorem beginsDelimited_of_raw (hlast : rest ≠ [] ∨ chars.getLast? ≠ some '\\')
    (h : raw.scan (chars ++ rest) = .accept chars.length) : BeginsDelimited rest := by
  obtain ⟨hrun, -⟩ := Verdict.ofRun_eq_accept_iff.1 h
  have := rawRun_append_of_eq hrun hlast rest
  exact beginsDelimited_of_rawRun_eq_zero (by omega)

theorem raw_recuts : raw.Recuts := by
  intro chars rest rest' hne halike hlast hblank h
  obtain ⟨hrun, hpos⟩ := Verdict.ofRun_eq_accept_iff.1 h
  have hrest' := (halike.beginsDelimited (beginsDelimited_of_raw hlast h)).rawRun_eq_zero
  refine Verdict.ofRun_eq_accept_iff.2 ⟨?_, hpos⟩
  rw [rawRun_append_of_eq hrun hlast, hrest', Nat.add_zero]

theorem recuts_of_mem_table : ∀ rule ∈ table, rule.Recuts := by
  simp [table, stop_recuts, literal_recuts, whitespace_recuts, unbracedParameter_recuts,
    statementEnd_recuts, globCharset_recuts, singleQuoted_recuts, assignmentLhs_recuts,
    raw_recuts]

/-! ### Precedence in front of another rest -/

theorem literal_pass_iff {characters text : List Char} (hne : characters ≠ []) :
    (literal kind characters).scan text = .pass ↔ ¬ characters <+: text := by
  obtain ⟨c, characters, rfl⟩ := List.exists_cons_of_ne_nil hne
  simp [literal, Verdict.ofRun]

/-- A mark that is one character longer than what is accepted does not get there by the layout. -/
theorem literal_pass_of_startsAlike {characters : List Char} (hne : characters ≠ [])
    (hlength : characters.length ≤ chars.length + 1) (hlayout : ∀ c ∈ layoutChars, c ∉ characters)
    (halike : StartsAlike rest rest') (h : (literal kind characters).scan (chars ++ rest) = .pass) :
    (literal kind characters).scan (chars ++ rest') = .pass := by
  rw [literal_pass_iff hne] at h ⊢
  intro hprefix
  rcases List.prefix_or_prefix_of_prefix hprefix (List.prefix_append chars rest') with hin | hin
  · exact h (hin.trans (List.prefix_append chars rest))
  obtain ⟨tail, rfl⟩ := hin
  rw [List.prefix_append_right_inj] at hprefix h
  rcases tail with - | ⟨d, - | ⟨e, tail⟩⟩
  · exact h List.nil_prefix
  · -- the character behind is in the rest that the rule passed on, or in the layout
    have hhead : rest'.head? = some d := by
      obtain ⟨more, rfl⟩ := hprefix
      rfl
    rcases halike d hhead with hrest | hlayoutChar
    · obtain ⟨more, rfl⟩ : ∃ more, rest = d :: more := by cases rest <;> simp_all
      exact h (by simp)
    · exact hlayout d hlayoutChar (by simp)
  · simp at hlength

theorem assignmentLhs_pass_of_beginsDelimited (hdelimited : BeginsDelimited rest')
    (h : assignmentLhs.scan (chars ++ rest) = .pass) :
    assignmentLhs.scan (chars ++ rest') = .pass := by
  have hequals : rest'.head? ≠ some '=' := fun hhead =>
    absurd (hdelimited '=' hhead) (by decide)
  by_contra hcontends
  obtain ⟨name, more, hname, hchars⟩ := exists_isName_of_scan hcontends
  rcases List.append_eq_append_iff.1 hchars with ⟨middle, rfl, rfl⟩ | ⟨middle, rfl, hmiddle⟩
  · cases middle with
    | nil => simp at hequals
    | cons d middle =>
      have hd := isNameChar_eq_false d (by simpa [isDelimiter] using Or.inr (hdelimited d rfl))
      simp [hname.2 d (by simp)] at hd
  · cases middle with
    | nil =>
      rw [List.nil_append] at hmiddle
      exact hequals (hmiddle ▸ rfl)
    | cons d middle =>
      obtain ⟨rfl, -⟩ := List.cons.inj hmiddle
      rw [List.append_assoc, List.cons_append, scan_assignmentLhs hname] at h
      simp at h

/-- What begins as plain text begins with no blank in front of another rest either. -/
theorem whitespace_pass_of_raw (hne : chars ≠ [])
    (hlast : rest ≠ [] ∨ chars.getLast? ≠ some '\\')
    (hraw : raw.scan (chars ++ rest) = .accept chars.length)
    (h : whitespace.scan (chars ++ rest) = .pass) : whitespace.scan (chars ++ rest') = .pass := by
  have hpass {text : List Char} : whitespace.scan text = .pass ↔ blankRun text = 0 := by
    simp only [whitespace]
    cases blankRun text <;> simp [Verdict.ofRun]
  obtain ⟨hrun, -⟩ := Verdict.ofRun_eq_accept_iff.1 hraw
  rw [hpass] at h ⊢
  rcases chars with - | ⟨c, - | ⟨d, chars⟩⟩
  · exact absurd rfl hne
  · -- a backslash would have taken the next character with it
    have hc : c ≠ '\\' := by
      rintro rfl
      cases rest with
      | nil => simp at hlast
      | cons d rest => simp [rawRun] at hrun
    exact blankRun_cons_eq_zero_iff.2
      ⟨(blankRun_cons_eq_zero_iff.1 h).1, fun hbackslash => absurd hbackslash hc⟩
  · have h := blankRun_cons_eq_zero_iff.1 h
    exact blankRun_cons_eq_zero_iff.2 h

/-- A rule that has precedence over another one passes in front of another rest too. -/
theorem pass_of_startsAlike (hother : other ∈ table) (hmem : rule ∈ table)
    (hpair : (other.kind, rule.kind) ∈ precedences) (hne : chars ≠ [])
    (halike : StartsAlike rest rest') (hlast : rest ≠ [] ∨ chars.getLast? ≠ some '\\')
    (haccept : rule.scan (chars ++ rest) = .accept chars.length)
    (h : other.scan (chars ++ rest) = .pass) : other.scan (chars ++ rest') = .pass := by
  have hmark (characters characters' : List Char) (hother' : literal other.kind characters ∈ table)
      (hmem' : literal rule.kind characters' ∈ table) (hne : characters ≠ [])
      (hlength : characters.length ≤ characters'.length + 1)
      (hlayout : ∀ c ∈ layoutChars, c ∉ characters) : other.scan (chars ++ rest') = .pass := by
    rw [eq_of_kind_eq hmem hmem' rfl] at haccept
    rw [eq_of_kind_eq hother hother' rfl] at h ⊢
    exact literal_pass_of_startsAlike hne (literal_accept haccept ▸ hlength) hlayout halike h
  simp only [precedences, List.mem_cons, Prod.mk.injEq, List.not_mem_nil, or_false] at hpair
  rcases hpair with ⟨hkind, hkind'⟩ | ⟨hkind, hkind'⟩ | ⟨hkind, hkind'⟩ | ⟨hkind, hkind'⟩ |
    ⟨hkind, hkind'⟩ | ⟨hkind, hkind'⟩
  · exact hmark ['$', '(', '('] ['$', '('] (by simp [hkind, table]) (by simp [hkind', table])
      (by simp) (by simp) (by simp [layoutChars])
  · exact hmark ['&', '&'] ['&'] (by simp [hkind, table]) (by simp [hkind', table])
      (by simp) (by simp) (by simp [layoutChars])
  · exact hmark ['|', '|'] ['|'] (by simp [hkind, table]) (by simp [hkind', table])
      (by simp) (by simp) (by simp [layoutChars])
  · exact hmark ['>', '>'] ['>'] (by simp [hkind, table]) (by simp [hkind', table])
      (by simp) (by simp) (by simp [layoutChars])
  · obtain rfl : other = assignmentLhs := eq_of_kind_eq hother (by simp [table]) hkind
    obtain rfl : rule = raw := eq_of_kind_eq hmem (by simp [table]) hkind'
    exact assignmentLhs_pass_of_beginsDelimited
      (halike.beginsDelimited (beginsDelimited_of_raw hlast haccept)) h
  · obtain rfl : other = whitespace := eq_of_kind_eq hother (by simp [table]) hkind
    obtain rfl : rule = raw := eq_of_kind_eq hmem (by simp [table]) hkind'
    exact whitespace_pass_of_raw hne hlast haccept h

end Rule

/-! ### Lexemes in front of another rest -/

/-- A lexeme is read where its rule accepts it and no rule that has precedence applies. -/
theorem accept_of_read_eq_ok {position : Nat} {text : List Char} {lexeme : Lexeme}
    (h : Lexeme.read position text = .ok lexeme) :
    ∃ rule ∈ Rule.table, rule.kind = lexeme.kind ∧
      rule.scan text = .accept lexeme.text.length ∧
      ∀ other ∈ Rule.table, (other.kind, lexeme.kind) ∈ Rule.precedences →
        other.scan text = .pass := by
  simp only [Lexeme.read] at h
  split at h
  · rename_i kind n hfirst
    obtain rfl := Except.ok.inj h
    obtain ⟨rule, hmem, hkind, hscan⟩ := Rule.mem_of_firstToken_eq_ok hfirst
    refine ⟨rule, hmem, hkind, ?_, fun other => Rule.pass_of_firstToken hfirst⟩
    rw [List.length_take_of_le (Rule.fits_of_mem_table rule hmem hscan).1, hscan]
  · simp at h

theorem cuts_of_accept (hne : chars ≠ []) (hmem : rule ∈ Rule.table)
    (haccept : rule.scan (chars ++ rest) = .accept chars.length)
    (hfirst : ∀ other ∈ Rule.table, (other.kind, rule.kind) ∈ Rule.precedences →
      other.scan (chars ++ rest) = .pass) : Cuts rule.kind chars rest := by
  refine ⟨hne, fun position => ?_⟩
  rw [Lexeme.read, Rule.firstToken_of_accept hmem haccept hfirst]
  simp

/-- What is read is cut off from what is left. -/
theorem cuts_of_read {position : Nat} {text : List Char} {lexeme : Lexeme} (htext : text ≠ [])
    (h : Lexeme.read position text = .ok lexeme) :
    Cuts lexeme.kind lexeme.text (text.drop lexeme.text.length) := by
  obtain ⟨rule, hmem, hkind, haccept, hfirst⟩ := accept_of_read_eq_ok h
  rw [← Lexeme.text_append_drop_of_read h] at haccept hfirst
  rw [← hkind] at hfirst ⊢
  exact cuts_of_accept (Lexeme.read_text_ne_nil htext h) hmem haccept hfirst

/-- Whitespace is spacing, and no blanks are behind it. -/
theorem Cuts.spacing (h : Cuts .whitespace chars rest) :
    Spacing chars ∧ Rule.blankRun rest = 0 := by
  obtain ⟨rule, hmem, hkind, haccept, -⟩ := accept_of_read_eq_ok (h.2 0)
  obtain rfl : rule = Rule.whitespace := Rule.eq_of_kind_eq hmem (by simp [Rule.table]) hkind
  obtain ⟨hrun, -⟩ := Verdict.ofRun_eq_accept_iff.1 haccept
  have hspacing := Rule.spacing_of_blankRun_append hrun
  rw [hspacing.blankRun_append] at hrun
  exact ⟨hspacing, by simpa using hrun⟩

/-- Behind whitespace there is none. -/
theorem Cuts.kind_ne_whitespace (h : Cuts kind chars rest)
    (hblank : Rule.blankRun (chars ++ rest) = 0) : kind ≠ .whitespace := by
  rintro rfl
  rw [h.spacing.1.blankRun_append] at hblank
  have := List.length_pos_iff.2 h.1
  omega

/-- A lexeme is cut off in front of any rest that begins like the one it is cut off from, unless
it ends in a backslash at the end. Blanks are cut off in front of anything but blanks. -/
theorem Cuts.of_startsAlike (h : Cuts kind chars rest) (halike : StartsAlike rest rest')
    (hlast : rest ≠ [] ∨ chars.getLast? ≠ some '\\')
    (hblank : kind = .whitespace → Rule.blankRun rest' = 0) : Cuts kind chars rest' := by
  obtain ⟨hne, hread⟩ := h
  obtain ⟨rule, hmem, rfl, haccept, hfirst⟩ := accept_of_read_eq_ok (hread 0)
  refine cuts_of_accept hne hmem ?_ fun other hother hpair => ?_
  · exact Rule.recuts_of_mem_table rule hmem hne halike hlast hblank haccept
  · exact Rule.pass_of_startsAlike hother hmem hpair hne halike hlast haccept
      (hfirst other hother hpair)

end CommandSyntax
