import CommandSyntax.Proofs.Token.Cutting
import CommandSyntax.Proofs.Token.Moving

/-!
# CommandSyntax.Proofs.Token.Settling

**Text behind a token.** The scan rules look past the token that they accept, but not
far: two bytes of what follows settle it, and so does the end of the text when a character
of `breaks` comes next (`Settled`). A token that is settled is read again when there is more
text behind (`Lexeme.read_append`).

A text that can be scanned to its end, and does not end in a backslash, is scanned in the
same way in front of a break (`TokenStream.ofText_append`).
-/

namespace CommandSyntax

variable {n m position : Nat} {text more : List Char}

/-! ### Settled text -/

/-- Characters that end every token before them and make none longer. -/
def breaks : List Char := [';', '\n', ')', '\x60']

/-- What a text does not end in, what is left of it does not end in. -/
theorem getLast?_ne_of_cons {c d : Char} (h : (c :: text).getLast? ≠ some d) :
    text.getLast? ≠ some d := by
  cases text with
  | nil => simp
  | cons e text => rwa [List.getLast?_cons_cons] at h

/-- What the first characters of a text are read as does not depend on the text behind it. -/
inductive Settled (n : Nat) (text more : List Char) : Prop
  /-- Two bytes of the text are left after them. -/
  | ahead (h : 2 ≤ Text.width (text.drop n))
  /-- What comes behind begins with a break, which the text does not escape. -/
  | broken {c : Char} {rest : List Char} (hc : c ∈ breaks) (hmore : more = c :: rest)
      (hlast : text.getLast? ≠ some '\\')

namespace Settled

theorem tail {c : Char} (h : Settled (n + 1) (c :: text) more) : Settled n text more := by
  cases h with
  | ahead h => exact .ahead (by simpa using h)
  | broken hc hmore hlast => exact .broken hc hmore (getLast?_ne_of_cons hlast)

theorem mono (h : Settled n text more) (hle : m ≤ n) : Settled m text more := by
  cases h with
  | ahead h =>
    refine .ahead (Nat.le_trans h ?_)
    have hdrop : text.drop n = (text.drop m).drop (n - m) := by
      rw [List.drop_drop, Nat.add_sub_cancel' hle]
    have := Text.width_take_add_drop (n - m) (text.drop m)
    rw [hdrop]
    omega
  | broken hc hmore hlast => exact .broken hc hmore hlast

/-- At the end of the text only a break can follow. -/
theorem exists_break (h : Settled n [] more) : ∃ c ∈ breaks, ∃ rest, more = c :: rest := by
  cases h with
  | ahead h => simp at h
  | broken hc hmore _ => exact ⟨_, hc, _, hmore⟩

/-- A backslash that nothing follows is not settled. -/
theorem ne_backslash (h : Settled n ['\\'] more) : False := by
  cases h with
  | ahead h =>
    have hle := Text.width_take_add_drop n ['\\']
    have hwidth : Text.width ['\\'] = 1 := rfl
    omega
  | broken _ _ hlast => exact hlast rfl

end Settled

theorem eq_of_mem_breaks {c : Char} (h : c ∈ breaks) :
    c = ';' ∨ c = '\n' ∨ c = ')' ∨ c = '\x60' := by
  simpa [breaks] using h

theorem isNameChar_of_mem_breaks {c : Char} (h : c ∈ breaks) : isNameChar c = false := by
  rcases eq_of_mem_breaks h with rfl | rfl | rfl | rfl <;> rfl

namespace Rule

/-! ### Runs in front of more text -/

theorem rawRun_of_break {c : Char} (hc : c ∈ breaks) : rawRun (c :: text) = 0 := by
  rcases eq_of_mem_breaks hc with rfl | rfl | rfl | rfl <;>
    simp [rawRun, isDelimiter, delimiters]

theorem blankRun_of_break {c : Char} (hc : c ∈ breaks) : blankRun (c :: text) = 0 := by
  rcases eq_of_mem_breaks hc with rfl | rfl | rfl | rfl <;> simp [blankRun, isBlank]

theorem rawRun_settled (h : Settled (rawRun text) text more) :
    rawRun (text ++ more) = rawRun text := by
  fun_induction rawRun text with
  | case1 c text ih =>
    rw [List.cons_append, List.cons_append, rawRun, ih h.tail.tail]
  | case2 c text hescape hdelimiter =>
    have hc : c ≠ '\\' := by
      rintro rfl
      simp [isDelimiter, delimiters] at hdelimiter
    rw [List.cons_append, rawRun]
    · simp [hdelimiter]
    · exact fun _ _ heq => absurd heq hc
  | case3 c text hescape hdelimiter ih =>
    -- a backslash would be the last character
    have hc : c ≠ '\\' := by
      rintro rfl
      cases text with
      | nil => exact h.ne_backslash
      | cons d text => exact hescape d text rfl rfl
    rw [List.cons_append, rawRun]
    · simp [hdelimiter, ih h.tail]
    · exact fun _ _ heq => absurd heq hc
  | case4 =>
    obtain ⟨c, hc, rest, rfl⟩ := h.exists_break
    exact rawRun_of_break hc

theorem blankRun_settled (h : Settled (blankRun text) text more) :
    blankRun (text ++ more) = blankRun text := by
  fun_induction blankRun text with
  | case1 text ih => rw [List.cons_append, List.cons_append, blankRun, ih h.tail.tail]
  | case2 c text hescape hblank ih =>
    have hc : c ≠ '\\' := by
      rintro rfl
      simp [isBlank] at hblank
    rw [List.cons_append, blankRun]
    · simp [hblank, ih h.tail]
    · exact fun _ heq => absurd heq hc
  | case3 c text hescape hblank =>
    rw [List.cons_append, blankRun]
    · simp [hblank]
    · rintro rest rfl hrest
      cases text with
      | nil => exact h.ne_backslash
      | cons d text => exact hescape text rfl (by simp_all)
  | case4 =>
    obtain ⟨c, hc, rest, rfl⟩ := h.exists_break
    exact blankRun_of_break hc

theorem nameRun_cons (c : Char) (text : List Char) :
    nameRun (c :: text) = if isNameChar c then nameRun text + 1 else 0 := by
  unfold nameRun
  rw [List.takeWhile_cons]
  split <;> rfl

theorem nameRun_settled (h : Settled (nameRun text) text more) :
    nameRun (text ++ more) = nameRun text := by
  induction text with
  | nil =>
    obtain ⟨c, hc, rest, rfl⟩ := h.exists_break
    rw [List.nil_append, nameRun_cons, isNameChar_of_mem_breaks hc]
    rfl
  | cons c text ih =>
    rw [List.cons_append, nameRun_cons, nameRun_cons]
    by_cases hc : isNameChar c = true
    · rw [nameRun_cons, if_pos hc] at h
      rw [if_pos hc, if_pos hc, ih h.tail]
    · rw [if_neg hc, if_neg hc]

theorem nameRun_le_rawRun (text : List Char) : nameRun text ≤ rawRun text := by
  induction text with
  | nil => exact Nat.le_refl 0
  | cons c text ih =>
    rw [nameRun_cons]
    by_cases hc : isNameChar c = true
    · have hspecial : c ∉ '\\' :: delimiters := fun hmem => by
        simp [isNameChar_eq_false c hmem] at hc
      have hplain : isDelimiter c = false := by
        simpa [isDelimiter] using List.not_mem_of_not_mem_cons hspecial
      have hstep : rawRun (c :: text) = rawRun text + 1 := by
        rw [rawRun]
        · simp [hplain]
        · exact fun _ _ heq => absurd heq (List.ne_of_not_mem_cons hspecial)
      rw [if_pos hc, hstep]
      omega
    · simp [hc]

/-- A quote that is closed stays so. -/
theorem quotedRun_append (h : quotedRun text = some n) :
    quotedRun (text ++ more) = some n := by
  fun_induction quotedRun text generalizing n with
  | case1 text => simpa [quotedRun] using h
  | case2 c text ih =>
    obtain ⟨run, hrun, rfl⟩ := Option.map_eq_some_iff.1 h
    simp [quotedRun, ih hrun]
  | case3 c text hquote hescape ih =>
    obtain ⟨run, hrun, rfl⟩ := Option.map_eq_some_iff.1 h
    have hc : c ≠ '\\' := by
      rintro rfl
      cases text with
      | nil => simp [quotedRun] at hrun
      | cons d text => exact hescape d text rfl rfl
    rw [List.cons_append, quotedRun, ih hrun]
    · rfl
    · exact hquote
    · exact fun _ _ heq => absurd heq hc
  | case4 => simp at h

/-! ### Rules in front of more text -/

/-- More text behind what is settled does not change what a rule makes of a text. -/
def Steady (rule : Rule) : Prop :=
  ∀ ⦃text more n⦄, text ≠ [] → 0 < n → nameRun text ≤ n → Settled n text more →
    (rule.scan text = .pass ∨ rule.scan text = .accept n) →
    rule.scan (text ++ more) = rule.scan text

theorem stop_steady : stop.Steady := by
  intro text more n htext hpos hname hsettled hscan
  cases text with
  | nil => exact absurd rfl htext
  | cons c text => rfl

/-- A rule that accepts runs is steady when the runs are. -/
theorem ofRun_steady {kind : TokenKind} {run : List Char → Nat}
    (h : ∀ {text more}, Settled (run text) text more → run (text ++ more) = run text) :
    Steady ⟨kind, fun text => .ofRun (run text)⟩ := by
  intro text more n htext hpos hname hsettled hscan
  have hle : run text ≤ n := by
    rcases hscan with hpass | haccept
    · cases hrun : run text with
      | zero => exact Nat.zero_le n
      | succ length => simp [hrun, Verdict.ofRun] at hpass
    · exact Nat.le_of_eq (Verdict.ofRun_eq_accept_iff.1 haccept).1
  simp only [h (hsettled.mono hle)]

/-- A rule that accepts given characters is steady when there are at most three, all of one
byte, and only the first of them can be a break. -/
theorem literal_steady (kind : TokenKind) {characters : List Char}
    (hlength : characters.length ≤ 3) (hsize : characters.all (·.utf8Size == 1) = true)
    (htail : characters.tail.all (· ∉ breaks) = true) : (literal kind characters).Steady := by
  intro text more n htext hpos hname hsettled hscan
  simp only [List.all_eq_true, beq_iff_eq, decide_eq_true_eq] at hsize htail
  have hiff : characters.isPrefixOf (text ++ more) = characters.isPrefixOf text := by
    rw [Bool.eq_iff_iff, List.isPrefixOf_iff_prefix, List.isPrefixOf_iff_prefix]
    refine ⟨fun hprefix => ?_, fun hprefix => hprefix.trans (List.prefix_append text more)⟩
    -- otherwise the text itself would be the front of the characters
    rcases List.prefix_or_prefix_of_prefix hprefix (List.prefix_append text more) with h | h
    · exact h
    obtain ⟨rest, rfl⟩ := h
    cases rest with
    | nil => simp
    | cons d rest =>
      obtain ⟨c, text, rfl⟩ := List.exists_cons_of_ne_nil htext
      cases hsettled with
      | ahead h =>
        have hwidth : Text.width ((c :: text).drop n) = ((c :: text).drop n).length := by
          have hall : ∀ e ∈ (c :: text).drop n, e.utf8Size = 1 := fun e he =>
            hsize e (List.mem_append_left _ (List.mem_of_mem_drop he))
          generalize (c :: text).drop n = dropped at hall
          induction dropped with
          | nil => rfl
          | cons e dropped ih =>
            obtain ⟨he, hdropped⟩ := List.forall_mem_cons.1 hall
            simp [he, ih hdropped, Nat.add_comm]
        simp only [hwidth, List.length_drop, List.length_append, List.length_cons] at h hlength
        omega
      | broken hbreak hmore _ =>
        have hrest := (List.prefix_append_right_inj (c :: text)).1 hprefix
        rw [hmore, List.cons_prefix_cons] at hrest
        exact absurd (hrest.1 ▸ hbreak) (htail d (by simp))
  simp only [literal, hiff]

theorem unbracedParameter_steady : unbracedParameter.Steady := by
  intro text more n htext hpos hname hsettled hscan
  obtain ⟨d, text, rfl⟩ := List.exists_cons_of_ne_nil htext
  by_cases hd : d = '$'
  · subst hd
    cases text with
    | nil =>
      obtain ⟨c, hc, rest, rfl⟩ := (hsettled.mono hpos).tail.exists_break
      rcases eq_of_mem_breaks hc with rfl | rfl | rfl | rfl <;> rfl
    | cons c text =>
      simp only [List.cons_append, unbracedParameter] at hscan ⊢
      by_cases hc : c = '?' ∨ c.isDigit = true
      · simp only [if_pos hc]
      · by_cases hname : isNameChar c = true
        · simp only [if_neg hc, if_pos hname, reduceCtorEq, false_or,
            Verdict.accept.injEq] at hscan
          subst hscan
          simp only [if_neg hc, nameRun_settled hsettled.tail.tail]
        · simp only [if_neg hc, if_neg hname]
  · rw [List.cons_append, scan_unbracedParameter_of_ne hd, scan_unbracedParameter_of_ne hd]

theorem statementEnd_steady : statementEnd.Steady := by
  intro text more n htext hpos hname hsettled hscan
  obtain ⟨c, text, rfl⟩ := List.exists_cons_of_ne_nil htext
  rfl

theorem globCharset_steady : globCharset.Steady := by
  intro text more n htext hpos hname hsettled hscan
  obtain ⟨c, text, rfl⟩ := List.exists_cons_of_ne_nil htext
  by_cases hc : c = '['
  · subst hc
    simp only [List.cons_append, globCharset] at hscan ⊢
    cases hfind : text.findIdx? (· == ']') with
    | none => simp [hfind] at hscan
    | some inside => simp [List.findIdx?_append, hfind]
  · rw [List.cons_append, scan_globCharset_of_ne hc, scan_globCharset_of_ne hc]

theorem singleQuoted_steady : singleQuoted.Steady := by
  intro text more n htext hpos hname hsettled hscan
  obtain ⟨c, text, rfl⟩ := List.exists_cons_of_ne_nil htext
  by_cases hc : c = '\''
  · subst hc
    simp only [List.cons_append, singleQuoted] at hscan ⊢
    cases hrun : quotedRun text with
    | none => simp [hrun] at hscan
    | some run => simp [quotedRun_append hrun]
  · rw [List.cons_append, scan_singleQuoted_of_ne hc, scan_singleQuoted_of_ne hc]

theorem assignmentLhs_steady : assignmentLhs.Steady := by
  intro text more n htext hpos hname hsettled hscan
  have hsettled' := hsettled.mono hname
  have hhead : ((text ++ more).drop (nameRun text)).head? = some '=' ↔
      (text.drop (nameRun text)).head? = some '=' := by
    rw [List.drop_append_of_le_length (nameRun_le text)]
    cases hdrop : text.drop (nameRun text) with
    | cons c rest => rfl
    | nil =>
      cases hsettled' with
      | ahead h => simp [hdrop] at h
      | broken hc hmore _ =>
        subst hmore
        rcases eq_of_mem_breaks hc with rfl | rfl | rfl | rfl <;> simp
  simp only [assignmentLhs, nameRun_settled hsettled', hhead]

theorem steady_of_mem_table : ∀ rule ∈ table, rule.Steady := by
  simp (disch := decide) [table, literal_steady, stop_steady, ofRun_steady blankRun_settled,
    ofRun_steady rawRun_settled, unbracedParameter_steady, statementEnd_steady,
    globCharset_steady, singleQuoted_steady, assignmentLhs_steady, whitespace, raw]

/-- The rule that decides on a text decides in the same way when there is more text. -/
theorem firstToken_append {rules : List Rule} {kind : TokenKind}
    (hrules : ∀ rule ∈ rules, rule.Steady) (htext : text ≠ []) (hpos : 0 < n)
    (hname : nameRun text ≤ n) (hsettled : Settled n text more)
    (h : firstToken rules position text = .ok (kind, n)) :
    firstToken rules position (text ++ more) = .ok (kind, n) := by
  induction rules with
  | nil => simp [firstToken] at h
  | cons rule rules ih =>
    obtain ⟨hrule, hrules⟩ := List.forall_mem_cons.1 hrules
    have hsteady := hrule htext hpos hname hsettled
    simp only [firstToken] at h ⊢
    cases hscan : rule.scan text with
    | pass =>
      rw [hscan] at h
      rw [hsteady (.inl hscan), hscan]
      exact ih hrules h
    | accept length =>
      simp only [hscan, Except.ok.injEq, Prod.mk.injEq] at h
      obtain ⟨rfl, rfl⟩ := h
      rw [hsteady (.inr hscan), hscan]
    | reject opening => simp [hscan] at h

theorem firstToken_append_of_pass {before after : List Rule}
    (h : ∀ rule ∈ before, rule.scan text = .pass) :
    firstToken (before ++ after) position text = firstToken after position text := by
  induction before with
  | nil => rfl
  | cons rule before ih =>
    obtain ⟨hrule, hbefore⟩ := List.forall_mem_cons.1 h
    simp only [List.cons_append, firstToken, hrule, ih hbefore]

/-- The token at the head of a text holds the name that the text begins with. -/
theorem nameRun_le_of_firstToken {kind : TokenKind}
    (h : firstToken table position text = .ok (kind, n)) : nameRun text ≤ n := by
  cases text with
  | nil => exact Nat.zero_le n
  | cons c text =>
    by_cases hc : isNameChar c = true
    · -- then the rule is one of the last two
      have hsplit : table = table.take 24 ++ [assignmentLhs, raw] := rfl
      rw [hsplit, firstToken_append_of_pass (scan_of_isNameChar hc)] at h
      obtain ⟨rule, hmem, -, hscan⟩ := mem_of_firstToken_eq_ok h
      simp only [List.mem_cons, List.not_mem_nil, or_false] at hmem
      rcases hmem with rfl | rfl
      · simp only [assignmentLhs] at hscan
        split at hscan
        · have := Verdict.accept.inj hscan
          omega
        · simp at hscan
      · obtain ⟨rfl, -⟩ := Verdict.ofRun_eq_accept_iff.1 hscan
        exact nameRun_le_rawRun _
    · simp [nameRun_cons, hc]

end Rule

namespace Lexeme

variable {lexeme : Lexeme}

/-- What is read at the head of a text is read again when it is settled. -/
theorem read_append (htext : text ≠ []) (h : read position text = .ok lexeme)
    (hsettled : Settled lexeme.text.length text more) :
    read position (text ++ more) = .ok lexeme := by
  simp only [read] at h ⊢
  split at h
  · rename_i kind n hfirst
    obtain ⟨rule, hmem, -, hscan⟩ := Rule.mem_of_firstToken_eq_ok hfirst
    obtain ⟨hle, hpos⟩ := Rule.fits_of_mem_table rule hmem hscan
    obtain rfl := Except.ok.inj h
    rw [List.length_take, Nat.min_eq_left hle] at hsettled
    rw [Rule.firstToken_append Rule.steady_of_mem_table htext (hpos htext)
      (Rule.nameRun_le_of_firstToken hfirst) hsettled hfirst]
    simp [List.take_append_of_le_length hle]
  · simp at h

end Lexeme

/-! ### Streams -/

/-- What is read and what is left are as wide as the text. -/
theorem Lexeme.stop_add_width_drop {lexeme : Lexeme} (h : read position text = .ok lexeme) :
    lexeme.stop + Text.width (text.drop lexeme.text.length) = position + Text.width text := by
  have hwidth := congrArg Text.width (text_append_drop_of_read h)
  rw [Text.width_append] at hwidth
  simp only [stop, read_start h]
  omega

/-- A text that can be scanned to its end, and does not end in a backslash, is scanned in the
same way in front of a break; and what comes after it is scanned as if it stood alone. -/
theorem TokenStream.ofText_append {tokens : List Token} {c : Char} {rest : List Char}
    (h : (ofText position text).tokens = .ok tokens) (hlast : text.getLast? ≠ some '\\')
    (hc : c ∈ breaks) :
    ofText position (text ++ c :: rest) =
      (ofText position text).glue (ofText (position + Text.width text) (c :: rest)) := by
  fun_induction ofText position text generalizing tokens with
  | case1 position => simp [glue]
  | case2 position text htext error hread => simp [TokenStream.tokens] at h
  | case3 position text htext lexeme hread ih =>
    have hread' : Lexeme.read position (text ++ c :: rest) = .ok lexeme :=
      Lexeme.read_append htext hread (.broken hc rfl hlast)
    have hle : lexeme.text.length ≤ text.length := by
      have := congrArg List.length (Lexeme.text_append_drop_of_read hread)
      rw [List.length_append] at this
      omega
    have hlast' : (text.drop lexeme.text.length).getLast? ≠ some '\\' := by
      rw [List.getLast?_drop]
      split
      · simp
      · exact hlast
    simp only [TokenStream.tokens] at h
    split at h
    · rename_i tokens' htokens
      rw [ofText_of_read_eq_ok (by simp) hread', List.drop_append_of_le_length hle,
        ih htokens hlast', glue, Lexeme.stop_add_width_drop hread]
    · simp at h

/-- So is a text that stands some bytes further on. -/
theorem TokenStream.ofText_append_shift {tokens : List Token} {c : Char} {rest : List Char}
    (h : (ofText 0 text).tokens = .ok tokens) (hlast : text.getLast? ≠ some '\\')
    (hc : c ∈ breaks) :
    ofText n (text ++ c :: rest) =
      ((ofText 0 text).shift n).glue (ofText (Text.width text + n) (c :: rest)) := by
  have hshift : ofText n (text ++ c :: rest) = (ofText 0 (text ++ c :: rest)).shift n := by
    rw [← ofText_shift, Nat.zero_add]
  rw [hshift, ofText_append h hlast hc, shift_glue, Nat.zero_add, ofText_shift]

end CommandSyntax
