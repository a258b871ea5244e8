import CommandSyntax.Proofs.Token.Shape

/-!
# CommandSyntax.Proofs.Token.Cutting

**What the scanner cuts off the head of a text.** `Cuts kind chars rest` says that some
characters in front of a rest are read as a lexeme of a kind, wherever they stand.

Most marks are cut off whatever comes after them (`cuts_of_mem_marks`). Four are the
front of a longer mark, and blanks run on, so there it matters with what kind of lexeme
the rest begins (`Heads`). A text in single quotes is cut off as a whole when its quotes
and backslashes are escaped.
-/

namespace CommandSyntax

variable {position : Nat} {kind kind' : TokenKind} {text chars rest : List Char}

/-! ### Escaping -/

namespace Quoting

/-- The text to be written between single quotes. -/
def escape : List Char → List Char
  | [] => []
  | c :: text => if c = '\\' ∨ c = '\'' then '\\' :: c :: escape text else c :: escape text

/-- Escaped text means itself. -/
@[simp] theorem single_escape (text : List Char) : single (escape text) = text := by
  induction text with
  | nil => rfl
  | cons c text ih =>
    by_cases hc : c = '\\' ∨ c = '\''
    · rcases hc with rfl | rfl <;> simp [escape, single, ih]
    · have hstep : single (c :: escape text) = c :: single (escape text) := by
        rw [single] <;> simp_all
      rw [escape, if_neg hc, hstep, ih]

/-- A quote that is not escaped ends the escaped text. -/
theorem quotedRun_escape (text rest : List Char) :
    Rule.quotedRun (escape text ++ '\'' :: rest) = some ((escape text).length + 1) := by
  induction text with
  | nil => rfl
  | cons c text ih =>
    by_cases hc : c = '\\' ∨ c = '\''
    · simp [escape, hc, Rule.quotedRun, ih]
    · rw [escape, if_neg hc]
      have hstep : Rule.quotedRun (c :: (escape text ++ '\'' :: rest)) =
          (Rule.quotedRun (escape text ++ '\'' :: rest)).map (· + 1) := by
        rw [Rule.quotedRun] <;> simp_all
      simp [hstep, ih]

end Quoting

/-! ### The head of a text -/

/-- Characters in front of a rest are read as a lexeme of a kind. -/
def Cuts (kind : TokenKind) (chars rest : List Char) : Prop :=
  chars ≠ [] ∧ ∀ position, Lexeme.read position (chars ++ rest) = .ok ⟨kind, position, chars⟩

/-- A text begins with a lexeme of a kind, or it is empty and the kind is that of the end. -/
def Heads (kind : TokenKind) (text : List Char) : Prop :=
  ∀ position, ∃ chars, Lexeme.read position text = .ok ⟨kind, position, chars⟩

theorem Cuts.heads (h : Cuts kind chars rest) : Heads kind (chars ++ rest) :=
  fun position => ⟨chars, h.2 position⟩

theorem heads_nil : Heads .stop [] := fun _ => ⟨[], rfl⟩

theorem Cuts.ofText_eq (h : Cuts kind chars rest) (position : Nat) :
    TokenStream.ofText position (chars ++ rest) =
      .next ⟨kind, position, chars⟩ (.ofText (position + Text.width chars) rest) := by
  rw [TokenStream.ofText_of_read_eq_ok (by simp [h.1]) (h.2 position), List.drop_left]
  rfl

/-- The first rule that does not pass decides. -/
theorem firstToken_of_pass {before after : List Rule} {rule : Rule} {n : Nat}
    (hbefore : ∀ other ∈ before, other.scan text = .pass) (h : rule.scan text = .accept n) :
    Rule.firstToken (before ++ rule :: after) position text = .ok (rule.kind, n) := by
  induction before with
  | nil => simp [Rule.firstToken, h]
  | cons other before ih =>
    obtain ⟨hother, hbefore⟩ := List.forall_mem_cons.1 hbefore
    simp only [List.cons_append, Rule.firstToken, hother, ih hbefore]

theorem cuts_of_scan {rule : Rule} (before after : List Rule)
    (htable : Rule.table = before ++ rule :: after) (hne : chars ≠ [])
    (hbefore : ∀ other ∈ before, other.scan (chars ++ rest) = .pass)
    (h : rule.scan (chars ++ rest) = .accept chars.length) : Cuts rule.kind chars rest := by
  refine ⟨hne, fun position => ?_⟩
  rw [Lexeme.read, htable, firstToken_of_pass hbefore h]
  simp

/-- What begins with something else begins with no blank. -/
theorem Heads.blankRun_eq_zero (h : Heads kind text) (hkind : kind ≠ .whitespace) :
    Rule.blankRun text = 0 := by
  by_cases htext : text = []
  · simp [htext, Rule.blankRun]
  · obtain ⟨chars, hread⟩ := h 0
    simp only [Lexeme.read] at hread
    split at hread
    · rename_i kind' n hfirst
      obtain rfl := congrArg Lexeme.kind (Except.ok.inj hread)
      exact Rule.blankRun_eq_zero_of_firstToken htext hkind hfirst
    · simp at hread

/-! ### Marks -/

/-- The marks that are cut off whatever comes after them. -/
def marks : List (TokenKind × List Char) :=
  [(.startExpansion, ['$', '{']), (.statementEnd, [';']), (.appendRedirect, ['>', '>']),
    (.readRedirect, ['<']), (.rightBrace, ['}']), (.rightParen, [')']), (.doubleQuote, ['"']),
    (.globStar, ['*']), (.globOne, ['?'])]

theorem cuts_of_mem_marks (h : (kind, chars) ∈ marks) : Cuts kind chars rest := by
  have hcuts : ∀ mark ∈ marks, Cuts mark.1 mark.2 rest := by
    simp [marks, Cuts, Lexeme.read, Rule.firstToken, Rule.table, Rule.stop, Rule.whitespace,
      Rule.blankRun, isBlank, Verdict.ofRun, Rule.unbracedParameter, Rule.literal,
      Rule.statementEnd, isNameChar]
  exact hcuts _ h

/-- Separators and brackets that are tokens by themselves, whatever comes after them. -/
def singles : List (TokenKind × Char) :=
  [(.statementEnd, ';'), (.statementEnd, '\n'), (.leftParen, '('), (.rightParen, ')'),
    (.backtick, '\x60')]

theorem cuts_of_mem_singles {c : Char} (h : (kind, c) ∈ singles) : Cuts kind [c] rest := by
  have hcuts : ∀ mark ∈ singles, Cuts mark.1 [mark.2] rest := by
    simp [singles, Cuts, Lexeme.read, Rule.firstToken, Rule.table, Rule.stop, Rule.whitespace,
      Rule.blankRun, isBlank, Verdict.ofRun, Rule.unbracedParameter, Rule.literal,
      Rule.statementEnd]
  exact hcuts _ h

/-- The marks that are the front of a longer one, and the character that makes them longer. -/
def openMarks : List (TokenKind × List Char × Char) :=
  [(.startSubstitution, ['$', '('], '('), (.pipe, ['|'], '|'), (.background, ['&'], '&'),
    (.writeRedirect, ['>'], '>')]

theorem cuts_of_mem_openMarks {c : Char} (h : (kind, chars, c) ∈ openMarks)
    (hrest : rest.head? ≠ some c) : Cuts kind chars rest := by
  have hcuts : ∀ mark ∈ openMarks, (∀ d, rest.head? = some d → mark.2.2 ≠ d) →
      Cuts mark.1 mark.2.1 rest := by
    cases rest <;>
      simp +contextual [openMarks, Cuts, Lexeme.read, Rule.firstToken, Rule.table, Rule.stop,
        Rule.whitespace, Rule.blankRun, isBlank, Verdict.ofRun, Rule.unbracedParameter,
        Rule.literal, Rule.statementEnd, isNameChar]
  refine hcuts _ h fun d hd hc => hrest ?_
  rw [hd, ← hc]

/-- The kinds of lexemes that begin with a character that makes an open mark longer. -/
def longer : Char → List TokenKind
  | '(' => [.leftParen]
  | '|' => [.or, .pipe]
  | '&' => [.and, .background]
  | '>' => [.appendRedirect, .writeRedirect]
  | _ => TokenKind.all

theorem scan_of_notMem_longer {c : Char} :
    ∀ rule ∈ Rule.table, rule.kind ∉ longer c → rule.scan (c :: text) = .pass := by
  unfold longer
  split
  case h_5 => exact fun rule _ hkind => absurd (TokenKind.mem_all _) hkind
  all_goals
    simp [Rule.table, Rule.stop, Rule.whitespace, Rule.blankRun, isBlank, Verdict.ofRun,
      Rule.unbracedParameter, Rule.literal, Rule.statementEnd, Rule.globCharset,
      Rule.singleQuoted, Rule.assignmentLhs, Rule.nameRun, isNameChar, Rule.raw, Rule.rawRun,
      isDelimiter, delimiters]

theorem Heads.head?_ne {c : Char} (h : Heads kind text) (hkind : kind ∉ longer c) :
    text.head? ≠ some c := by
  intro hc
  obtain ⟨text, rfl⟩ : ∃ rest, text = c :: rest := by cases text <;> simp_all
  obtain ⟨chars, hread⟩ := h 0
  simp only [Lexeme.read] at hread
  split at hread
  · rename_i kind' n hfirst
    obtain rfl := congrArg Lexeme.kind (Except.ok.inj hread)
    obtain ⟨rule, hmem, rfl, hscan⟩ := Rule.mem_of_firstToken_eq_ok hfirst
    simp [scan_of_notMem_longer rule hmem hkind] at hscan
  · simp at hread

/-- An open mark is cut off in front of what begins with none of the kinds that could make it
longer. -/
theorem cuts_openMark (c : Char) {starts : List TokenKind} {first : TokenKind}
    (h : (kind, chars, c) ∈ openMarks) (hstarts : ∀ kind ∈ starts, kind ∉ longer c)
    (hfirst : first ∈ starts) (hheads : Heads first rest) : Cuts kind chars rest :=
  cuts_of_mem_openMarks h (hheads.head?_ne (hstarts first hfirst))

/-! ### Blanks, sets and quotes -/

theorem isBlank_iff {c : Char} : isBlank c = true ↔ c ∈ [' ', '\t', '\r', '\x0b'] := by
  simp [isBlank, or_assoc]

theorem isBlank_space : isBlank ' ' = true := rfl

theorem utf8Size_of_isBlank {c : Char} (h : isBlank c = true) : c.utf8Size = 1 := by
  simp only [isBlank_iff, List.mem_cons, List.not_mem_nil, or_false] at h
  rcases h with rfl | rfl | rfl | rfl <;> rfl

theorem isDelimiter_of_isBlank {c : Char} (h : isBlank c = true) : isDelimiter c = true := by
  simp only [isBlank_iff, List.mem_cons, List.not_mem_nil, or_false] at h
  rcases h with rfl | rfl | rfl | rfl <;> rfl

/-- A blank goes on with the blanks behind it. -/
theorem Rule.blankRun_cons_of_isBlank {c : Char} (hc : isBlank c = true) (text : List Char) :
    Rule.blankRun (c :: text) = Rule.blankRun text + 1 := by
  rw [Rule.blankRun]
  · simp [hc]
  · rintro tail rfl
    simp [isBlank] at hc

/-- One blank is cut off in front of anything but more blanks. -/
theorem cuts_blank {blank : Char} (hblank : isBlank blank = true) (hrest : Heads kind rest)
    (hkind : kind ≠ .whitespace) : Cuts .whitespace [blank] rest := by
  have hrun : Rule.blankRun ([blank] ++ rest) = 1 := by
    rw [List.singleton_append, Rule.blankRun_cons_of_isBlank hblank,
      hrest.blankRun_eq_zero hkind]
  refine cuts_of_scan [Rule.stop] (Rule.table.drop 2) rfl (by simp) (by simp [Rule.stop]) ?_
  exact Verdict.ofRun_eq_accept_iff.2 ⟨hrun, Nat.one_pos⟩

theorem cuts_globCharset {set : List Char} (h : ']' ∉ set) :
    Cuts .globCharset ('[' :: (set ++ [']'])) rest := by
  have hfind : (set ++ ']' :: rest).findIdx? (· == ']') = some set.length := by
    have hset : set.findIdx? (· == ']') = none := by
      rw [List.findIdx?_eq_none_iff]
      exact fun c hc => beq_eq_false_iff_ne.2 fun heq => h (heq ▸ hc)
    simp [List.findIdx?_append, hset, List.findIdx?_cons]
  refine cuts_of_scan (Rule.table.take 22) (Rule.table.drop 23) rfl (by simp) ?_ ?_
  · simp [Rule.table, Rule.stop, Rule.whitespace, Rule.blankRun, isBlank, Verdict.ofRun,
      Rule.unbracedParameter, Rule.literal, Rule.statementEnd]
  · simp [Rule.globCharset, hfind]

/-- An escaped text is cut off with the quotes around it. -/
theorem cuts_singleQuoted (text rest : List Char) :
    Cuts .singleQuoted ('\'' :: (Quoting.escape text ++ ['\''])) rest := by
  refine cuts_of_scan (Rule.table.take 23) (Rule.table.drop 24) rfl (by simp) ?_ ?_
  · simp [Rule.table, Rule.stop, Rule.whitespace, Rule.blankRun, isBlank, Verdict.ofRun,
      Rule.unbracedParameter, Rule.literal, Rule.statementEnd, Rule.globCharset]
  · simp [Rule.singleQuoted, Quoting.quotedRun_escape]

/-! ### Rules that look for one character -/

namespace Rule

variable {c : Char}

/-- A text that begins with no blank and no escaped newline has no blanks at its head. -/
theorem blankRun_cons_eq_zero_iff :
    blankRun (c :: text) = 0 ↔
      isBlank c = false ∧ (c = '\\' → text.head? ≠ some '\n') := by
  constructor
  · intro h
    refine ⟨by_contra fun hblank => ?_, fun hbackslash hhead => ?_⟩
    · rw [blankRun] at h
      · simp [hblank] at h
      · rintro tail rfl
        simp [isBlank] at hblank
    · obtain ⟨tail, rfl⟩ : ∃ tail, text = '\n' :: tail := by cases text <;> simp_all
      simp [hbackslash, blankRun] at h
  · intro h
    obtain ⟨hblank, hescape⟩ := h
    rw [blankRun]
    · simp [hblank]
    · rintro tail rfl rfl
      exact hescape rfl rfl

theorem blankRun_of_notMem_delimiters (hc : c ∉ delimiters)
    (hescape : c = '\\' → text.head? ≠ some '\n') : blankRun (c :: text) = 0 := by
  refine blankRun_cons_eq_zero_iff.2 ⟨?_, hescape⟩
  simp_all [isBlank, delimiters]

/-- A parameter begins with a dollar sign. -/
theorem scan_unbracedParameter_of_ne (hc : c ≠ '$') (text : List Char) :
    unbracedParameter.scan (c :: text) = .pass := by
  simp only [unbracedParameter]
  split <;> simp_all

/-- A set of characters begins with a bracket. -/
theorem scan_globCharset_of_ne (hc : c ≠ '[') (text : List Char) :
    globCharset.scan (c :: text) = .pass := by
  simp only [globCharset]
  split <;> simp_all

/-- Single quotes begin with one. -/
theorem scan_singleQuoted_of_ne (hc : c ≠ '\'') (text : List Char) :
    singleQuoted.scan (c :: text) = .pass := by
  simp only [singleQuoted]
  split <;> simp_all

end Rule

/-! ### Names -/

/-- A name has a character, and only such as may stand in a name. -/
def IsName (name : List Char) : Prop := name ≠ [] ∧ ∀ c ∈ name, isNameChar c = true

/-- No character that ends plain text may stand in a name, nor a backslash. -/
theorem isNameChar_eq_false : ∀ c ∈ '\\' :: delimiters, isNameChar c = false := by
  simp [delimiters, isNameChar]

/-- Only the last two rules look at a text that begins with no delimiter and no blanks. -/
theorem scan_of_notMem_delimiters {c : Char} (hc : c ∉ delimiters)
    (hblank : Rule.blankRun (c :: text) = 0) :
    ∀ rule ∈ Rule.table.take 24, rule.scan (c :: text) = .pass := by
  have hne : ∀ d ∈ delimiters, d ≠ c := fun d hd heq => hc (heq ▸ hd)
  have hne' : ∀ d ∈ delimiters, c ≠ d := fun d hd => (hne d hd).symm
  simp only [delimiters, List.forall_mem_cons, List.not_mem_nil, false_implies, implies_true]
    at hne hne'
  have hwhitespace : Rule.whitespace.scan (c :: text) = .pass := by
    simp [Rule.whitespace, hblank, Verdict.ofRun]
  have hend : Rule.statementEnd.scan (c :: text) = .pass := by
    simp [Rule.statementEnd, hne']
  simp [Rule.table, Rule.stop, Rule.literal, hwhitespace, hend, hne, hne',
    Rule.scan_unbracedParameter_of_ne, Rule.scan_globCharset_of_ne, Rule.scan_singleQuoted_of_ne]

/-- A character of a name is neither a backslash nor a delimiter. -/
theorem ne_of_isNameChar {c : Char} (hc : isNameChar c = true) :
    c ≠ '\\' ∧ c ∉ delimiters := by
  have hspecial : c ∉ '\\' :: delimiters := fun hmem => by
    simp [isNameChar_eq_false c hmem] at hc
  exact ⟨List.ne_of_not_mem_cons hspecial, List.not_mem_of_not_mem_cons hspecial⟩

/-- Only the last two rules look at a text that begins with a character of a name. -/
theorem scan_of_isNameChar {c : Char} (hc : isNameChar c = true) :
    ∀ rule ∈ Rule.table.take 24, rule.scan (c :: text) = .pass := by
  obtain ⟨hbackslash, hdelimiter⟩ := ne_of_isNameChar hc
  exact scan_of_notMem_delimiters hdelimiter
    (Rule.blankRun_of_notMem_delimiters hdelimiter fun h => absurd h hbackslash)

theorem nameRun_append {name rest : List Char} (h : ∀ c ∈ name, isNameChar c = true)
    (hrest : ∀ c, rest.head? = some c → isNameChar c = false) :
    Rule.nameRun (name ++ rest) = name.length := by
  have hstop : rest.takeWhile isNameChar = [] := by
    cases rest with
    | nil => rfl
    | cons c rest => simp [hrest c rfl]
  rw [Rule.nameRun, List.takeWhile_append_of_pos h, hstop, List.append_nil]

/-- A name with an equals sign is accepted whatever comes after it. -/
theorem scan_assignmentLhs {name : List Char} (h : IsName name) (rest : List Char) :
    Rule.assignmentLhs.scan (name ++ '=' :: rest) = .accept (name.length + 1) := by
  have hrun : Rule.nameRun (name ++ '=' :: rest) = name.length :=
    nameRun_append h.2 (by simp [isNameChar])
  simp [Rule.assignmentLhs, hrun, List.length_pos_iff.2 h.1]

theorem cuts_assignmentLhs {name : List Char} (h : IsName name) (rest : List Char) :
    Cuts .assignmentLhs (name ++ ['=']) rest := by
  have hscan := scan_assignmentLhs h rest
  obtain ⟨c, more, rfl⟩ := List.exists_cons_of_ne_nil h.1
  refine cuts_of_scan (Rule.table.take 24) [Rule.raw] rfl (by simp) ?_ ?_
  · exact scan_of_isNameChar (h.2 c (by simp))
  · simpa using hscan

theorem rawRun_append {name rest : List Char} (h : ∀ c ∈ name, isNameChar c = true)
    (hrest : Rule.rawRun rest = 0) : Rule.rawRun (name ++ rest) = name.length := by
  induction name with
  | nil => exact hrest
  | cons c name ih =>
    obtain ⟨hc, hname⟩ := List.forall_mem_cons.1 h
    obtain ⟨hbackslash, hdelimiter⟩ := ne_of_isNameChar hc
    have hplain : isDelimiter c = false := by simpa [isDelimiter] using hdelimiter
    have hstep : Rule.rawRun (c :: (name ++ rest)) = Rule.rawRun (name ++ rest) + 1 := by
      rw [Rule.rawRun] <;> simp_all
    simp [hstep, ih hname]

/-- A text that ends at once, or begins with a delimiter. -/
def BeginsDelimited (text : List Char) : Prop :=
  ∀ c, text.head? = some c → isDelimiter c = true

theorem beginsDelimited_cons {c : Char} (hc : isDelimiter c = true) :
    BeginsDelimited (c :: text) := by
  intro d hd
  rwa [← Option.some.inj hd]

theorem BeginsDelimited.rawRun_eq_zero (h : BeginsDelimited text) : Rule.rawRun text = 0 := by
  cases text with
  | nil => rfl
  | cons c text =>
    have hc := h c rfl
    rw [Rule.rawRun]
    · simp [hc]
    · rintro d text rfl
      exact absurd hc (by decide)

/-- A name is plain text in front of a delimiter and at the end. -/
theorem cuts_raw {name : List Char} (h : IsName name) (hrest : BeginsDelimited rest) :
    Cuts .raw name rest := by
  obtain ⟨c, more, rfl⟩ := List.exists_cons_of_ne_nil h.1
  have hdelimited {d : Char} (hd : rest.head? = some d) : d ∈ delimiters := by
    simpa [isDelimiter] using hrest d hd
  have hrun : Rule.nameRun (c :: more ++ rest) = (c :: more).length :=
    nameRun_append h.2 fun d hd =>
      isNameChar_eq_false d (List.mem_cons_of_mem _ (hdelimited hd))
  refine cuts_of_scan (Rule.table.take 25) [] rfl (by simp) ?_ ?_
  · have hassign : Rule.assignmentLhs.scan (c :: more ++ rest) = .pass := by
      have hequals : rest.head? ≠ some '=' := fun hd => absurd (hdelimited hd) (by decide)
      simp only [Rule.assignmentLhs, hrun, List.drop_left]
      exact if_neg fun h => hequals h.2
    have htake : Rule.table.take 25 = Rule.table.take 24 ++ [Rule.assignmentLhs] := rfl
    rw [htake]
    exact List.forall_mem_append.2 ⟨scan_of_isNameChar (h.2 c (by simp)), by simpa using hassign⟩
  · simp only [Rule.raw, rawRun_append h.2 hrest.rawRun_eq_zero]
    simp [Verdict.ofRun]

end CommandSyntax
