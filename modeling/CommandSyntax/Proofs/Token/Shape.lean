import CommandSyntax.Grammar.Word
import CommandSyntax.Proofs.Token.Tiling

/-!
# CommandSyntax.Proofs.Token.Shape

**What lexemes of a kind look like.** The rule of a kind says with which characters
its lexemes start and end, and the rules before it say how they do not start: no
plain text starts with an escaped newline, since that would be whitespace.

So a scanned lexeme can be stripped of the delimiters of its kind
(`exists_strip?_of_textRule?` and the lemmas before it), and the productions that do so
never find a token too short.

The point is `empty_of_textOf?_eq_nil`. A lexeme that is text stands for some
characters, with two exceptions outside double quotes: a pair of single quotes with
nothing between them, and a backslash at the very end of the input.
-/

namespace CommandSyntax

namespace Rule

variable {position n : Nat} {text : List Char} {kind : TokenKind}

/-- Whitespace comes before everything else that is not the end. -/
theorem blankRun_eq_zero_of_firstToken (htext : text ≠ []) (hkind : kind ≠ .whitespace)
    (h : firstToken table position text = .ok (kind, n)) : blankRun text = 0 := by
  obtain ⟨c, text, rfl⟩ := List.exists_cons_of_ne_nil htext
  cases hrun : blankRun (c :: text) with
  | zero => rfl
  | succ run =>
    simp only [table, firstToken, stop, whitespace, hrun, Verdict.ofRun, Except.ok.injEq,
      Prod.mk.injEq] at h
    exact absurd h.1.symm hkind

/-- A run up to a single quote ends with it. -/
theorem exists_take_quotedRun {text : List Char} {n : Nat} (h : quotedRun text = some n) :
    ∃ inner, text.take n = inner ++ ['\''] := by
  fun_induction quotedRun text generalizing n with
  | case1 => exact ⟨[], by simp [← Option.some.inj h]⟩
  | case2 d text ih =>
    obtain ⟨m, hm, rfl⟩ := Option.map_eq_some_iff.1 h
    obtain ⟨inner, hinner⟩ := ih hm
    exact ⟨'\\' :: d :: inner, by simp [hinner]⟩
  | case3 d text _ _ ih =>
    obtain ⟨m, hm, rfl⟩ := Option.map_eq_some_iff.1 h
    obtain ⟨inner, hinner⟩ := ih hm
    exact ⟨d :: inner, by simp [hinner]⟩
  | case4 => simp at h

end Rule

namespace Lexeme

variable {lexeme : Lexeme}

/-- A lexeme that is read is what the rule of its kind accepts, and only whitespace starts with
a blank. -/
theorem accept_of_read {position : Nat} {text : List Char} (h : read position text = .ok lexeme)
    (rule : Rule) (hmem : rule ∈ Rule.table) (hkind : lexeme.kind = rule.kind) :
    ∃ n, rule.scan text = .accept n ∧ lexeme.text = text.take n ∧
      (text ≠ [] → lexeme.kind ≠ .whitespace → Rule.blankRun text = 0) := by
  simp only [read] at h
  split at h
  · rename_i kind n hfirst
    obtain ⟨other, hother, hrule, hscan⟩ := Rule.mem_of_firstToken_eq_ok hfirst
    obtain rfl := Except.ok.inj h
    obtain rfl := Rule.eq_of_kind_eq hother hmem (hrule.trans hkind)
    exact ⟨n, hscan, rfl, fun htext hne => Rule.blankRun_eq_zero_of_firstToken htext hne hfirst⟩
  · simp at h

/-- A scanned lexeme is read from some text. -/
theorem Scanned.exists_accept (h : lexeme.Scanned) (rule : Rule) (hmem : rule ∈ Rule.table)
    (hkind : lexeme.kind = rule.kind) :
    ∃ text n, rule.scan text = .accept n ∧ lexeme.text = text.take n ∧
      (lexeme.kind ≠ .whitespace → Rule.blankRun text = 0) := by
  obtain ⟨text, htext, hread⟩ := h
  obtain ⟨n, hscan, hlexeme, hblank⟩ := accept_of_read hread rule hmem hkind
  exact ⟨text, n, hscan, hlexeme, hblank htext⟩

/-- A text in single quotes stands between two quotes. -/
theorem Scanned.text_of_singleQuoted (h : lexeme.Scanned) (hkind : lexeme.kind = .singleQuoted) :
    ∃ inner, lexeme.text = '\'' :: (inner ++ ['\'']) := by
  obtain ⟨text, n, hscan, htext, -⟩ :=
    h.exists_accept Rule.singleQuoted (by simp [Rule.table]) hkind
  simp only [Rule.singleQuoted] at hscan
  split at hscan
  · split at hscan
    · rename_i run hrun
      obtain rfl := Verdict.accept.inj hscan
      obtain ⟨inner, hinner⟩ := Rule.exists_take_quotedRun hrun
      exact ⟨inner, by rw [htext, List.take_succ_cons, hinner]⟩
    · simp at hscan
  · simp at hscan

/-- A set of characters stands between brackets, and no closing bracket is in the set. -/
theorem Scanned.text_of_globCharset (h : lexeme.Scanned) (hkind : lexeme.kind = .globCharset) :
    ∃ inner, ']' ∉ inner ∧ lexeme.text = '[' :: (inner ++ [']']) := by
  obtain ⟨text, n, hscan, htext, -⟩ :=
    h.exists_accept Rule.globCharset (by simp [Rule.table]) hkind
  simp only [Rule.globCharset] at hscan
  split at hscan
  · rename_i text
    split at hscan
    · rename_i inside hfind
      obtain rfl := Verdict.accept.inj hscan
      obtain ⟨hlt, hclose, hbefore⟩ := List.findIdx?_eq_some_iff_getElem.1 hfind
      refine ⟨text.take inside, fun hmem => ?_, ?_⟩
      · obtain ⟨i, hi, hget⟩ := List.getElem_of_mem hmem
        rw [List.getElem_take] at hget
        rw [List.length_take] at hi
        exact hbefore i (by omega) (by simp [hget])
      · rw [htext, List.take_succ_cons, List.take_add_one, List.getElem?_eq_getElem hlt,
          beq_iff_eq.1 hclose, Option.toList_some]
    · simp at hscan
  · simp at hscan

/-- A parameter without braces is a dollar sign and at least one character. -/
theorem Scanned.text_of_unbracedParameter (h : lexeme.Scanned)
    (hkind : lexeme.kind = .unbracedParameter) :
    ∃ name, name ≠ [] ∧ lexeme.text = '$' :: name := by
  obtain ⟨text, n, hscan, htext, -⟩ :=
    h.exists_accept Rule.unbracedParameter (by simp [Rule.table]) hkind
  simp only [Rule.unbracedParameter] at hscan
  split at hscan
  · rename_i c text
    split at hscan
    · obtain rfl := Verdict.accept.inj hscan
      exact ⟨[c], by simp, htext⟩
    · split at hscan
      · obtain rfl := Verdict.accept.inj hscan
        exact ⟨c :: text.take (Rule.nameRun text), by simp, htext⟩
      · simp at hscan
  · simp at hscan

/-- A lexeme whose rule takes some characters literally consists of these. -/
theorem Scanned.text_of_literal (h : lexeme.Scanned) {characters : List Char}
    (hmem : Rule.literal lexeme.kind characters ∈ Rule.table) : lexeme.text = characters := by
  obtain ⟨text, n, hscan, htext, -⟩ := h.exists_accept _ hmem rfl
  simp only [Rule.literal] at hscan
  split at hscan
  · rename_i hpre
    obtain ⟨rfl, -⟩ := Verdict.ofRun_eq_accept_iff.1 hscan
    rw [htext]
    exact (List.prefix_iff_eq_take.1 (List.isPrefixOf_iff_prefix.1 hpre)).symm
  · simp at hscan

/-- A backtick is nothing but itself. -/
theorem Scanned.text_of_backtick (h : lexeme.Scanned) (hkind : lexeme.kind = .backtick) :
    lexeme.text = ['\x60'] :=
  h.text_of_literal (by simp [hkind, Rule.table])

/-- A substitution in parentheses opens with a dollar sign and a parenthesis. -/
theorem Scanned.text_of_startSubstitution (h : lexeme.Scanned)
    (hkind : lexeme.kind = .startSubstitution) : lexeme.text = ['$', '('] :=
  h.text_of_literal (by simp [hkind, Rule.table])

/-- The name and the equals sign of an assignment. -/
theorem Scanned.text_of_assignmentLhs (h : lexeme.Scanned)
    (hkind : lexeme.kind = .assignmentLhs) :
    ∃ name, name ≠ [] ∧ (∀ c ∈ name, isNameChar c) ∧ lexeme.text = name ++ ['='] := by
  obtain ⟨text, n, hscan, htext, -⟩ :=
    h.exists_accept Rule.assignmentLhs (by simp [Rule.table]) hkind
  simp only [Rule.assignmentLhs] at hscan
  split at hscan
  · rename_i hname
    obtain rfl := Verdict.accept.inj hscan
    refine ⟨text.takeWhile isNameChar, List.length_pos_iff.1 hname.1, fun c hc => ?_, ?_⟩
    · exact List.all_eq_true.1 List.all_takeWhile c hc
    · have hequals : text[Rule.nameRun text]? = some '=' := by
        rw [← List.head?_drop]
        exact hname.2
      rw [htext, List.take_add_one, hequals]
      congr 1
      exact (List.prefix_iff_eq_take.1 (List.takeWhile_prefix _)).symm
  · simp at hscan

/-- Names with an equals sign and the signs that are text in double quotes have no backslash. -/
theorem Scanned.backslash_notMem (h : lexeme.Scanned)
    (hkind : lexeme.kind ∈ [.assignmentLhs, .globStar, .globOne, .and, .or, .background]) :
    '\\' ∉ lexeme.text := by
  have hliteral (characters : List Char) (hcharacters : '\\' ∉ characters)
      (hmem : Rule.literal lexeme.kind characters ∈ Rule.table) : '\\' ∉ lexeme.text := by
    rwa [h.text_of_literal hmem]
  simp only [List.mem_cons, List.not_mem_nil, or_false] at hkind
  rcases hkind with hkind | hkind | hkind | hkind | hkind | hkind
  · obtain ⟨name, -, hname, htext⟩ := h.text_of_assignmentLhs hkind
    rw [htext]
    intro hmem
    rcases List.mem_append.1 hmem with hmem | hmem
    · exact absurd (hname _ hmem) (by decide)
    · simp at hmem
  · exact hliteral ['*'] (by decide) (by simp [hkind, Rule.table])
  · exact hliteral ['?'] (by decide) (by simp [hkind, Rule.table])
  · exact hliteral ['&', '&'] (by decide) (by simp [hkind, Rule.table])
  · exact hliteral ['|', '|'] (by decide) (by simp [hkind, Rule.table])
  · exact hliteral ['&'] (by decide) (by simp [hkind, Rule.table])

/-- Plain text does not start with an escaped newline. -/
theorem Scanned.text_of_raw (h : lexeme.Scanned) (hkind : lexeme.kind = .raw) :
    ∀ rest, lexeme.text ≠ '\\' :: '\n' :: rest := by
  intro rest hrest
  obtain ⟨text, n, -, htext, hblank⟩ := h.exists_accept Rule.raw (by simp [Rule.table]) hkind
  obtain ⟨after, hafter⟩ : lexeme.text <+: text := htext ▸ List.take_prefix n text
  rw [hrest] at hafter
  have := hblank (by simp [hkind])
  simp [← hafter, Rule.blankRun] at this

/-- A backslash takes the next character with it, so alone it stands at the end. -/
theorem eq_of_read_backslash {position : Nat} {text : List Char}
    (h : read position text = .ok lexeme) (hkind : lexeme.kind = .raw)
    (hlexeme : lexeme.text = ['\\']) : text = ['\\'] := by
  obtain ⟨n, hscan, htext, -⟩ := accept_of_read h Rule.raw (by simp [Rule.table]) hkind
  obtain ⟨rfl, -⟩ := Verdict.ofRun_eq_accept_iff.1 hscan
  rw [htext] at hlexeme
  obtain ⟨rest, rfl⟩ : ['\\'] <+: text := hlexeme ▸ List.take_prefix ..
  -- with a character behind it the run would be longer than the backslash
  cases rest with
  | nil => rfl
  | cons c rest => simp [Rule.rawRun] at hlexeme

end Lexeme

/-! ### Delimiters -/

namespace Production

/-- The text inside the delimiters of a lexeme. -/
def inside (text : List Char) : List Char := text.tail.dropLast

end Production

namespace Lexeme

variable {lexeme : Lexeme}

/-- A name can be stripped of its dollar sign. -/
theorem Scanned.strip?_of_unbracedParameter (h : lexeme.Scanned)
    (hkind : lexeme.kind = .unbracedParameter) :
    Text.strip? 1 0 lexeme.text = some lexeme.text.tail := by
  obtain ⟨name, -, htext⟩ := h.text_of_unbracedParameter hkind
  have hstrip : Text.strip? 1 0 (['$'] ++ name ++ []) = some name := Text.strip?_append rfl rfl
  simpa [htext] using hstrip

/-- A name can be stripped of its equals sign. -/
theorem Scanned.strip?_of_assignmentLhs (h : lexeme.Scanned)
    (hkind : lexeme.kind = .assignmentLhs) :
    Text.strip? 0 1 lexeme.text = some lexeme.text.dropLast := by
  obtain ⟨name, -, -, htext⟩ := h.text_of_assignmentLhs hkind
  have hstrip : Text.strip? 0 1 ([] ++ name ++ ['=']) = some name := Text.strip?_append rfl rfl
  simpa [htext] using hstrip

/-- A set of characters can be stripped of its brackets. -/
theorem Scanned.strip?_of_globCharset (h : lexeme.Scanned) (hkind : lexeme.kind = .globCharset) :
    Text.strip? 1 1 lexeme.text = some (Production.inside lexeme.text) := by
  obtain ⟨set, -, htext⟩ := h.text_of_globCharset hkind
  have hstrip : Text.strip? 1 1 (['['] ++ set ++ [']']) = some set := Text.strip?_append rfl rfl
  simpa [htext, Production.inside] using hstrip

/-- A text in single quotes can be stripped of them. -/
theorem Scanned.strip?_of_singleQuoted (h : lexeme.Scanned)
    (hkind : lexeme.kind = .singleQuoted) :
    Text.strip? 1 1 lexeme.text = some (Production.inside lexeme.text) := by
  obtain ⟨inner, htext⟩ := h.text_of_singleQuoted hkind
  have hstrip : Text.strip? 1 1 (['\''] ++ inner ++ ['\'']) = some inner :=
    Text.strip?_append rfl rfl
  simpa [htext, Production.inside] using hstrip

end Lexeme

/-! ### Which lexemes are text -/

/-- The kinds of lexemes that are text inside or outside double quotes. -/
def isText (quoted : Bool) : TokenKind → Bool
  | .singleQuoted | .assignmentLhs | .raw => true
  | .globStar | .globOne | .globCharset | .and | .or | .background | .whitespace => quoted
  | _ => false

namespace Production

variable {quoted : Bool} {lexeme : Lexeme}

/-- What a lexeme means as text, inside or outside double quotes, or `none` when it is not text
there. -/
def textOf? (quoted : Bool) (lexeme : Lexeme) : Option (List Char) :=
  match lexeme.kind, quoted with
  | .singleQuoted, true => some (Quoting.double lexeme.text)
  | .singleQuoted, false => some (Quoting.single (inside lexeme.text))
  | .assignmentLhs, true | .raw, true => some (Quoting.double lexeme.text)
  | .assignmentLhs, false | .raw, false => some (Quoting.plain lexeme.text)
  | .globStar, true | .globOne, true | .globCharset, true | .and, true | .or, true
  | .background, true | .whitespace, true => some lexeme.text
  | _, _ => none

/-- The delimiters of a lexeme that is text can be stripped, and what is left of it has the
meaning of the lexeme. -/
theorem exists_strip?_of_textRule? (h : lexeme.Scanned) {rule : TextRule}
    (hrule : textRule? quoted lexeme.kind = some rule) :
    ∃ inner, Text.strip? rule.left rule.right lexeme.text = some inner ∧
      textOf? quoted lexeme = some (Quoting.unescape rule.escapes inner) := by
  by_cases hsingle : lexeme.kind = .singleQuoted ∧ quoted = false
  · obtain ⟨hkind, rfl⟩ := hsingle
    rw [hkind] at hrule
    obtain rfl := Option.some.inj hrule
    exact ⟨_, h.strip?_of_singleQuoted hkind, by simp [textOf?, hkind]⟩
  · -- every other text has no delimiters
    refine ⟨lexeme.text, ?_⟩
    obtain ⟨kind, start, text⟩ := lexeme
    cases kind <;> cases quoted <;> simp_all [textRule?, textOf?] <;>
      simp [← hrule, Text.strip?_zero]

/-- The end marker is not text. -/
theorem kind_ne_stop_of_textOf? {piece : List Char} (h : textOf? quoted lexeme = some piece) :
    lexeme.kind ≠ .stop := by
  intro hkind
  simp [textOf?, hkind] at h

theorem textRule?_eq_none_iff {kind : TokenKind} :
    textRule? quoted kind = none ↔ isText quoted kind = false := by
  cases kind <;> cases quoted <;> simp [textRule?, isText]

theorem textOf?_eq_none_iff : textOf? quoted lexeme = none ↔ isText quoted lexeme.kind = false := by
  obtain ⟨kind, start, text⟩ := lexeme
  cases kind <;> cases quoted <;> simp [textOf?, isText]

/-- The meaning of a lexeme that is text. -/
def textOf (quoted : Bool) (lexeme : Lexeme) : List Char := (textOf? quoted lexeme).getD []

theorem textOf?_eq_some (h : isText quoted lexeme.kind = true) :
    textOf? quoted lexeme = some (textOf quoted lexeme) := by
  cases hpiece : textOf? quoted lexeme with
  | none => simp [textOf?_eq_none_iff.1 hpiece] at h
  | some piece => simp [textOf, hpiece]

end Production

/-! ### Which text is empty -/

namespace Quoting

theorem single_ne_nil {text : List Char} (h : text ≠ []) : single text ≠ [] := by
  fun_cases single text <;> simp_all

theorem double_ne_nil {text : List Char} (h : text ≠ [])
    (hnewline : ∀ rest, text ≠ '\\' :: '\n' :: rest) : double text ≠ [] := by
  fun_cases double text <;> simp_all

theorem plain_ne_nil {text : List Char} (h : text ≠ []) (hbackslash : text ≠ ['\\'])
    (hnewline : ∀ rest, text ≠ '\\' :: '\n' :: rest) : plain text ≠ [] := by
  fun_cases plain text with
  | case1 text => exact absurd rfl (hnewline text)
  | case2 text => simp
  | case3 text hne hne' =>
    -- the backslash escapes the next character, which then stands for itself
    cases text with
    | nil => exact absurd rfl hbackslash
    | cons c text => rw [plain] <;> simp_all
  | case4 c text _ _ _ => simp
  | case5 => exact absurd rfl h

end Quoting

/-- The lexemes that stand for no text outside double quotes: a pair of single quotes, and a
backslash with nothing after it. -/
def Lexeme.IsEmptyText (lexeme : Lexeme) : Prop :=
  lexeme.text = ['\'', '\''] ∨ lexeme.kind = .raw ∧ lexeme.text = ['\\']

/-- Text that stands for no character stands outside double quotes and is one of two. -/
theorem Production.empty_of_textOf?_eq_nil {quoted : Bool} {lexeme : Lexeme}
    (hscanned : lexeme.Scanned) (h : textOf? quoted lexeme = some []) :
    quoted = false ∧ lexeme.IsEmptyText := by
  have hne := hscanned.text_ne_nil
  have hname (hkind : lexeme.kind = .assignmentLhs) : '\\' ∉ lexeme.text :=
    hscanned.backslash_notMem (by simp [hkind])
  simp only [textOf?] at h
  split at h
  · rename_i hkind
    obtain ⟨inner, htext⟩ := hscanned.text_of_singleQuoted hkind
    simp [htext, Quoting.double] at h
  · rename_i hkind
    obtain ⟨inner, htext⟩ := hscanned.text_of_singleQuoted hkind
    refine ⟨rfl, .inl ?_⟩
    by_cases hinner : inner = []
    · simp [htext, hinner]
    · exact absurd (Option.some.inj h) (by simpa [htext, inside] using Quoting.single_ne_nil hinner)
  · rename_i hkind
    exact absurd (Option.some.inj h) (by rwa [Quoting.double_eq_self (hname hkind)])
  · rename_i hkind
    exact absurd (Option.some.inj h) (Quoting.double_ne_nil hne (hscanned.text_of_raw hkind))
  · rename_i hkind
    exact absurd (Option.some.inj h) (by rwa [Quoting.plain_eq_self (hname hkind)])
  · rename_i hkind
    refine ⟨rfl, .inr ⟨hkind, ?_⟩⟩
    by_cases hbackslash : lexeme.text = ['\\']
    · exact hbackslash
    · exact absurd (Option.some.inj h)
        (Quoting.plain_ne_nil hne hbackslash (hscanned.text_of_raw hkind))
  all_goals simp_all

end CommandSyntax
