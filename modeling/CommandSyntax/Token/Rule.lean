import CommandSyntax.ScanError
import CommandSyntax.Token

/-!
# CommandSyntax.Token.Rule

The **scan rules**: how each kind of token is recognised at the head of a text.

A rule looks at the text that is left and gives a `Verdict`: it passes, it
accepts a number of characters, or it rejects an opening that is never closed.
`Rule.table` lists the rules, and the first rule that does not pass decides
(`firstToken`). So order is precedence, not the longest match: `$((` stands
before `$(`, and a name with an equals sign stands before plain text.

Design points:

* All characters that rules treat specially are ASCII, so rules speak of
  characters, and offsets in bytes come in only where a token gets its place.
* A rule never accepts more than there is, and accepts nothing only at the end
  (`Rule.Fits`); this is what makes scanning a whole text end.
-/

namespace CommandSyntax

/-! ### Classes of characters -/

/-- The characters that may stand in a name: ASCII letters, digits and `_`. -/
def isNameChar (c : Char) : Bool := c.isAlphanum || c == '_'

/-- The blanks: space, tab, carriage return and vertical tab. -/
def isBlank (c : Char) : Bool := c == ' ' || c == '\t' || c == '\r' || c == '\x0b'

/-- The characters that end plain text. -/
def delimiters : List Char :=
  [' ', '\t', '\r', '\x0b', '\n', ';', '$', '{', '}', '[', ']', '*', '?', '(', ')',
    '"', '\x60', '\'', '&', '|', '<', '>']

/-- Whether a character ends plain text. -/
def isDelimiter (c : Char) : Bool := delimiters.contains c

/-! ### Verdicts -/

/-- The openings that have to be closed within one token. -/
inductive Opening where
  /-- The bracket of a set of characters. -/
  | charset
  /-- A single quote. -/
  | singleQuote
deriving DecidableEq, Repr

/-- The error for an opening whose text up to the end is `span`. -/
def Opening.unclosed : Opening → Span → ScanError
  | charset => .unclosedCharset
  | singleQuote => .unclosedSingleQuote

/-- What a rule makes of the head of a text. -/
inductive Verdict where
  /-- The rule does not apply. -/
  | pass
  /-- The first `length` characters are a token. -/
  | accept (length : Nat)
  /-- The text starts with an opening that is never closed. -/
  | reject (opening : Opening)
deriving DecidableEq, Repr

/-- Accepts a run of characters unless it is empty. -/
def Verdict.ofRun : Nat → Verdict
  | 0 => pass
  | length + 1 => accept (length + 1)

@[simp] theorem Verdict.ofRun_eq_accept_iff {m n : Nat} :
    ofRun m = accept n ↔ m = n ∧ 0 < n := by
  cases m <;> simp [ofRun] <;> omega

@[simp] theorem Verdict.ofRun_ne_reject (n : Nat) (opening : Opening) :
    ofRun n ≠ reject opening := by
  cases n <;> simp [ofRun]

/-- A kind of token and the way it is recognised. -/
structure Rule where
  /-- The kind of the tokens that the rule accepts. -/
  kind : TokenKind
  /-- What the rule makes of a text. -/
  scan : List Char → Verdict

namespace Rule

/-! ### Runs of characters -/

/-- The length of the run of name characters at the head of a text. -/
def nameRun (text : List Char) : Nat := (text.takeWhile isNameChar).length

/-- The length of the run of blanks and escaped newlines at the head of a text. -/
def blankRun : List Char → Nat
  | '\\' :: '\n' :: text => blankRun text + 2
  | c :: text => if isBlank c then blankRun text + 1 else 0
  | [] => 0

/-- The length of a text up to and with the first single quote that no backslash
escapes. A backslash takes the next character with it, unless it is the last. -/
def quotedRun : List Char → Option Nat
  | '\'' :: _ => some 1
  | '\\' :: _ :: text => (quotedRun text).map (· + 2)
  | _ :: text => (quotedRun text).map (· + 1)
  | [] => none

/-- The length of the plain text at the head of a text. A backslash takes the
next character with it, unless it is the last. -/
def rawRun : List Char → Nat
  | '\\' :: _ :: text => rawRun text + 2
  | c :: text => if isDelimiter c then 0 else rawRun text + 1
  | [] => 0

theorem nameRun_le (text : List Char) : nameRun text ≤ text.length :=
  (List.takeWhile_sublist _).length_le

theorem blankRun_le (text : List Char) : blankRun text ≤ text.length := by
  fun_induction blankRun text <;> simp_all

theorem quotedRun_le {text : List Char} {n : Nat} (h : quotedRun text = some n) :
    0 < n ∧ n ≤ text.length := by
  fun_induction quotedRun text generalizing n with
  | case1 => simp at h; simp [← h]
  | case2 d text ih =>
    obtain ⟨m, hm, rfl⟩ := Option.map_eq_some_iff.1 h
    have := ih hm
    simp only [List.length_cons]
    omega
  | case3 d text _ _ ih =>
    obtain ⟨m, hm, rfl⟩ := Option.map_eq_some_iff.1 h
    have := ih hm
    simp only [List.length_cons]
    omega
  | case4 => simp at h

theorem rawRun_le (text : List Char) : rawRun text ≤ text.length := by
  fun_induction rawRun text <;> simp_all

/-! ### The rules -/

/-- Accepts exactly the given characters. -/
def literal (kind : TokenKind) (characters : List Char) : Rule where
  kind := kind
  scan text := if characters.isPrefixOf text then .ofRun characters.length else .pass

/-- The end of the input, as a token without characters. -/
def stop : Rule where
  kind := .stop
  scan
    | [] => .accept 0
    | _ :: _ => .pass

/-- A run of blanks and escaped newlines. -/
def whitespace : Rule where
  kind := .whitespace
  scan text := .ofRun (blankRun text)

/-- A dollar sign with a question mark, with one digit, or with a name. Only one
digit is taken: in `$12` the parameter is `1`. -/
def unbracedParameter : Rule where
  kind := .unbracedParameter
  scan
    | '$' :: c :: text =>
      if c = '?' ∨ c.isDigit then .accept 2
      else if isNameChar c then .accept (nameRun text + 2)
      else .pass
    | _ => .pass

/-- A semicolon or a newline. -/
def statementEnd : Rule where
  kind := .statementEnd
  scan
    | c :: _ => if c = ';' ∨ c = '\n' then .accept 1 else .pass
    | [] => .pass

/-- From an opening bracket to the first closing bracket. -/
def globCharset : Rule where
  kind := .globCharset
  scan
    | '[' :: text =>
      match text.findIdx? (· == ']') with
      | some inside => .accept (inside + 2)
      | none => .reject .charset
    | _ => .pass

/-- From a single quote to the next one that is not escaped. -/
def singleQuoted : Rule where
  kind := .singleQuoted
  scan
    | '\'' :: text =>
      match quotedRun text with
      | some run => .accept (run + 1)
      | none => .reject .singleQuote
    | _ => .pass

/-- A name and an equals sign. -/
def assignmentLhs : Rule where
  kind := .assignmentLhs
  scan text :=
    if 0 < nameRun text ∧ (text.drop (nameRun text)).head? = some '=' then
      .accept (nameRun text + 1)
    else
      .pass

/-- Plain text up to the next delimiter. -/
def raw : Rule where
  kind := .raw
  scan text := .ofRun (rawRun text)

/-- All rules, in the order in which they are tried. -/
def table : List Rule :=
  [stop,
    whitespace,
    unbracedParameter,
    literal .startArithmetic ['$', '(', '('],
    literal .startSubstitution ['$', '('],
    literal .startExpansion ['$', '{'],
    statementEnd,
    literal .and ['&', '&'],
    literal .or ['|', '|'],
    literal .pipe ['|'],
    literal .background ['&'],
    literal .appendRedirect ['>', '>'],
    literal .writeRedirect ['>'],
    literal .readRedirect ['<'],
    literal .leftBrace ['{'],
    literal .rightBrace ['}'],
    literal .leftParen ['('],
    literal .rightParen [')'],
    literal .doubleQuote ['"'],
    literal .backtick ['\x60'],
    literal .globStar ['*'],
    literal .globOne ['?'],
    globCharset,
    singleQuoted,
    assignmentLhs,
    raw]

/-- The rules stand in the order of the kinds. -/
theorem map_kind_table : table.map Rule.kind = TokenKind.all := rfl

/-! ### A rule never accepts more than there is -/

/-- A rule fits when it accepts at most what there is, and at least one character
unless there is none. -/
def Fits (rule : Rule) : Prop :=
  ∀ ⦃text n⦄, rule.scan text = .accept n → n ≤ text.length ∧ (text ≠ [] → 0 < n)

theorem literal_fits (kind : TokenKind) (characters : List Char) :
    (literal kind characters).Fits := by
  intro text n h
  simp only [literal] at h
  split at h
  · rename_i hpre
    obtain ⟨rfl, hpos⟩ := Verdict.ofRun_eq_accept_iff.1 h
    exact ⟨(List.isPrefixOf_iff_prefix.1 hpre).length_le, fun _ => hpos⟩
  · simp at h

theorem stop_fits : stop.Fits := by
  intro text n h
  cases text <;> simp_all [stop]

theorem whitespace_fits : whitespace.Fits := by
  intro text n h
  obtain ⟨rfl, hpos⟩ := Verdict.ofRun_eq_accept_iff.1 h
  exact ⟨blankRun_le text, fun _ => hpos⟩

theorem unbracedParameter_fits : unbracedParameter.Fits := by
  intro text n h
  simp only [unbracedParameter] at h
  split at h
  · rename_i c text
    have := nameRun_le text
    repeat' split at h
    all_goals simp at h
    all_goals subst h; simp; try omega
  · simp at h

theorem statementEnd_fits : statementEnd.Fits := by
  intro text n h
  simp only [statementEnd] at h
  split at h
  · split at h <;> simp at h
    subst h; simp
  · simp at h

theorem globCharset_fits : globCharset.Fits := by
  intro text n h
  simp only [globCharset] at h
  split at h
  · rename_i text
    split at h <;> simp at h
    rename_i inside hfind
    have := (List.findIdx?_eq_some_iff_getElem.1 hfind).1
    subst h
    simp only [List.length_cons]
    omega
  · simp at h

theorem singleQuoted_fits : singleQuoted.Fits := by
  intro text n h
  simp only [singleQuoted] at h
  split at h
  · split at h <;> simp at h
    rename_i run hrun
    have := quotedRun_le hrun
    subst h
    simp only [List.length_cons]
    omega
  · simp at h

theorem assignmentLhs_fits : assignmentLhs.Fits := by
  intro text n h
  simp only [assignmentLhs] at h
  split at h
  · rename_i hname
    simp at h
    have : nameRun text < text.length := by
      -- an equals sign stands after the name, so the name is not all of the text
      rw [List.head?_drop] at hname
      exact (List.getElem?_eq_some_iff.1 hname.2).1
    omega
  · simp at h

theorem raw_fits : raw.Fits := by
  intro text n h
  obtain ⟨rfl, hpos⟩ := Verdict.ofRun_eq_accept_iff.1 h
  exact ⟨rawRun_le text, fun _ => hpos⟩

theorem fits_of_mem_table : ∀ rule ∈ table, rule.Fits := by
  simp [table, stop_fits, whitespace_fits, unbracedParameter_fits, statementEnd_fits,
    globCharset_fits, singleQuoted_fits, assignmentLhs_fits, raw_fits, literal_fits]

end Rule

end CommandSyntax
