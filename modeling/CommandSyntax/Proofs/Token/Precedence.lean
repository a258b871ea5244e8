import CommandSyntax.Proofs.Token.Unreadable
import Mathlib.Data.List.Permutation

/-!
# CommandSyntax.Proofs.Token.Precedence

**Which rules contend for a text.** A rule contends for a text when it does not pass there:
it accepts something or rejects an opening. The first two characters leave no rule in the
running, or one, or one of six pairs (`Rule.shortlist`).

So the order of the table says nothing but which of a pair comes first. The rule that decides
is the first of the contenders, in whatever order the rules are tried
(`Rule.firstToken_eq_of_perm`), and a rule that is the second of no pair decides wherever it
accepts (`Rule.firstToken_of_accept`).
-/

namespace CommandSyntax

namespace Rule

variable {position n : Nat} {text : List Char} {rule : Rule} {rules : List Rule}

/-! ### Contenders -/

/-- Whether a rule does not pass on a text. -/
def contends (text : List Char) (rule : Rule) : Bool := rule.scan text != .pass

@[simp] theorem contends_eq_true : rule.contends text = true ↔ rule.scan text ≠ .pass := by
  simp [contends]

/-- The kinds of the rules that contend for a text, in the order of the table. -/
def contenders (text : List Char) : List TokenKind :=
  (table.filter (contends text)).map kind

theorem kind_mem_contenders (hmem : rule ∈ table) (h : rule.scan text ≠ .pass) :
    rule.kind ∈ contenders text :=
  List.mem_map_of_mem (List.mem_filter.2 ⟨hmem, contends_eq_true.2 h⟩)

/-- The pairs of kinds that may contend for a text. The first of a pair has precedence. -/
def precedences : List (TokenKind × TokenKind) :=
  [(.startArithmetic, .startSubstitution), (.and, .background), (.or, .pipe),
    (.appendRedirect, .writeRedirect), (.assignmentLhs, .raw), (.whitespace, .raw)]

/-- At most one kind, or one of the pairs. -/
def Ranked (kinds : List TokenKind) : Prop :=
  kinds.length ≤ 1 ∨ ∃ pair ∈ precedences, kinds = [pair.1, pair.2]

theorem Ranked.sublist {kinds fewer : List TokenKind} (h : Ranked kinds)
    (hsub : fewer.Sublist kinds) : Ranked fewer := by
  rcases h with hlength | ⟨pair, hpair, rfl⟩
  · exact .inl (Nat.le_trans hsub.length_le hlength)
  · have hle : fewer.length ≤ 2 := hsub.length_le
    rcases Nat.lt_or_eq_of_le hle with hlt | heq
    · exact .inl (Nat.le_of_lt_succ hlt)
    · exact .inr ⟨pair, hpair, hsub.eq_of_length heq⟩

/-! ### The first two characters leave few rules -/

/-- The kinds that may contend for a text that begins with a character, where the character
after it does not matter. -/
def startedBy : Char → List TokenKind
  | ' ' | '\t' | '\r' | '\x0b' => [.whitespace]
  | '\n' | ';' => [.statementEnd]
  | '$' => [.unbracedParameter]
  | '{' => [.leftBrace]
  | '}' => [.rightBrace]
  | '[' => [.globCharset]
  | ']' => []
  | '*' => [.globStar]
  | '?' => [.globOne]
  | '(' => [.leftParen]
  | ')' => [.rightParen]
  | '"' => [.doubleQuote]
  | '\x60' => [.backtick]
  | '\'' => [.singleQuoted]
  | '&' => [.and, .background]
  | '|' => [.or, .pipe]
  | '<' => [.readRedirect]
  | '>' => [.appendRedirect, .writeRedirect]
  | _ => [.assignmentLhs, .raw]

/-- The kinds that the first two characters of a text leave in the running. -/
def shortlist : List Char → List TokenKind
  | [] => [.stop]
  | '\\' :: '\n' :: _ => [.whitespace, .raw]
  | '$' :: '(' :: _ => [.startArithmetic, .startSubstitution]
  | '$' :: '{' :: _ => [.startExpansion]
  | c :: _ => startedBy c

theorem startedBy_of_notMem_delimiters {c : Char} (hc : c ∉ delimiters) :
    startedBy c = [.assignmentLhs, .raw] := by
  unfold startedBy
  split <;> simp_all [delimiters]

/-- Whether all rules but those of some kinds pass, by evaluating the table on a text. -/
theorem scan_of_all {kinds : List TokenKind}
    (h : table.all fun rule => kinds.contains rule.kind || rule.scan text == .pass) :
    ∀ rule ∈ table, rule.kind ∉ kinds → rule.scan text = .pass := by
  intro rule hmem hkind
  simpa [hkind] using List.all_eq_true.1 h rule hmem

/-- A delimiter leaves the kinds of its marks in the running, whatever follows it. -/
theorem scan_of_mem_delimiters {c : Char} (hc : c ∈ delimiters) (hdollar : c ≠ '$') :
    ∀ rule ∈ table, rule.kind ∉ startedBy c → rule.scan (c :: text) = .pass := by
  refine scan_of_all ?_
  simp only [delimiters, List.mem_cons, List.not_mem_nil, or_false] at hc
  rcases hc with rfl | rfl | rfl | rfl | rfl | rfl | rfl | rfl | rfl | rfl | rfl | rfl | rfl |
    rfl | rfl | rfl | rfl | rfl | rfl | rfl | rfl | rfl
  all_goals first | rfl | exact absurd rfl hdollar

/-- In front of no parenthesis and no brace, a dollar sign can only begin a parameter. -/
theorem scan_dollar (hparen : ¬ ['('] <+: text) (hbrace : ¬ ['{'] <+: text) :
    ∀ rule ∈ table, rule.kind ≠ .unbracedParameter → rule.scan ('$' :: text) = .pass := by
  have harithmetic : ¬ ['(', '('] <+: text := fun h =>
    hparen ((List.prefix_append ['('] ['(']).trans h)
  simp [hparen, hbrace, harithmetic, table, stop, whitespace, blankRun, isBlank, Verdict.ofRun,
    literal, statementEnd, globCharset, singleQuoted, assignmentLhs, nameRun, isNameChar, raw,
    rawRun, isDelimiter, delimiters, show unbracedParameter.kind = .unbracedParameter from rfl]

/-- Outside of the kinds that a text leaves in the running every rule passes. -/
theorem scan_of_notMem_shortlist :
    ∀ rule ∈ table, rule.kind ∉ shortlist text → rule.scan text = .pass := by
  unfold shortlist
  split
  case h_1 | h_2 | h_3 | h_4 => exact scan_of_all rfl
  case h_5 c text hescape hparen hbrace =>
    by_cases hdollar : c = '$'
    · subst hdollar
      have hparen : ¬ ['('] <+: text := fun ⟨tail, h⟩ => hparen tail rfl h.symm
      have hbrace : ¬ ['{'] <+: text := fun ⟨tail, h⟩ => hbrace tail rfl h.symm
      exact fun rule hmem hkind =>
        scan_dollar hparen hbrace rule hmem fun h => hkind (by simp [h, startedBy])
    by_cases hc : c ∈ delimiters
    · exact scan_of_mem_delimiters hc hdollar
    · rw [startedBy_of_notMem_delimiters hc]
      have hblank : blankRun (c :: text) = 0 := by
        refine blankRun_of_notMem_delimiters hc fun hbackslash hhead => ?_
        obtain ⟨tail, htail⟩ := List.head?_eq_some_iff.1 hhead
        exact hescape tail hbackslash htail
      have htable : table = table.take 24 ++ [assignmentLhs, raw] := rfl
      intro rule hmem hkind
      rw [htable, List.mem_append] at hmem
      rcases hmem with hmem | hmem
      · exact scan_of_notMem_delimiters hc hblank rule hmem
      · simp only [List.mem_cons, List.not_mem_nil, or_false] at hmem
        rcases hmem with rfl | rfl
        all_goals exact absurd (by decide) hkind

theorem ranked_shortlist (text : List Char) : Ranked (shortlist text) := by
  unfold shortlist
  split
  case h_5 c text _ _ _ =>
    unfold startedBy
    split
    all_goals simp [Ranked, precedences]
  all_goals simp [Ranked, precedences]

/-- The kinds that are left stand in the order of the table. -/
theorem filter_shortlist (text : List Char) :
    TokenKind.all.filter (· ∈ shortlist text) = shortlist text := by
  unfold shortlist
  split
  case h_5 c text _ _ _ =>
    unfold startedBy
    split
    all_goals decide
  all_goals decide

/-- Only kinds that the first two characters leave in the running contend. -/
theorem contenders_sublist (text : List Char) : (contenders text).Sublist (shortlist text) := by
  have hfilter : table.filter (contends text) =
      (table.filter fun rule => rule.kind ∈ shortlist text).filter (contends text) := by
    rw [List.filter_filter]
    refine List.filter_congr fun rule hmem => ?_
    by_cases hkind : rule.kind ∈ shortlist text
    · simp [hkind]
    · simp [contends, scan_of_notMem_shortlist rule hmem hkind]
  have hkinds : (table.filter fun rule => rule.kind ∈ shortlist text).map kind =
      TokenKind.all.filter (· ∈ shortlist text) := by
    rw [← map_kind_table, List.filter_map]
    rfl
  rw [← filter_shortlist, ← hkinds, contenders, hfilter]
  exact List.filter_sublist.map kind

theorem ranked_contenders (text : List Char) : Ranked (contenders text) :=
  (ranked_shortlist text).sublist (contenders_sublist text)

/-- No rule contends, or one, or the two rules of a pair. -/
theorem filter_contends_cases (text : List Char) :
    table.filter (contends text) = [] ∨ (∃ rule, table.filter (contends text) = [rule]) ∨
      ∃ first second, (first.kind, second.kind) ∈ precedences ∧
        table.filter (contends text) = [first, second] := by
  have hranked := ranked_contenders text
  rw [contenders] at hranked
  generalize table.filter (contends text) = rules at hranked ⊢
  rcases rules with - | ⟨first, - | ⟨second, more⟩⟩
  · exact .inl rfl
  · exact .inr (.inl ⟨first, rfl⟩)
  · rcases hranked with hlength | ⟨pair, hpair, hkinds⟩
    · simp at hlength
    · simp only [List.map_cons, List.cons.injEq, List.map_eq_nil_iff] at hkinds
      obtain ⟨hfirst, hsecond, rfl⟩ := hkinds
      exact .inr (.inr ⟨first, second, hfirst ▸ hsecond ▸ hpair, rfl⟩)

/-- A rule that rejects contends alone. -/
theorem contenders_of_reject {opening : Opening} (hmem : rule ∈ table)
    (h : rule.scan text = .reject opening) : contenders text = [rule.kind] := by
  have hkind : rule.kind ∈ contenders text := kind_mem_contenders hmem (by simp [h])
  have hshort : shortlist text = [rule.kind] := by
    rcases eq_of_reject rule hmem h with rfl | rfl
    · simp only [globCharset] at h
      split at h
      · rfl
      · simp at h
    · simp only [singleQuoted] at h
      split at h
      · rfl
      · simp at h
  have hsub := contenders_sublist text
  rw [hshort] at hsub
  rcases List.sublist_singleton.1 hsub with hnil | hone
  · simp [hnil] at hkind
  · exact hone

/-! ### The order of the rules -/

/-- Rules that pass do not matter. -/
theorem firstToken_filter (rules : List Rule) (position : Nat) (text : List Char) :
    firstToken rules position text =
      firstToken (rules.filter (contends text)) position text := by
  induction rules with
  | nil => rfl
  | cons rule rules ih =>
    cases hscan : rule.scan text <;> simp [firstToken, contends, hscan, ← ih]

/-- In a list without repetition two things do not stand in both orders. -/
theorem not_sublist_swap {α : Type} {a b : α} {items : List α} (hnodup : items.Nodup)
    (h : [a, b].Sublist items) : ¬ [b, a].Sublist items := by
  intro h'
  induction hnodup with
  | nil => simp at h
  | @cons c items hc hnodup ih =>
    have hnot : c ∉ items := fun hmem => hc c hmem rfl
    cases h with
    | cons _ h =>
      cases h' with
      | cons _ h' => exact ih h h'
      | cons_cons _ h' => exact hnot (h.subset (by simp))
    | cons_cons _ h =>
      cases h' with
      | cons _ h' => exact hnot (h'.subset (by simp))
      | cons_cons _ h' => exact hnot (h'.subset (by simp))

/-- Where rules that keep the order of the pairs are tried, the same token is found. -/
theorem firstToken_eq_of_perm (hperm : rules.Perm table)
    (hkeeps : ∀ pair ∈ precedences, [pair.1, pair.2].Sublist (rules.map kind)) (position : Nat)
    (text : List Char) : firstToken rules position text = firstToken table position text := by
  have hfilter : (rules.filter (contends text)).Perm (table.filter (contends text)) :=
    hperm.filter _
  rw [firstToken_filter rules, firstToken_filter table]
  rcases filter_contends_cases text with hnil | ⟨rule, hone⟩ | ⟨first, second, hpair, htwo⟩
  · rw [hnil] at hfilter ⊢
    rw [hfilter.eq_nil]
  · rw [hone] at hfilter ⊢
    rw [hfilter.eq_singleton]
  · rw [htwo] at hfilter ⊢
    rcases List.perm_pair.1 hfilter with hsame | hswap
    · rw [hsame]
    · -- the other order contradicts the one that is kept
      have hnodup : (rules.map kind).Nodup := (hperm.map kind).nodup_iff.2 (by decide)
      have hsub : ((rules.filter (contends text)).map kind).Sublist (rules.map kind) :=
        List.filter_sublist.map kind
      rw [hswap] at hsub
      exact absurd hsub (not_sublist_swap hnodup (hkeeps _ hpair))

/-- A rule that accepts decides, unless it is the second of a pair and the first contends too. -/
theorem firstToken_of_accept (hmem : rule ∈ table) (h : rule.scan text = .accept n)
    (hfirst : ∀ other ∈ table, (other.kind, rule.kind) ∈ precedences → other.scan text = .pass)
    (position : Nat) : firstToken table position text = .ok (rule.kind, n) := by
  have hin : rule ∈ table.filter (contends text) :=
    List.mem_filter.2 ⟨hmem, contends_eq_true.2 (by simp [h])⟩
  have hdecides : ∃ more, table.filter (contends text) = rule :: more := by
    rcases filter_contends_cases text with hnil | ⟨other, hone⟩ | ⟨first, second, hpair, htwo⟩
    · simp [hnil] at hin
    · rw [hone, List.mem_singleton] at hin
      exact ⟨[], hin ▸ hone⟩
    · rw [htwo, List.mem_cons, List.mem_singleton] at hin
      rcases hin with rfl | rfl
      · exact ⟨_, htwo⟩
      · have hmem : first ∈ table.filter (contends text) := by simp [htwo]
        obtain ⟨hmem, hcontends⟩ := List.mem_filter.1 hmem
        exact absurd (hfirst first hmem hpair) (contends_eq_true.1 hcontends)
  obtain ⟨more, hlist⟩ := hdecides
  rw [firstToken_filter, hlist, firstToken]
  simp only [h]

/-- Where a rule decides, those that have precedence over it pass. -/
theorem pass_of_firstToken {kind : TokenKind} {other : Rule}
    (h : firstToken table position text = .ok (kind, n)) (hother : other ∈ table)
    (hpair : (other.kind, kind) ∈ precedences) : other.scan text = .pass := by
  -- no rule that has precedence over another gives it to a third one
  have hranks : ∀ pair ∈ precedences, ∀ pair' ∈ precedences, pair.2 ≠ pair'.1 := by decide
  have hdifferent : kind ≠ other.kind := hranks _ hpair _ hpair
  cases hscan : other.scan text with
  | pass => rfl
  | accept m =>
    rw [firstToken_of_accept hother hscan
      (fun _ _ hpair' => absurd rfl (hranks _ hpair' _ hpair)) position] at h
    simp only [Except.ok.injEq, Prod.mk.injEq] at h
    exact absurd h.1.symm hdifferent
  | reject opening =>
    obtain ⟨rule, hmem, rfl, haccept⟩ := mem_of_firstToken_eq_ok h
    have hin := kind_mem_contenders hmem (by simp [haccept] : rule.scan text ≠ .pass)
    rw [contenders_of_reject hother hscan, List.mem_singleton] at hin
    exact absurd hin hdifferent

end Rule

/-! ### Scanning by other tables -/

/-- Reads a lexeme by the first of some rules that does not pass. -/
def Lexeme.readBy (rules : List Rule) (position : Nat) (text : List Char) :
    Except ScanError Lexeme :=
  match Rule.firstToken rules position text with
  | .ok (kind, length) => .ok ⟨kind, position, text.take length⟩
  | .error error => .error error

/-- Moves to the next token by the first of some rules that does not pass. -/
def Scanner.advanceBy (rules : List Rule) (scanner : Scanner) : Except ScanError Scanner :=
  match Lexeme.readBy rules scanner.token.stop scanner.rest with
  | .ok lexeme =>
    .ok { scanner with
      token := lexeme.token
      rest := scanner.rest.drop lexeme.text.length }
  | .error error => .error error

/-- The scanner advances by the rules of the table. -/
theorem Scanner.advanceBy_table (scanner : Scanner) :
    scanner.advanceBy Rule.table = scanner.advance := rfl

open Rule in
/-- Of the order of the rules only six precedences matter. For each text that may be left, hence
for each position of each input, the rules that accept or reject there are at most one or one of
the six pairs, and one that rejects is the only one. So scanning goes on in the same way by any
reordering of the table that keeps the first of each pair before the second. -/
theorem order_of_table :
    (∀ text, (contenders text).length ≤ 1 ∨
      ∃ pair ∈ precedences, contenders text = [pair.1, pair.2]) ∧
    (∀ text, ∀ rule ∈ table, ∀ opening, rule.scan text = .reject opening →
      contenders text = [rule.kind]) ∧
    ∀ rules : List Rule, rules.Perm table →
      (∀ pair ∈ precedences, [pair.1, pair.2].Sublist (rules.map kind)) →
      ∀ scanner : Scanner, scanner.advanceBy rules = scanner.advance := by
  refine ⟨ranked_contenders, fun text rule hmem opening => contenders_of_reject hmem, ?_⟩
  intro rules hperm hkeeps scanner
  have hread : Lexeme.readBy rules scanner.token.stop scanner.rest =
      Lexeme.read scanner.token.stop scanner.rest := by
    rw [Lexeme.readBy, firstToken_eq_of_perm hperm hkeeps]
    rfl
  rw [← scanner.advanceBy_table, Scanner.advanceBy, Scanner.advanceBy, hread]
  rfl

open Rule in
/-- The rules that reject may be tried first, here in front of a set that is not closed. -/
theorem order_of_table_rejecting_first :
    ((table.drop 22).take 2 ++ (table.take 22 ++ table.drop 24)).Perm table ∧
    (∀ pair ∈ precedences, [pair.1, pair.2].Sublist
      (((table.drop 22).take 2 ++ (table.take 22 ++ table.drop 24)).map kind)) ∧
    (Scanner.ofString "[a").advanceBy ((table.drop 22).take 2 ++ (table.take 22 ++ table.drop 24)) =
      (Scanner.ofString "[a").advance := by
  have hperm : ((table.drop 22).take 2 ++ (table.take 22 ++ table.drop 24)).Perm table :=
    List.perm_append_comm_assoc _ _ _
  have hkeeps : ∀ pair ∈ precedences, [pair.1, pair.2].Sublist
      (((table.drop 22).take 2 ++ (table.take 22 ++ table.drop 24)).map kind) := by
    decide
  exact ⟨hperm, hkeeps, order_of_table.2.2 _ hperm hkeeps _⟩

end CommandSyntax
