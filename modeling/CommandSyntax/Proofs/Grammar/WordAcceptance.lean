import CommandSyntax.Proofs.Grammar.Derivation

/-!
# CommandSyntax.Proofs.Grammar.WordAcceptance

**What the grammar derives for a word is accepted.** If the kinds ahead of a cursor are a
member of the language of a symbol, followed by something that cannot go on with it, then
the production of the symbol succeeds and leaves what follows ahead.

Productions are greedy, and the grammar is not: text goes on for as long as there is
text (`accepts_unit`), and a word until nothing goes on with it (`accepts_argument`).
The rest of a word, from inside or outside a quotation, is a language too (`tail`), and
text in front of it can always be left out (`exists_of_texts`).
-/

namespace CommandSyntax.Production

open Cursor Computability

variable {c c' : Cursor} {context : Context} {bodies : Bool → Grammar.Kinds} {quoted : Bool}
  {inBackticks : Bool} {kind : TokenKind} {kinds word rest : List TokenKind}

/-- The scripts of a context accept the members of some languages. -/
def Accepts (context : Context) (bodies : Bool → Grammar.Kinds) : Prop :=
  ∀ inBackticks word rest c, word ∈ bodies inBackticks → c.Ahead (word ++ rest) →
    closes inBackticks (rest.headD .stop) = true →
    ∃ script body c', context.script? = some script ∧ script inBackticks c = .ok body c' ∧
      c'.Ahead rest

/-! ### Parts -/

theorem accepts_substitution (hbodies : Accepts context bodies) {opening closing : TokenKind}
    (hopening : opening ≠ .stop) (hclosing : closing ≠ .stop)
    (hcloses : closes inBackticks closing = true)
    (hword : word ∈ Grammar.token opening * bodies inBackticks * Grammar.token closing)
    (h : c.Ahead (word ++ rest)) :
    ∃ part c', c.current.kind = opening ∧
      substitution context opening closing inBackticks c = .ok part c' ∧ c'.Ahead rest := by
  obtain ⟨_, ⟨_, rfl, body, hbody, rfl⟩, _, rfl, rfl⟩ := hword
  simp only [List.append_assoc, List.singleton_append] at h
  obtain ⟨hkind, c₁, hopener, h₁⟩ := h.step
  obtain ⟨script, result, c₂, hscript, hok, h₂⟩ := hbodies _ _ _ _ hbody h₁ hcloses
  obtain ⟨hkind', c', hcloser, h'⟩ := h₂.step
  exact ⟨_, c', hkind, (substitution_eq_ok_iff hopening hclosing).2
    ⟨script, c₁, result, c₂, hscript, hkind, hopener, hok, hkind', hcloser, rfl⟩, h'⟩

theorem accepts_expansion (hword : word ∈ Grammar.expansion) (h : c.Ahead (word ++ rest)) :
    ∃ part c', c.current.kind = .startExpansion ∧ bracedParameter c = .ok part c' ∧
      c'.Ahead rest := by
  obtain ⟨_, ⟨_, rfl, name, hname, rfl⟩, _, rfl, rfl⟩ := hword
  obtain ⟨hne, hbrace⟩ := Grammar.mem_plus_anyBut_iff.1 hname
  have hkind : c.current.kind = .startExpansion := by simpa using h.kind_eq
  obtain ⟨lexemes, c', hpasses, hmap, h'⟩ := h.passes
  obtain ⟨_, _, rfl, hfront, hcloser⟩ := List.map_eq_append_iff.1 hmap
  obtain ⟨_, body, rfl, hback, rfl⟩ := List.map_eq_append_iff.1 hfront
  obtain ⟨opener, rfl, hopener⟩ := List.map_eq_singleton_iff.1 hback
  obtain ⟨closer, rfl, hclosing⟩ := List.map_eq_singleton_iff.1 hcloser
  exact ⟨_, c', hkind, (bracedParameter_eq_ok_iff h.placed).2
    ⟨opener, body, closer, by simpa using hpasses, hopener, by simpa using hne,
      fun lexeme hmem => hbrace _ (List.mem_map_of_mem hmem), hclosing, rfl⟩, h'⟩

/-- What is neither text nor a wildcard is one part. -/
theorem accepts_reference (hbodies : Accepts context bodies)
    (hword : word ∈ Grammar.reference bodies context.inBackticks) (h : c.Ahead (word ++ rest)) :
    ∃ part c', part? context quoted c = .ok (some part) c' ∧ c'.Ahead rest := by
  rcases hword with (rfl | hword) | hword | hword
  · obtain ⟨hkind, c', hpasses, h'⟩ := h.step
    exact ⟨_, c', (part?_eq_ok_iff h.placed).2 (.parameter hkind hpasses), h'⟩
  · obtain ⟨part, c', hkind, hok, h'⟩ := accepts_expansion hword h
    exact ⟨part, c', (part?_eq_ok_iff h.placed).2 (.braced hkind hok), h'⟩
  · obtain ⟨part, c', hkind, hok, h'⟩ :=
      accepts_substitution hbodies (by simp) (by simp) rfl hword h
    exact ⟨part, c', (part?_eq_ok_iff h.placed).2 (.parentheses hkind hok), h'⟩
  · cases hcontext : context.inBackticks with
    | true =>
      rw [hcontext] at hword
      exact absurd hword (Language.notMem_zero word)
    | false =>
      rw [hcontext] at hword
      obtain ⟨part, c', hkind, hok, h'⟩ :=
        accepts_substitution hbodies (by simp) (by simp) rfl hword h
      exact ⟨part, c', (part?_eq_ok_iff h.placed).2 (.backticks hkind hcontext hok), h'⟩

/-! ### Where parts start -/

theorem exists_cons_of_mem_reference (quoted : Bool)
    (h : word ∈ Grammar.reference bodies inBackticks) :
    ∃ kind back, word = kind :: back ∧ startsPart inBackticks quoted kind = true := by
  rcases h with (rfl | hword) | hword | hword
  · exact ⟨_, _, rfl, rfl⟩
  · obtain ⟨_, ⟨_, rfl, name, -, rfl⟩, _, rfl, rfl⟩ := hword
    exact ⟨_, _, rfl, rfl⟩
  · obtain ⟨_, ⟨_, rfl, body, -, rfl⟩, _, rfl, rfl⟩ := hword
    exact ⟨_, _, rfl, rfl⟩
  · cases inBackticks with
    | true => exact absurd hword (Language.notMem_zero word)
    | false =>
      obtain ⟨_, ⟨_, rfl, body, -, rfl⟩, _, rfl, rfl⟩ := hword
      exact ⟨_, _, rfl, rfl⟩

theorem mem_unit_iff :
    word ∈ unit bodies inBackticks quoted ↔
      word ∈ Grammar.reference bodies inBackticks ∨
        (∃ kind, isText quoted kind = true ∧ word = [kind]) ∨
        ∃ kind, quoted = false ∧ kind ∈ [.globStar, .globOne, .globCharset] ∧ word = [kind] := by
  have htext (kinds : List TokenKind) (h : ∀ kind, isText quoted kind = true ↔ kind ∈ kinds) :
      word ∈ Grammar.oneOf kinds ↔ ∃ kind, isText quoted kind = true ∧ word = [kind] := by
    simp only [Grammar.mem_oneOf, h]
  cases quoted with
  | false =>
    simp only [unit, Grammar.bare, Language.mem_add,
      htext [.singleQuoted, .assignmentLhs, .raw] (by intro kind; cases kind <;> decide)]
    simp only [Grammar.mem_oneOf, true_and, or_assoc]
    exact or_congr_right or_comm
  | true =>
    simp only [unit, Grammar.quoted, Language.mem_add]
    rw [htext _ (by intro kind; cases kind <;> decide)]
    simp

/-- A part that starts with text is that text. -/
theorem exists_cons_of_mem_unit (h : word ∈ unit bodies inBackticks quoted) :
    ∃ kind back, word = kind :: back ∧ (startsPart inBackticks quoted kind = true ∨
      isText quoted kind = true ∧ back = []) := by
  rcases mem_unit_iff.1 h with hword | ⟨kind, hkind, rfl⟩ | ⟨kind, rfl, hkind, rfl⟩
  · obtain ⟨kind, back, rfl, hkind⟩ := exists_cons_of_mem_reference quoted hword
    exact ⟨kind, back, rfl, .inl hkind⟩
  · exact ⟨kind, [], rfl, .inr ⟨hkind, rfl⟩⟩
  · refine ⟨kind, [], rfl, .inl ?_⟩
    cases kind <;> simp_all [startsPart]

/-- A segment starts with something that goes on with a word. When that is text, the segment is
no more than it. -/
theorem exists_cons_of_mem_segment (h : word ∈ Grammar.segment bodies inBackticks) :
    ∃ kind back, word = kind :: back ∧ inWord inBackticks kind = true ∧
      (isText false kind = true → back = []) := by
  rcases h with hbare | ⟨_, ⟨_, rfl, inner, -, rfl⟩, _, rfl, rfl⟩
  · have hunit : word ∈ unit bodies inBackticks false := hbare
    obtain ⟨kind, back, rfl, hstarts | ⟨htext, rfl⟩⟩ := exists_cons_of_mem_unit hunit
    · refine ⟨kind, back, rfl, by simp [inWord, hstarts], fun htext => ?_⟩
      exact absurd htext (Bool.eq_false_iff.1 (isText_eq_false_of_startsPart hstarts))
    · exact ⟨kind, [], rfl, by simp [inWord, htext], fun _ => rfl⟩
  · exact ⟨_, _, rfl, by simp [inWord], by simp [isText]⟩

/-- Text is one part with all the text after it. -/
theorem accepts_text (hkind : isText quoted kind = true) (h : c.Ahead (kind :: kinds)) :
    ∃ texts back part c', kinds = texts ++ back ∧ (∀ kind ∈ texts, isText quoted kind = true) ∧
      part? context quoted c = .ok (some part) c' ∧ c'.Ahead back := by
  have htexts : ∀ other ∈ kinds.takeWhile (isText quoted), isText quoted other = true :=
    fun other hmem => List.all_eq_true.1 List.all_takeWhile other hmem
  have hsplit : kind :: kinds =
      (kind :: kinds.takeWhile (isText quoted)) ++ kinds.dropWhile (isText quoted) := by simp
  obtain ⟨lexemes, c', hpasses, hmap, h'⟩ := Ahead.passes (hsplit ▸ h)
  have hlexemes : ∀ lexeme ∈ lexemes, isText quoted lexeme.kind = true := by
    intro lexeme hmem
    rcases List.mem_cons.1 (hmap ▸ List.mem_map_of_mem (f := Lexeme.kind) hmem) with hfirst | hmem
    · rwa [hfirst]
    · exact htexts _ hmem
  have hstops : isText quoted c'.current.kind = false := by
    rw [h'.kind_eq]
    cases hback : kinds.dropWhile (isText quoted) with
    | nil => cases quoted <;> rfl
    | cons other back =>
      have := List.head_dropWhile_not (isText quoted) (l := kinds) (by simp [hback])
      simpa [hback] using this
  have hliteral : Part.literal? (String.ofList (lexemes.flatMap (textOf quoted))) ≠ none := by
    intro hnone
    have hempty :=
      Tame.eq_nil_of_blank ⟨_, h⟩ hpasses ((literal?_ofList_eq_none_iff hlexemes).1 hnone)
    simp [hempty] at hmap
  obtain ⟨part, hpart⟩ := Option.ne_none_iff_exists'.1 hliteral
  have hstart : startsPart context.inBackticks quoted c.current.kind = false := by
    rw [h.kind_eq]
    refine Bool.eq_false_iff.2 fun hstarts => ?_
    exact absurd hkind (Bool.eq_false_iff.1 (isText_eq_false_of_startsPart hstarts))
  refine ⟨_, _, part, c', List.takeWhile_append_dropWhile.symm, htexts,
    (part?_eq_ok_iff h.placed).2 (.text hstart ?_), h'⟩
  exact (text?_eq_ok_iff h.placed).2 ⟨lexemes, hpasses, hlexemes, hstops, hpart.symm⟩

/-- A part, with all the text after it when it is text. -/
theorem accepts_unit (hbodies : Accepts context bodies)
    (hword : word ∈ unit bodies context.inBackticks quoted) (h : c.Ahead (word ++ rest)) :
    ∃ texts back part c', rest = texts ++ back ∧ (∀ kind ∈ texts, isText quoted kind = true) ∧
      part? context quoted c = .ok (some part) c' ∧ c'.Ahead back := by
  rcases mem_unit_iff.1 hword with hword | ⟨kind, hkind, rfl⟩ | ⟨kind, hquoted, hkind, rfl⟩
  · obtain ⟨part, c', hpart, h'⟩ := accepts_reference hbodies hword h
    exact ⟨[], rest, part, c', rfl, by simp, hpart, h'⟩
  · exact accepts_text hkind h
  · obtain ⟨hcurrent, c', hpasses, h'⟩ := h.step
    have hpart {part : Part} (hpart : PartAt context quoted c (some part) c') :
        ∃ texts back part c', rest = texts ++ back ∧ (∀ kind ∈ texts, isText quoted kind = true) ∧
          part? context quoted c = .ok (some part) c' ∧ c'.Ahead back :=
      ⟨[], rest, part, c', rfl, by simp, (part?_eq_ok_iff h.placed).2 hpart, h'⟩
    obtain rfl | rfl | rfl : kind = .globStar ∨ kind = .globOne ∨ kind = .globCharset := by
      simpa using hkind
    · exact hpart (.star hquoted hcurrent hpasses)
    · exact hpart (.one hquoted hcurrent hpasses)
    · exact hpart (.charset hquoted hcurrent hpasses)

/-! ### Words -/

/-- The quotes that open or close a quotation, or none. -/
def quotes (toggled : Bool) : List TokenKind := if toggled then [.doubleQuote] else []

theorem accepts_quotes (quoted toggled : Bool) (h : c.Ahead (quotes toggled ++ kinds))
    (hkinds : kinds.headD .stop ≠ .doubleQuote) :
    ∃ c', toggleQuotes quoted c = .ok (quoted ^^ toggled) c' ∧ c'.Ahead kinds := by
  obtain ⟨lexemes, c', hpasses, hmap, h'⟩ := h.passes
  refine ⟨c', (toggleQuotes_eq_ok_iff h.placed).2
    ⟨lexemes, hpasses, fun lexeme hmem => ?_, h'.kind_eq ▸ hkinds, ?_⟩, h'⟩
  · have hkind := hmap ▸ List.mem_map_of_mem (f := Lexeme.kind) hmem
    cases toggled <;> simp_all [quotes]
  · have hlength := congrArg List.length hmap
    cases toggled <;> simp_all [quotes]

/-- A word ends behind the quote that closes its quotation, if one is open. -/
theorem endsWord_of_ahead (quoted : Bool) (h : c.Ahead (quotes quoted ++ rest))
    (hrest : inWord inBackticks (rest.headD .stop) = false) :
    ∃ c', EndsWord inBackticks quoted c c' ∧ c'.Ahead rest := by
  obtain ⟨lexemes, c', hpasses, hmap, h'⟩ := h.passes
  have hend : inWord inBackticks c'.current.kind = false := h'.kind_eq ▸ hrest
  refine ⟨c', ⟨⟨lexemes, [], by simpa using hpasses, fun lexeme hmem => ?_, ?_, by simp,
    fun _ => hend⟩, ?_⟩, h'⟩
  · have hkind := hmap ▸ List.mem_map_of_mem (f := Lexeme.kind) hmem
    cases quoted <;> simp_all [quotes]
  · have hlength := congrArg List.length hmap
    cases quoted <;> simp_all [quotes]
  · simp only [inWord, Bool.or_eq_false_iff] at hend
    exact hend.1.2

/-- The rest of a word is a closing quote or nothing, or it goes on with a part. -/
theorem cases_of_mem_tail (hapart : QuotesApart word)
    (h : word ∈ tail bodies inBackticks quoted) :
    word = quotes quoted ∨ ∃ toggled front back, word = quotes toggled ++ (front ++ back) ∧
      front ∈ unit bodies inBackticks (quoted ^^ toggled) ∧
      back ∈ tail bodies inBackticks (quoted ^^ toggled) := by
  have hsegments {word : List TokenKind} (h : word ∈ tail bodies inBackticks false) :
      word = [] ∨ (∃ front back, word = front ++ back ∧ front ∈ unit bodies inBackticks false ∧
        back ∈ tail bodies inBackticks false) ∨
      ∃ front back, word = .doubleQuote :: (front ++ back) ∧
        front ∈ unit bodies inBackticks true ∧ back ∈ tail bodies inBackticks true := by
    rcases Grammar.mem_kstar_iff_cons.1 h with rfl | ⟨first, hfirst | hfirst, back, hback, rfl⟩
    · exact .inl rfl
    · exact .inr (.inl ⟨first, back, rfl, hfirst, hback⟩)
    · obtain ⟨_, ⟨_, rfl, _, ⟨front, hfront, more, hmore, rfl⟩, rfl⟩, _, rfl, rfl⟩ := hfirst
      refine .inr (.inr ⟨front, more ++ [.doubleQuote] ++ back, by simp, hfront, ?_⟩)
      exact Language.append_mem_mul (Language.append_mem_mul hmore rfl) hback
  cases quoted with
  | false =>
    obtain rfl | ⟨front, back, rfl, hfront, hback⟩ | ⟨front, back, rfl, hfront, hback⟩ :=
      hsegments h
    · exact .inl rfl
    · exact .inr ⟨false, front, back, rfl, hfront, hback⟩
    · exact .inr ⟨true, front, back, rfl, hfront, hback⟩
  | true =>
    obtain ⟨_, ⟨more, hmore, _, rfl, rfl⟩, back, hback, rfl⟩ := h
    rcases Grammar.mem_kstar_iff_cons.1 hmore with rfl | ⟨front, hfront, more, hmore', rfl⟩
    · -- the quotation is closed at once, and no quotation can be opened right behind the quote
      rcases hsegments hback with rfl | ⟨front, back, rfl, hfront, hback⟩ | ⟨front, back, rfl, -, -⟩
      · exact .inl rfl
      · exact .inr ⟨true, front, back, rfl, hfront, hback⟩
      · exact absurd ⟨rfl, rfl⟩ (List.isChain_cons_cons.1 hapart).1
    · refine .inr ⟨false, front, more ++ [.doubleQuote] ++ back, by simp [quotes], hfront, ?_⟩
      exact Language.append_mem_mul (Language.append_mem_mul hmore' rfl) hback

/-- Text in front of the rest of a word can be left out. -/
theorem mem_tail_of_isText (hapart : QuotesApart (kind :: word))
    (hkind : isText quoted kind = true) (h : kind :: word ∈ tail bodies inBackticks quoted) :
    word ∈ tail bodies inBackticks quoted := by
  rcases cases_of_mem_tail hapart h with hend | ⟨toggled, front, back, heq, hfront, hback⟩
  · cases quoted <;> simp_all [quotes, isText]
  · obtain ⟨first, more, rfl, hfirst⟩ := exists_cons_of_mem_unit hfront
    cases toggled with
    | true =>
      obtain ⟨rfl, -⟩ := List.cons.inj heq
      cases quoted <;> simp [isText] at hkind
    | false =>
      obtain ⟨rfl, rfl⟩ := List.cons.inj heq
      rw [Bool.xor_false] at hfirst hback
      rcases hfirst with hstarts | ⟨-, rfl⟩
      · exact absurd hkind (Bool.eq_false_iff.1 (isText_eq_false_of_startsPart hstarts))
      · exact hback

/-- A run of text at the rest of a word stays within the word. -/
theorem exists_of_texts (hrest : inWord inBackticks (rest.headD .stop) = false)
    {texts back : List TokenKind} (htexts : ∀ kind ∈ texts, isText quoted kind = true)
    (hapart : QuotesApart word) (hword : word ∈ tail bodies inBackticks quoted)
    (heq : word ++ rest = texts ++ back) :
    ∃ word', word = texts ++ word' ∧ back = word' ++ rest ∧
      word' ∈ tail bodies inBackticks quoted := by
  induction texts generalizing word with
  | nil => exact ⟨word, rfl, heq.symm, hword⟩
  | cons text texts ih =>
    obtain ⟨htext, hmore⟩ := List.forall_mem_cons.1 htexts
    cases word with
    | nil =>
      -- the word is over, so no quotation is open and no text follows
      rcases cases_of_mem_tail hapart hword with hend | ⟨toggled, front, back, heq', hfront, -⟩
      · cases quoted with
        | true => simp [quotes] at hend
        | false =>
          obtain rfl : rest = text :: (texts ++ back) := heq
          simp [inWord, htext] at hrest
      · obtain ⟨first, more, rfl, -⟩ := exists_cons_of_mem_unit hfront
        simp at heq'
    | cons kind word =>
      obtain ⟨rfl, hmore'⟩ := List.cons.inj heq
      obtain ⟨word', rfl, rfl, hword'⟩ :=
        ih hmore hapart.of_cons (mem_tail_of_isText hapart htext hword) hmore'
      exact ⟨word', rfl, rfl, hword'⟩

/-- The rest of a word is read up to what does not go on with it. -/
theorem accepts_tail (hbodies : Accepts context bodies)
    (hword : word ∈ tail bodies context.inBackticks quoted) (h : c.Ahead (word ++ rest))
    (hrest : inWord context.inBackticks (rest.headD .stop) = false) :
    ∃ parts c', PartsFrom context quoted c parts c' ∧ c'.Ahead rest := by
  induction hn : word.length using Nat.strongRecOn generalizing word quoted c with
  | ind n ih =>
    have hapart : QuotesApart word := h.quotesApart.left_of_append
    rcases cases_of_mem_tail hapart hword with rfl | ⟨toggled, front, back, rfl, hfront, hback⟩
    · obtain ⟨c', hends, h'⟩ := endsWord_of_ahead quoted h hrest
      exact ⟨[], c', .done hends, h'⟩
    · obtain ⟨first, more, rfl, hfirst⟩ := exists_cons_of_mem_unit hfront
      rw [List.append_assoc, List.append_assoc] at h
      have hquote : first ≠ .doubleQuote := by
        rintro rfl
        simp [startsPart, isText] at hfirst
      obtain ⟨c₁, htoggle, h₁⟩ := accepts_quotes quoted toggled h hquote
      -- the part may take text along that the grammar derives as further parts
      obtain ⟨texts, after, part, c₂, heq, htexts, hpart, h₂⟩ := accepts_unit hbodies hfront h₁
      obtain ⟨back, rfl, rfl, hback'⟩ := exists_of_texts hrest htexts
        hapart.right_of_append.right_of_append hback heq
      obtain ⟨parts, c', hparts, h'⟩ := ih _ (by simp [← hn]; omega) hback' h₂ rfl
      exact ⟨_, c', .part htoggle hpart hparts, h'⟩

/-- A word takes all adjacent segments. -/
theorem accepts_argument (hcontext : ContextOrderly context) (hbodies : Accepts context bodies)
    (hword : word ∈ (Grammar.segment bodies context.inBackticks)∗) (hne : word ≠ [])
    (h : c.Ahead (word ++ rest)) (hrest : inWord context.inBackticks (rest.headD .stop) = false) :
    ∃ result c', word? context c = .ok (some result) c' ∧ c'.Ahead rest := by
  have htail : word ∈ tail bodies context.inBackticks false := hword
  obtain ⟨parts, c', hparts, h'⟩ := accepts_tail hbodies htail h hrest
  refine ⟨⟨parts, c.current.start, c'.lastEnd⟩, c',
    (word?_eq_some_iff hcontext h.placed).2 ⟨hparts, ?_, rfl⟩, h'⟩
  -- without parts the word would end where a segment starts
  rintro rfl
  cases hparts with
  | done hends =>
    obtain ⟨rfl, hend⟩ := eq_of_endsWord ⟨_, h⟩ hends
    rcases Grammar.mem_kstar_iff_cons.1 hword with rfl | ⟨front, hfront, back, -, rfl⟩
    · exact hne rfl
    · obtain ⟨kind, more, rfl, hkind, -⟩ := exists_cons_of_mem_segment hfront
      rw [h.kind_eq] at hend
      exact absurd hkind (Bool.eq_false_iff.1 hend)
end CommandSyntax.Production
