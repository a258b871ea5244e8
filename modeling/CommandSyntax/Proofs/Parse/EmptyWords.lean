import CommandSyntax.Proofs.Grammar.Alone
import CommandSyntax.Proofs.Parse.RoundTrip
import CommandSyntax.Script.Equality

/-!
# CommandSyntax.Proofs.Parse.EmptyWords

**What a pair of quotes with nothing between them does to the words around it.** Among words
of letters, with any blank between each two, it adds nothing, but it ends the run of words that it
stands in. Behind a word that is all it does: the next round of the command takes up the words
behind it. Where no word stands before it in its round, the round has found nothing, and the
command ends. Then the words behind it are unheard (`SimpleWord.unheard`), and the first of them
is a trailing token.

So a line of such words parses to the words that mean something exactly when no word is unheard
(`parse_line`), and `'' x` is an error (`exists_unheard_word`).
-/

namespace CommandSyntax

open Production Cursor

/-! ### Lines of words -/

/-- A word of letters, or a pair of quotes with nothing between them. -/
inductive SimpleWord where
  /-- Letters without quotes. -/
  | letters (text : List Char) (h : text ≠ [] ∧ ∀ c ∈ text, c.isAlpha = true)
  /-- Two single quotes. -/
  | singleQuotes
  /-- Two double quotes. -/
  | doubleQuotes

/-- A word with a blank before it. -/
structure SpacedWord where
  /-- The blank. -/
  blank : Char
  /-- It is one. -/
  isBlank_blank : isBlank blank = true
  /-- The word behind it. -/
  word : SimpleWord

/-- A command of words only, which have the given texts. -/
def Command.Runs (command : Command) (words : List String) : Prop :=
  command.assignments = [] ∧ command.targets = [] ∧
    command.arguments.map Word.text? = words.map some

/-- A script of one command of the given words, or of no statement when there are none. -/
def Script.Runs (script : Script) (words : List String) : Prop :=
  (words = [] ∧ script.statements = []) ∨
    ∃ command span, words ≠ [] ∧ script = .ofCommand command span ∧ command.Runs words

namespace SimpleWord

/-- The word as it is written. -/
def text : SimpleWord → List Char
  | letters text _ => text
  | singleQuotes => ['\'', '\'']
  | doubleQuotes => ['"', '"']

/-- The text that the word stands for, if any. -/
def meaning? : SimpleWord → Option String
  | letters text _ => some (String.ofList text)
  | _ => none

/-- The first token of the word: its kind and its characters. -/
def leading : SimpleWord → TokenKind × List Char
  | letters text _ => (.raw, text)
  | singleQuotes => (.singleQuoted, ['\'', '\''])
  | doubleQuotes => (.doubleQuote, ['"'])

/-- Words with their blanks before them. -/
def behind (words : List SpacedWord) : List Char :=
  words.flatMap fun spaced => spaced.blank :: spaced.word.text

/-- Words with one blank between each two of them. The blank of the first is not written. -/
def line : List SpacedWord → List Char
  | [] => []
  | first :: more => first.word.text ++ behind more

theorem line_cons (first : SpacedWord) (more : List SpacedWord) :
    line (first :: more) = first.word.text ++ behind more := rfl

theorem behind_cons (spaced : SpacedWord) (more : List SpacedWord) :
    behind (spaced :: more) = spaced.blank :: line (spaced :: more) := rfl

/-! ### Which words are heard -/

/-- The words that a command leaves unread, where `fresh` says that no word has been read since
its round began. A word without meaning ends a round, and the command with it if the round is
still fresh. -/
def unheard (fresh : Bool) : List SpacedWord → List SpacedWord
  | [] => []
  | spaced :: words =>
    match spaced.word.meaning?, fresh with
    | some _, _ => unheard false words
    | none, true => words
    | none, false => unheard true words

/-- The words up to the first one without meaning. -/
def run (words : List SpacedWord) : List SpacedWord := words.takeWhile (·.word.meaning?.isSome)

/-- The words behind the first one without meaning. -/
def afterRun (words : List SpacedWord) : List SpacedWord :=
  (words.dropWhile (·.word.meaning?.isSome)).tail

theorem unheard_false (words : List SpacedWord) :
    unheard false words = unheard true (afterRun words) := by
  induction words with
  | nil => rfl
  | cons spaced words ih => cases h : spaced.word.meaning? <;> simp_all [unheard, afterRun]

theorem unheard_true {words : List SpacedWord} (h : run words ≠ []) :
    unheard true words = unheard true (afterRun words) := by
  cases words with
  | nil => rfl
  | cons spaced words =>
    cases hmeaning : spaced.word.meaning? with
    | none => simp [run, hmeaning] at h
    | some text =>
      have hafter : afterRun (spaced :: words) = afterRun words := by simp [afterRun, hmeaning]
      rw [hafter, ← unheard_false]
      simp [unheard, hmeaning]

theorem unheard_of_run_eq_nil {words : List SpacedWord} (h : run words = []) :
    unheard true words = afterRun words := by
  cases words with
  | nil => rfl
  | cons spaced words =>
    cases hmeaning : spaced.word.meaning? with
    | none => simp [unheard, afterRun, hmeaning]
    | some text => simp [run, hmeaning] at h

/-- The meanings of some words, without those that mean nothing. -/
def meanings (words : List SpacedWord) : List String := words.filterMap (·.word.meaning?)

/-- Every word of a run means something. -/
theorem meanings_run_eq_nil_iff {words : List SpacedWord} :
    meanings (run words) = [] ↔ run words = [] := by
  cases words with
  | nil => simp [meanings, run]
  | cons spaced words => cases h : spaced.word.meaning? <;> simp [meanings, run, h]

theorem meanings_eq (words : List SpacedWord) :
    meanings words = meanings (run words) ++ meanings (afterRun words) := by
  induction words with
  | nil => rfl
  | cons spaced words ih => cases h : spaced.word.meaning? <;> simp_all [meanings, run, afterRun]

theorem length_afterRun_lt {words : List SpacedWord} (h : words ≠ []) :
    (afterRun words).length < words.length := by
  have hle : (words.dropWhile (·.word.meaning?.isSome)).length ≤ words.length :=
    (List.dropWhile_sublist _).length_le
  have hpos := List.length_pos_iff.2 h
  rw [afterRun, List.length_tail]
  omega

/-! ### What is read of a word -/

theorem ne_of_leading (word : SimpleWord) :
    word.leading.1 ∈ [.raw, .singleQuoted, .doubleQuote] := by
  cases word <;> simp [leading]

theorem beginsDelimited_behind (words : List SpacedWord) : BeginsDelimited (behind words) := by
  cases words with
  | nil => simp [BeginsDelimited, behind]
  | cons spaced words => exact beginsDelimited_cons (isDelimiter_of_isBlank spaced.isBlank_blank)

theorem isName_of_letters {text : List Char} (h : text ≠ [] ∧ ∀ c ∈ text, c.isAlpha = true) :
    IsName text :=
  ⟨h.1, fun c hc => by simp [isNameChar, Char.isAlphanum, h.2 c hc]⟩

theorem cuts_leading (word : SimpleWord) {rest : List Char} (hrest : BeginsDelimited rest) :
    ∃ more, word.text = word.leading.2 ++ more ∧
      Cuts word.leading.1 word.leading.2 (more ++ rest) := by
  cases word with
  | letters text h =>
    exact ⟨[], (List.append_nil text).symm, cuts_raw (isName_of_letters h) hrest⟩
  | singleQuotes => exact ⟨[], rfl, cuts_singleQuoted [] rest⟩
  | doubleQuotes => exact ⟨['"'], rfl, cuts_of_mem_marks (by simp [marks, leading])⟩

theorem heads_text (word : SimpleWord) {rest : List Char} (hrest : BeginsDelimited rest) :
    Heads word.leading.1 (word.text ++ rest) := by
  obtain ⟨more, htext, hcuts⟩ := word.cuts_leading hrest
  rw [htext, List.append_assoc]
  exact hcuts.heads

theorem heads_line (first : SpacedWord) (words : List SpacedWord) :
    Heads first.word.leading.1 (line (first :: words)) := by
  rw [line_cons]
  exact first.word.heads_text (beginsDelimited_behind words)

/-- The first token of a line is that of its first word. -/
theorem current_of_faces {first : SpacedWord} {words : List SpacedWord} {c : Cursor}
    (h : c.Faces (line (first :: words))) :
    c.current = ⟨first.word.leading.1, c.current.start, first.word.leading.2⟩ := by
  obtain ⟨rest, htext, hcuts⟩ := first.word.cuts_leading (beginsDelimited_behind words)
  have hfront : c.Stands (first.word.leading.2 ++ (rest ++ behind words)) := by
    rw [← List.append_assoc, ← htext, ← line_cons]
    exact h.stands
  exact (hfront.current_eq (List.append_ne_nil_of_left_ne_nil hcuts.1 _) (hcuts.2 _)).1

/-- The kind of the token behind a word, by the words behind it. -/
def kindBehind : List SpacedWord → TokenKind
  | [] => .stop
  | _ :: _ => .whitespace

theorem heads_behind (words : List SpacedWord) : Heads (kindBehind words) (behind words) := by
  cases words with
  | nil => exact heads_nil
  | cons spaced words =>
    rw [behind_cons]
    refine (cuts_blank spaced.isBlank_blank (heads_line spaced words) ?_).heads
    exact ne_of_mem_of_not_mem spaced.word.ne_of_leading (by simp)

theorem kindBehind_ends (words : List SpacedWord) (inBackticks : Bool) :
    inWord inBackticks (kindBehind words) = false := by
  cases words <;> rfl

/-- Behind a word the blank is skipped, if there is one. -/
theorem skips_behind {words : List SpacedWord} {c : Cursor} (h : c.Faces (behind words)) :
    ∃ c', c.Skips c' ∧ c'.Faces (line words) := by
  cases words with
  | nil => exact ⟨c, h.stands.skips heads_nil (by simp), h⟩
  | cons spaced words =>
    rw [behind_cons] at h
    exact h.skips_blank spaced.isBlank_blank (heads_line spaced words)
      (ne_of_mem_of_not_mem spaced.word.ne_of_leading (by simp))

section Reading

variable {context : Context} (hcontext : ContextOrderly context)
include hcontext

/-- A word is read to its end, and gives what it means. -/
theorem word?_of_faces (word : SimpleWord) {words : List SpacedWord} {c : Cursor}
    (h : c.Faces (word.text ++ behind words)) :
    ∃ result c', word? context c = .ok result c' ∧
      result.map Word.text? = word.meaning?.map some ∧ c'.Faces (behind words) := by
  have hheads := heads_behind words
  have hinWord {d : Cursor} (hd : d.Faces (behind words)) :
      inWord context.inBackticks d.current.kind = false := by
    rw [hd.stands.kind_eq hheads]
    exact kindBehind_ends words _
  cases word with
  | letters text hletters =>
    obtain ⟨hkind, htext, c', hpasses, h'⟩ :=
      h.cut (cuts_raw (isName_of_letters hletters) (beginsDelimited_behind words)) hheads
    have hmeans : textOf false c.current = text := by
      have hbackslash : '\\' ∉ text := fun hmem => by simpa using hletters.2 _ hmem
      simp [textOf, textOf?, hkind, htext, SimpleWord.text, Quoting.plain_eq_self hbackslash]
    obtain ⟨hword, -⟩ := word?_of_text hcontext h.stands.placed hpasses
      (by simp [hkind, isText]) (by simpa using hmeans) hletters.1 (hinWord h')
    exact ⟨_, c', hword, by simp [Word.text?, Part.text?, meaning?], h'⟩
  | singleQuotes =>
    obtain ⟨hkind, htext, c', hpasses, h'⟩ := h.cut (cuts_singleQuoted [] (behind words)) hheads
    have hblank : IsBlankText false c.current := by
      simp [IsBlankText, isText, textOf, textOf?, hkind, htext, SimpleWord.text,
        Production.inside, Quoting.single]
    have hends : EndsWord context.inBackticks false c c' :=
      ⟨⟨[], [c.current], hpasses, by simp, by simp, by simpa using hblank, by simp⟩,
        (endsWord_self (hinWord h')).isText_eq_false⟩
    exact ⟨none, c', (word?_eq_none_iff hcontext h.stands.placed).2 hends, rfl, h'⟩
  | doubleQuotes =>
    have hquote {rest : List Char} : Cuts .doubleQuote ['"'] rest :=
      cuts_of_mem_marks (by simp [marks])
    have hfront : c.Faces (['"'] ++ (['"'] ++ behind words)) := h
    obtain ⟨hkind, -, c₁, hopening, h₁⟩ := hfront.cut hquote hquote.heads
    obtain ⟨hkind₁, -, c', hclosing, h'⟩ := h₁.cut hquote hheads
    have hends : EndsWord context.inBackticks false c c' :=
      ⟨⟨[c.current, c₁.current], [], hopening.trans hclosing, by simp [hkind, hkind₁],
        by simp, by simp, fun _ => hinWord h'⟩, (endsWord_self (hinWord h')).isText_eq_false⟩
    exact ⟨none, c', (word?_eq_none_iff hcontext h.stands.placed).2 hends, rfl, h'⟩

/-- A run of words ends behind the first one that means nothing. -/
theorem words_of_faces (words : List SpacedWord) {c : Cursor} (h : c.Faces (line words)) :
    ∃ items c', Gathers (MoreWords context) (LastWords context) c items c' ∧
      items.map Word.text? = (meanings (run words)).map some ∧
      c'.Faces (behind (afterRun words)) := by
  induction words generalizing c with
  | nil =>
    have hstop : c.current.kind = .stop := h.stands.kind_eq heads_nil
    have hword := word?_of_inWord_eq_false hcontext h.stands.placed (by rw [hstop]; rfl)
    exact ⟨[], c, .done (.inl ⟨rfl, hword⟩), rfl, h⟩
  | cons spaced words ih =>
    rw [line_cons] at h
    obtain ⟨result, c₁, hword, hmeaning, h₁⟩ := spaced.word.word?_of_faces hcontext h
    cases hnone : spaced.word.meaning? with
    | none =>
      obtain rfl : result = none := by simpa [hnone] using hmeaning
      exact ⟨[], c₁, .done (.inl ⟨rfl, hword⟩), by simp [run, meanings, hnone],
        by simpa [afterRun, hnone] using h₁⟩
    | some text =>
      rw [hnone, Option.map_some] at hmeaning
      obtain ⟨item, rfl, htext⟩ := Option.map_eq_some_iff.1 hmeaning
      have hkind := h₁.stands.kind_eq (heads_behind words)
      cases words with
      | nil =>
        exact ⟨[item], c₁, .done (.inr ⟨item, rfl, hword, by simp [hkind, kindBehind]⟩),
          by simp [run, meanings, hnone, htext], by simpa [afterRun, hnone] using h₁⟩
      | cons next rest =>
        obtain ⟨c₂, hskip, h₂⟩ := skips_behind h₁
        obtain ⟨items, c', hgathers, hitems, h'⟩ := ih h₂
        refine ⟨[item] ++ items, c', .yield ⟨item, c₁, rfl, hword, hkind, hskip⟩ hgathers, ?_, ?_⟩
        · have hrun : meanings (run (spaced :: next :: rest)) =
              text :: meanings (run (next :: rest)) := by
            simp [meanings, run, List.takeWhile_cons, hnone]
          simp [hrun, hitems, htext]
        · simpa [afterRun, hnone] using h'

/-- The rounds of a command take up runs of words, until one of them has none. -/
theorem loops_of_faces {words : List SpacedWord} {c c₁ : Cursor} (hc : c.Placed)
    (hskip : c.Skips c₁) (h : c₁.Faces (line words)) (command : Command) :
    ∃ arguments c', Loops (commandRound context) command c
        { command with arguments := command.arguments ++ arguments } c' ∧
      c'.Faces (behind (unheard true words)) ∧
      (unheard true words = [] → arguments.map Word.text? = (meanings words).map some) := by
  induction hn : words.length using Nat.strongRecOn generalizing words c c₁ command with
  | ind n ih =>
    subst hn
    have hc₁ := hskip.placed hc
    have hredirection : Redirection.ofKind? c₁.current.kind = none := by
      cases words with
      | nil => rw [h.stands.kind_eq heads_nil]; rfl
      | cons spaced words =>
        rw [h.stands.kind_eq (heads_line spaced words)]
        cases spaced.word <;> rfl
    obtain ⟨items, c₂, hgathers, hitems, h₂⟩ := words_of_faces hcontext words h
    have hwords := (words_eq_ok_iff hcontext hc₁).2 hgathers
    by_cases hrun : run words = []
    · -- the round is fresh, so the words behind its empty word are not read any more
      have hmeanings := meanings_run_eq_nil_iff.2 hrun
      obtain rfl : items = [] := by simpa [hmeanings] using hitems
      have hends := (word?_eq_none_iff hcontext hc₁).1 (word?_of_words_eq_nil hcontext hc₁ hwords)
      have hround : commandRound context command c = .ok (.done command) c₂ :=
        (commandRound_eq_done_iff hcontext hc).2 ⟨rfl, c₁, hskip, hredirection, hends⟩
      have hunheard := unheard_of_run_eq_nil hrun
      have hsame : { command with arguments := command.arguments ++ [] } = command := by
        cases command
        simp
      refine ⟨[], c₂, hsame.symm ▸ .done hround, hunheard ▸ h₂, fun hnil => ?_⟩
      rw [meanings_eq, hmeanings, ← hunheard, hnil]
      rfl
    · have hitemsNe : items ≠ [] := by
        intro hnil
        rw [hnil] at hitems
        exact hrun (meanings_run_eq_nil_iff.1 (by simpa using hitems.symm))
      have hround : commandRound context command c =
          .ok (.yield { command with arguments := command.arguments ++ items }) c₂ :=
        (commandRound_eq_yield_iff hc).2 ⟨c₁, hskip, .words hredirection hitemsNe hwords⟩
      have hne : words ≠ [] := by
        rintro rfl
        exact hrun rfl
      obtain ⟨c₃, hskip₂, h₃⟩ := skips_behind h₂
      obtain ⟨arguments, c', hloops, h', harguments⟩ := ih _ (length_afterRun_lt hne)
        h₂.stands.placed hskip₂ h₃ { command with arguments := command.arguments ++ items } rfl
      rw [unheard_true hrun]
      refine ⟨items ++ arguments, c', .yield hround (by simpa using hloops), h', fun hnil => ?_⟩
      rw [meanings_eq, List.map_append, List.map_append, hitems, harguments hnil]

/-- There is a command when some word means something. -/
theorem command?_of_faces {words : List SpacedWord} {c : Cursor} (hc : c.Skips c)
    (h : c.Faces (line words)) :
    ∃ result c', command? context c = .ok result c' ∧ c'.Faces (behind (unheard true words)) ∧
      (unheard true words = [] → (result = none ∧ meanings words = []) ∨
        ∃ command, result = some command ∧ meanings words ≠ [] ∧
          command.Runs (meanings words)) := by
  have hassignment : c.current.kind ≠ .assignmentLhs := by
    cases words with
    | nil => simp [h.stands.kind_eq heads_nil]
    | cons spaced words =>
      rw [h.stands.kind_eq (heads_line spaced words)]
      exact ne_of_mem_of_not_mem spaced.word.ne_of_leading (by simp)
  obtain ⟨arguments, c', hloops, h', harguments⟩ :=
    loops_of_faces hcontext h.stands.placed hc h (.empty (Span.empty c.current.start))
  have hcontent : CommandContent context c
      ⟨[], arguments, none, none, none, Span.empty c.current.start⟩ c' :=
    ⟨c, .done ⟨rfl, hc, hassignment⟩, hloops⟩
  have hcommand := (command?_eq_ok_iff hcontext h.stands.placed).2 ⟨c, _, hc, hcontent, rfl⟩
  refine ⟨_, c', hcommand, h', fun hnil => ?_⟩
  have harguments := harguments hnil
  by_cases hempty : arguments = []
  · subst hempty
    refine .inl ⟨rfl, ?_⟩
    simpa using harguments.symm
  · refine .inr ⟨_, if_neg (by simp [Command.isEmpty, hempty]), ?_, ?_⟩
    · rintro hmeanings
      rw [hmeanings] at harguments
      exact hempty (by simpa using harguments)
    · exact ⟨rfl, rfl, by simpa [Command.empty] using harguments⟩

/-- A script of such words reaches up to the first word that is unheard. -/
theorem scriptIn_of_faces {words : List SpacedWord} {c : Cursor} (h : c.Faces (line words)) :
    ∃ script c', scriptIn context c = .ok script c' ∧ c'.Faces (line (unheard true words)) ∧
      (unheard true words = [] → script.Runs (meanings words)) := by
  cases words with
  | nil =>
    have hstop : c.current.kind = .stop := h.stands.kind_eq heads_nil
    have hskip : c.Skips c := skips_self (by simp [hstop])
    refine ⟨_, c, (scriptIn_eq_ok_iff hcontext h.stands.placed).2
      ⟨[], .done (.inl ⟨rfl, hskip, hstop⟩), rfl⟩, h, fun _ => .inl ⟨rfl, rfl⟩⟩
  | cons spaced words =>
    have hkind := h.stands.kind_eq (heads_line spaced words)
    have hstart : c.current.kind ∉ [.whitespace, .stop, .pipe] := by
      rw [hkind]
      cases spaced.word <;> simp [leading]
    have hskip : c.Skips c := skips_self (List.ne_of_not_mem_cons hstart)
    obtain ⟨result, c₁, hcommand, h₁, hresult⟩ := command?_of_faces hcontext hskip h
    obtain ⟨c', hskip', h'⟩ := skips_behind h₁
    have hend : c'.current.kind ∉ goesOn := by
      cases hstray : unheard true (spaced :: words) with
      | nil =>
        rw [hstray] at h'
        simp [h'.stands.kind_eq heads_nil, goesOn]
      | cons next rest =>
        rw [hstray] at h'
        rw [h'.stands.kind_eq (heads_line next rest)]
        cases next.word <;> simp [leading, goesOn]
    cases result with
    | none =>
      refine ⟨_, c', scriptIn_of_no_command hcontext h.stands.placed hstart hskip' hend hcommand,
        h', fun hnil => .inl ⟨?_, rfl⟩⟩
      simpa using hresult hnil
    | some command =>
      refine ⟨_, c', scriptIn_of_command hcontext h.stands.placed hstart hskip' hend hcommand,
        h', fun hnil => .inr ⟨command, ⟨command.span.start, c'.lastEnd⟩, ?_⟩⟩
      simpa using hresult hnil

end Reading

/-! ### Parsing a line -/

/-- **What a line of simple words parses to**: when no word is unheard, a script of one command
of the words that mean something, or of nothing if none does. Otherwise the first token of the
first word that is unheard is not understood. -/
theorem parse_line (limits : ParseLimits) (words : List SpacedWord) :
    match unheard true words with
    | [] =>
      ∃ script, parse limits (String.ofList (line words)) = .ok script ∧
        script.Runs (meanings words)
    | stray :: more =>
      let start := Text.width (line words) - Text.width (line (stray :: more))
      parse limits (String.ofList (line words)) = .error (.trailingToken stray.word.leading.1
        ⟨start, start + Text.width stray.word.leading.2⟩) := by
  have hinput : (String.ofList (line words)).toList = line words := String.toList_ofList
  obtain ⟨c, hopens⟩ : ∃ c : Cursor, c.Opens (String.ofList (line words)) := by
    cases words with
    | nil => exact (exists_opens_of_heads heads_nil).imp fun _ h => h.1
    | cons first rest =>
      exact (exists_opens_of_heads (hinput ▸ heads_line first rest)).imp fun _ h => h.1
  have hfaces : c.Faces (line words) := hinput ▸ hopens.faces
  obtain ⟨script, c', hscript, h', hruns⟩ :=
    scriptIn_of_faces (levelContext_orderly limits.nesting limits.nesting false) hfaces
  rw [← script_eq_scriptIn] at hscript
  cases hstray : unheard true words with
  | nil =>
    rw [hstray] at h'
    have hstop : c'.current.kind = .stop := h'.stands.kind_eq heads_nil
    exact ⟨script, parse_eq_ok_iff.2 ⟨c, c', hopens, hscript, hstop⟩, hruns hstray⟩
  | cons stray more =>
    rw [hstray] at h'
    obtain ⟨lexemes, hpasses⟩ := (orderly_script _ _ _ hopens.placed).passes hscript
    have hstart : c'.current.start =
        Text.width (line words) - Text.width (line (stray :: more)) := by
      have hsize := h'.size_eq
      rw [hopens.size_of_passes hpasses, hinput] at hsize
      omega
    have hcurrent := current_of_faces h'
    have hkind : c'.current.kind ≠ .stop := by
      rw [hcurrent]
      exact ne_of_mem_of_not_mem stray.word.ne_of_leading (by simp)
    have herror := parse_eq_trailingToken hopens hscript hkind
    rwa [hcurrent, Lexeme.span, Lexeme.stop, hstart] at herror

/-! ### Words that are not heard -/

/-- A pair of quotes with nothing between them, and a word behind it. -/
def hushedLine : List SpacedWord :=
  [⟨' ', isBlank_space, .singleQuotes⟩, ⟨' ', isBlank_space, .letters ['x'] (by simp)⟩]

theorem parse_hushedLine :
    parse {} (String.ofList (line hushedLine)) =
      .error (.trailingToken .raw ⟨3, 4⟩) := by
  decide +kernel

/-- Not every line of simple words can be parsed: behind `''` a word may be unheard. -/
theorem exists_unheard_word :
    ¬ ∀ (limits : ParseLimits) (words : List SpacedWord), ∃ script,
      parse limits (String.ofList (line words)) = .ok script ∧
        script.Runs (meanings words) := by
  intro h
  obtain ⟨script, hscript, -⟩ := h {} hushedLine
  simp [parse_hushedLine] at hscript

end SimpleWord

end CommandSyntax
