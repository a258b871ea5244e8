import CommandSyntax.Proofs.Grammar.Alone
import CommandSyntax.Proofs.Parse.RoundTrip
import CommandSyntax.Proofs.Token.Spacing
import CommandSyntax.Proofs.Token.Spelling

/-!
# CommandSyntax.Proofs.Parse.Interleaving

**Words and redirections in any order.** A line of pieces, each a plain word or a redirection to
one, is a single command: its arguments are the words in order, and each of its files is the last
one that the line redirects to (`parse_line_of_pieces`).

A command is read in rounds, and a round of words takes all words up to the next redirection. So
the induction along the line carries two things, the words that the current round still takes and
the rounds behind them (`exists_gathers_loops`). What rounds do to a command is told by what they
add to it (`Command.Adds`), which adds up.
-/

namespace CommandSyntax

open Production Cursor

/-! ### Pieces -/

/-- A word without a delimiter, a backslash or an equals sign. -/
structure PlainWord where
  /-- The characters of the word. -/
  text : List Char
  /-- There is a character. -/
  ne_nil : text ≠ [] := by simp
  /-- None of them has a meaning of its own. -/
  plain : ∀ c ∈ text, isDelimiter c = false ∧ c ≠ '\\' ∧ c ≠ '=' := by
    simp [isDelimiter, delimiters]

/-- Blanks, possibly none. -/
structure Blanks where
  /-- The blanks as text. -/
  text : List Char
  /-- All of them are blanks. -/
  blank : ∀ c ∈ text, isBlank c = true := by simp [isBlank]

/-- A word, or a redirection to one. -/
inductive Piece where
  /-- A word. -/
  | word (word : PlainWord)
  /-- An operator, and its target behind some blanks or none. -/
  | redirection (redirection : Redirection) (gap : Blanks) (target : PlainWord)

/-- A piece with blanks before it. -/
structure SpacedPiece where
  /-- The blanks. -/
  blanks : Blanks
  /-- There is one. -/
  ne_nil : blanks.text ≠ [] := by simp
  /-- The piece behind them. -/
  piece : Piece

namespace Piece

/-- A piece as it is written. -/
def text : Piece → List Char
  | .word plain => plain.text
  | .redirection way gap target => way.operator ++ (gap.text ++ target.text)

/-- Pieces with their blanks as they are written. -/
def remainder (more : List SpacedPiece) : List Char :=
  more.flatMap fun spaced => spaced.blanks.text ++ spaced.piece.text

/-- The word that a piece is. -/
def word? : Piece → Option PlainWord
  | .word plain => some plain
  | .redirection .. => none

/-- The file that a piece redirects to, in one of the three ways. -/
def target? (way : Redirection) : Piece → Option PlainWord
  | .word _ => none
  | .redirection way' _ target => if way' = way then some target else none

/-- The words among some pieces, in order. -/
def words (pieces : List Piece) : List PlainWord := pieces.filterMap word?

/-- The last file that some pieces redirect to, in one of the three ways. -/
def lastTarget? (way : Redirection) (pieces : List Piece) : Option PlainWord :=
  (pieces.filterMap (target? way)).getLast?

end Piece

/-! ### What pieces add to a command -/

/-- The word as one literal. -/
def PlainWord.parts (word : PlainWord) : List Part := [.literal (String.ofList word.text)]

/-- A command goes on from another by some pieces: the words are added to its arguments, and the
last targets replace its files. -/
structure Command.Adds (command command' : Command) (pieces : List Piece) : Prop where
  /-- The assignments stay. -/
  assignments : command'.assignments = command.assignments
  /-- The words come behind the arguments. -/
  arguments : command'.arguments.map Word.parts =
    command.arguments.map Word.parts ++ (Piece.words pieces).map PlainWord.parts
  /-- The last target of each way replaces the file. -/
  file? : ∀ way, (command'.file? way).map Word.parts =
    ((Piece.lastTarget? way pieces).map PlainWord.parts).or
      ((command.file? way).map Word.parts)

namespace Command.Adds

variable {command command₁ command' : Command} {front back : List Piece}

theorem nil (command : Command) : command.Adds command [] :=
  ⟨rfl, by simp [Piece.words], by simp [Piece.lastTarget?]⟩

theorem trans (h : command.Adds command₁ front) (h' : command₁.Adds command' back) :
    command.Adds command' (front ++ back) where
  assignments := h'.assignments.trans h.assignments
  arguments := by simp [h'.arguments, h.arguments, Piece.words]
  file? way := by
    rw [h'.file?, h.file?]
    simp only [Piece.lastTarget?, List.filterMap_append, List.getLast?_append]
    cases (back.filterMap (Piece.target? way)).getLast? <;> simp

theorem redirect (command : Command) {target : PlainWord} {word : Word}
    (h : word.parts = target.parts) (redirection : Redirection) (gap : Blanks) :
    command.Adds (command.redirect word redirection) [.redirection redirection gap target] where
  assignments := by simp
  arguments := by simp [Piece.words, Piece.word?]
  file? way := by
    cases redirection <;> cases way <;>
      simp [Command.file?, Command.redirect, Piece.lastTarget?, Piece.target?, h]

theorem words (command : Command) {run : List Word} {pieces : List Piece}
    (hwords : ∀ piece ∈ pieces, piece.word?.isSome)
    (h : run.map Word.parts = (Piece.words pieces).map PlainWord.parts) :
    command.Adds { command with arguments := command.arguments ++ run } pieces where
  assignments := rfl
  arguments := by simp [h]
  file? way := by
    have hnone : Piece.lastTarget? way pieces = none := by
      rw [Piece.lastTarget?, List.getLast?_eq_none_iff, List.filterMap_eq_nil_iff]
      intro piece hmem
      have hword := hwords piece hmem
      cases piece with
      | word word => rfl
      | redirection => simp [Piece.word?] at hword
    rw [hnone]
    cases way <;> rfl

end Command.Adds

/-! ### How pieces are cut -/

variable {rest : List Char} {c c' : Cursor}

namespace PlainWord

theorem rawRun_append (word : PlainWord) (hrest : BeginsDelimited rest) :
    Rule.rawRun (word.text ++ rest) = word.text.length := by
  have hplain := word.plain
  generalize word.text = text at hplain
  induction text with
  | nil => exact hrest.rawRun_eq_zero
  | cons c text ih =>
    obtain ⟨⟨hdelimiter, hbackslash, -⟩, htext⟩ := List.forall_mem_cons.1 hplain
    have hstep : Rule.rawRun (c :: (text ++ rest)) = Rule.rawRun (text ++ rest) + 1 := by
      rw [Rule.rawRun] <;> simp_all
    rw [List.cons_append, hstep, ih htext, List.length_cons]

/-- No equals sign stands where one could make the word a name that is assigned to. -/
theorem scan_assignmentLhs (word : PlainWord) (hrest : BeginsDelimited rest) :
    Rule.assignmentLhs.scan (word.text ++ rest) = .pass := by
  by_contra hscan
  obtain ⟨name, tail, hname, heq⟩ := exists_isName_of_scan hscan
  rcases List.append_eq_append_iff.1 heq with ⟨more, rfl, hmore⟩ | ⟨more, htext, hmore⟩
  · -- the name goes on behind the word, where a delimiter stands
    cases more with
    | nil =>
      obtain rfl : rest = '=' :: tail := hmore
      exact absurd (hrest '=' rfl) (by decide)
    | cons c more =>
      have hdelimiter : c ∈ delimiters := by
        simpa [isDelimiter] using hrest c (by simp [hmore])
      have hc := isNameChar_eq_false c (List.mem_cons_of_mem _ hdelimiter)
      simp [hname.2 c (by simp)] at hc
  · cases more with
    | nil =>
      obtain rfl : '=' :: tail = rest := hmore
      exact absurd (hrest '=' rfl) (by decide)
    | cons c more =>
      obtain ⟨rfl, -⟩ := List.cons.inj hmore
      exact (word.plain '=' (by simp [htext])).2.2 rfl

theorem cuts (word : PlainWord) (hrest : BeginsDelimited rest) : Cuts .raw word.text rest := by
  have htake : Rule.table.take 25 = Rule.table.take 24 ++ [Rule.assignmentLhs] := rfl
  refine cuts_of_scan (Rule.table.take 25) [] rfl word.ne_nil ?_ ?_
  · rw [htake]
    refine List.forall_mem_append.2 ⟨?_, by simpa using word.scan_assignmentLhs hrest⟩
    obtain ⟨c, text, htext⟩ := List.exists_cons_of_ne_nil word.ne_nil
    obtain ⟨hdelimiter, hbackslash, -⟩ := word.plain c (by simp [htext])
    rw [htext, List.cons_append]
    have hnotMem : c ∉ delimiters := by simpa [isDelimiter] using hdelimiter
    exact scan_of_notMem_delimiters hnotMem
      (Rule.blankRun_of_notMem_delimiters hnotMem fun h => absurd h hbackslash)
  · have hpos := List.length_pos_iff.2 word.ne_nil
    exact Verdict.ofRun_eq_accept_iff.2 ⟨word.rawRun_append hrest, hpos⟩

/-- A plain word begins with no delimiter. -/
theorem head_ne (word : PlainWord) {d : Char} (hd : isDelimiter d = true) :
    (word.text ++ rest).head? ≠ some d := by
  obtain ⟨c, text, htext⟩ := List.exists_cons_of_ne_nil word.ne_nil
  have hc := (word.plain c (by simp [htext])).1
  rw [htext]
  rintro heq
  obtain rfl := Option.some.inj heq
  simp [hc] at hd

end PlainWord

namespace Piece

theorem remainder_cons (spaced : SpacedPiece) (more : List SpacedPiece) :
    remainder (spaced :: more) = spaced.blanks.text ++ (spaced.piece.text ++ remainder more) := by
  simp [remainder]

theorem beginsDelimited_remainder (more : List SpacedPiece) : BeginsDelimited (remainder more) := by
  cases more with
  | nil => simp [BeginsDelimited, remainder]
  | cons spaced more =>
    obtain ⟨c, text, htext⟩ := List.exists_cons_of_ne_nil spaced.ne_nil
    rw [remainder_cons, htext]
    exact beginsDelimited_cons (isDelimiter_of_isBlank (spaced.blanks.blank c (by simp [htext])))

/-- An operator is cut off where nothing makes it longer. -/
theorem cuts_operator_of_head (way : Redirection) (hrest : rest.head? ≠ some '>') :
    ∃ kind, Redirection.ofKind? kind = some way ∧ Cuts kind way.operator rest := by
  cases way with
  | input => exact ⟨.readRedirect, rfl, cuts_of_mem_marks (by simp [Redirection.operator, marks])⟩
  | output =>
    exact ⟨.writeRedirect, rfl,
      cuts_of_mem_openMarks (by simp [Redirection.operator, openMarks]) hrest⟩
  | append =>
    exact ⟨.appendRedirect, rfl, cuts_of_mem_marks (by simp [Redirection.operator, marks])⟩

/-- A target does not make its operator longer. -/
theorem head_gap_ne (gap : Blanks) (target : PlainWord) (rest : List Char) :
    (gap.text ++ (target.text ++ rest)).head? ≠ some '>' := by
  obtain ⟨text, hblank⟩ := gap
  cases text with
  | nil => exact target.head_ne (by decide)
  | cons c text =>
    have hc := hblank c (by simp)
    rintro heq
    obtain rfl := Option.some.inj heq
    simp [isBlank] at hc

/-- The kind of the first token of a piece. -/
theorem heads_text (piece : Piece) (hrest : BeginsDelimited rest) :
    ∃ kind, Heads kind (piece.text ++ rest) ∧
      (kind = .raw ∨ ∃ way, Redirection.ofKind? kind = some way) := by
  cases piece with
  | word plain => exact ⟨.raw, (plain.cuts hrest).heads, .inl rfl⟩
  | redirection way gap target =>
    obtain ⟨kind, hkind, hcuts⟩ := cuts_operator_of_head way (head_gap_ne gap target rest)
    refine ⟨kind, ?_, .inr ⟨way, hkind⟩⟩
    simpa [text] using hcuts.heads

/-- The kind of the token behind a piece, by the pieces behind it. -/
def kindBehind : List SpacedPiece → TokenKind
  | [] => .stop
  | _ :: _ => .whitespace

theorem cuts_blanks (spaced : SpacedPiece) (more : List SpacedPiece) :
    Cuts .whitespace spaced.blanks.text (spaced.piece.text ++ remainder more) := by
  obtain ⟨kind, hheads, hkind⟩ := heads_text spaced.piece (beginsDelimited_remainder more)
  refine cuts_spacing (.of_isBlank spaced.blanks.blank) spaced.ne_nil
    (hheads.blankRun_eq_zero ?_)
  rintro rfl
  rcases hkind with h | ⟨way, h⟩ <;> cases h

theorem heads_remainder (more : List SpacedPiece) : Heads (kindBehind more) (remainder more) := by
  cases more with
  | nil => exact heads_nil
  | cons spaced more =>
    rw [remainder_cons]
    exact (cuts_blanks spaced more).heads

theorem inWord_kindBehind (more : List SpacedPiece) (inBackticks : Bool) :
    inWord inBackticks (kindBehind more) = false := by
  cases more <;> rfl

end Piece

/-! ### How pieces are read -/

section Reading

open Piece

variable {context : Context} (hcontext : ContextOrderly context)
include hcontext

/-- A plain word is read as one literal. -/
theorem PlainWord.word?_eq (word : PlainWord) {more : List SpacedPiece}
    (h : c.Faces (word.text ++ remainder more)) :
    ∃ result c', Production.word? context c = .ok (some result) c' ∧ result.parts = word.parts ∧
      c'.Faces (remainder more) := by
  have hheads := heads_remainder more
  obtain ⟨hkind, htext, c', hpasses, h'⟩ :=
    h.cut (word.cuts (beginsDelimited_remainder more)) hheads
  have hmeans : textOf false c.current = word.text := by
    have hbackslash : '\\' ∉ word.text := fun hmem => (word.plain _ hmem).2.1 rfl
    simp [textOf, textOf?, hkind, htext, Quoting.plain_eq_self hbackslash]
  obtain ⟨hword, -⟩ := word?_of_text hcontext h.stands.placed hpasses (by simp [hkind, isText])
    (by simpa using hmeans) word.ne_nil
    (by rw [h'.stands.kind_eq hheads]; exact inWord_kindBehind more _)
  exact ⟨_, c', hword, rfl, h'⟩

omit hcontext in
/-- Blanks are skipped, if there are any. -/
theorem skips_blanks (blanks : Blanks) {rest : List Char} {kind : TokenKind}
    (h : c.Faces (blanks.text ++ rest)) (hrest : Heads kind rest) (hkind : kind ≠ .whitespace) :
    ∃ c', c.Skips c' ∧ c'.Faces rest := by
  by_cases hne : blanks.text = []
  · rw [hne] at h
    exact ⟨c, h.stands.skips hrest hkind, h⟩
  · have hcuts := cuts_spacing (.of_isBlank blanks.blank) hne (hrest.blankRun_eq_zero hkind)
    obtain ⟨hcurrent, -, c', hpasses, h'⟩ := h.cut hcuts hrest
    refine ⟨c', ⟨_, hpasses, by simpa using hcurrent, ?_⟩, h'⟩
    rwa [h'.stands.kind_eq hrest]

/-- The target of a redirection is read behind its operator and the gap. -/
theorem target_eq (way : Redirection) (gap : Blanks) (target : PlainWord)
    {more : List SpacedPiece}
    (h : c.Faces ((Piece.redirection way gap target).text ++ remainder more)) :
    ∃ result c', Redirection.ofKind? c.current.kind = some way ∧
      Production.target context c = .ok result c' ∧ result.parts = target.parts ∧
      c'.Faces (remainder more) := by
  have hraw : Heads .raw (target.text ++ remainder more) :=
    (target.cuts (beginsDelimited_remainder more)).heads
  obtain ⟨kind, hkind, hcuts⟩ := cuts_operator_of_head way (head_gap_ne gap target (remainder more))
  simp only [text, List.append_assoc] at h
  have hgap : ∃ kind, Heads kind (gap.text ++ (target.text ++ remainder more)) := by
    by_cases hne : gap.text = []
    · exact ⟨.raw, by rwa [hne]⟩
    · exact ⟨.whitespace,
        (cuts_spacing (.of_isBlank gap.blank) hne (hraw.blankRun_eq_zero (by simp))).heads⟩
  obtain ⟨next, hnext⟩ := hgap
  obtain ⟨hcurrent, -, c₁, hpasses, h₁⟩ := h.cut hcuts hnext
  rw [hcurrent]
  obtain ⟨c₂, hskip, h₂⟩ := skips_blanks gap h₁ hraw (by simp)
  obtain ⟨result, c', hword, hparts, h'⟩ := target.word?_eq hcontext h₂
  refine ⟨result, c', hkind, ?_, hparts, h'⟩
  exact (target_eq_ok_iff h.stands.placed (hpasses.kind_ne_stop _ (by simp))).2
    ⟨c₁, c₂, hpasses, hskip, hword⟩

/-! ### Rounds of a command -/

/-- The rounds of a command add some pieces to it, up to the end of the input. -/
def AddsFrom (context : Context) (c : Cursor) (pieces : List Piece) : Prop :=
  ∃ c', c'.Faces [] ∧ ∀ command, ∃ command',
    Loops (commandRound context) command c command' c' ∧ command.Adds command' pieces

omit hcontext in
/-- A round begins behind any whitespace. -/
theorem AddsFrom.of_skips {c₁ : Cursor} {pieces : List Piece} (hc : c.Placed) (hskip : c.Skips c₁)
    (h : AddsFrom context c₁ pieces) : AddsFrom context c pieces := by
  have hround (command : Command) : commandRound context command c =
      commandRound context command c₁ := by
    have hblanks := (skipWhitespace_eq_ok_iff hc).2 hskip
    have hself := (skipWhitespace_eq_ok_iff (hskip.placed hc)).2 (skips_self hskip.kind_ne)
    rw [commandRound, bind_of_eq_ok _ hblanks, bind_of_eq_ok _ hself]
  obtain ⟨c', hend, h⟩ := h
  refine ⟨c', hend, fun command => ?_⟩
  obtain ⟨command', hloops, hadds⟩ := h command
  refine ⟨command', ?_, hadds⟩
  cases hloops with
  | done hdone => exact .done ((hround command).trans hdone)
  | yield hyield hrest => exact .yield ((hround command).trans hyield) hrest

/-- Nothing is added at the end. -/
theorem addsFrom_nil (h : c.Faces []) : AddsFrom context c [] := by
  have hstop : c.current.kind = .stop := h.stands.kind_eq heads_nil
  refine ⟨c, h, fun command => ⟨command, .done ?_, .nil command⟩⟩
  exact (commandRound_eq_done_iff hcontext h.stands.placed).2
    ⟨rfl, c, skips_self (by simp [hstop]), by rw [hstop]; rfl, endsWord_self (by rw [hstop]; rfl)⟩

omit hcontext in
/-- A redirection is a round. -/
theorem AddsFrom.redirection {way : Redirection} {target : PlainWord} {word : Word}
    {pieces : List Piece} (hc : c.Placed)
    (hkind : Redirection.ofKind? c.current.kind = some way)
    (hword : Production.target context c = .ok word c') (hparts : word.parts = target.parts)
    (h : AddsFrom context c' pieces) (gap : Blanks) :
    AddsFrom context c (.redirection way gap target :: pieces) := by
  have hblank : c.current.kind ≠ .whitespace := by
    intro heq
    simp [heq, Redirection.ofKind?] at hkind
  obtain ⟨c'', hend, h⟩ := h
  refine ⟨c'', hend, fun command => ?_⟩
  obtain ⟨command', hloops, hadds⟩ := h (command.redirect word way)
  refine ⟨command', .yield ((commandRound_eq_yield_iff hc).2
    ⟨c, skips_self hblank, .redirection hkind hword⟩) hloops, ?_⟩
  exact (Command.Adds.redirect command hparts way gap).trans hadds

omit hcontext in
/-- A run of words is a round. -/
theorem AddsFrom.words {run : List Word} {front back : List Piece} (hc : c.Placed)
    (hkind : c.current.kind = .raw) (hne : run ≠ []) (hwords : words context c = .ok run c')
    (hfront : ∀ piece ∈ front, piece.word?.isSome)
    (hrun : run.map Word.parts = (Piece.words front).map PlainWord.parts)
    (h : AddsFrom context c' back) : AddsFrom context c (front ++ back) := by
  obtain ⟨c'', hend, h⟩ := h
  refine ⟨c'', hend, fun command => ?_⟩
  obtain ⟨command', hloops, hadds⟩ :=
    h { command with arguments := command.arguments ++ run }
  refine ⟨command', .yield ((commandRound_eq_yield_iff hc).2
    ⟨c, skips_self (by simp [hkind]), .words (by rw [hkind]; rfl) hne hwords⟩) hloops, ?_⟩
  exact (Command.Adds.words command hfront hrun).trans hadds

/-- A round takes up the words in front of some pieces, if there are any, and the rounds behind it
add the other pieces. -/
structure TakesUp (context : Context) (c : Cursor) (pieces : List Piece) : Prop where
  /-- The words, what is read of them and where the round ends. -/
  exists_run : ∃ front back run c', pieces = front ++ back ∧
    (∀ piece ∈ front, piece.word?.isSome) ∧
    run.map Word.parts = (Piece.words front).map PlainWord.parts ∧
    Gathers (MoreWords context) (LastWords context) c run c' ∧
    (front = [] ∧ c' = c ∨ run ≠ [] ∧ c.current.kind = .raw) ∧ AddsFrom context c' back

theorem TakesUp.addsFrom {pieces : List Piece} (hc : c.Placed) (h : TakesUp context c pieces) :
    AddsFrom context c pieces := by
  obtain ⟨front, back, run, c', rfl, hfront, hrun, hgathers, hround, hback⟩ := h.exists_run
  rcases hround with ⟨rfl, rfl⟩ | ⟨hne, hkind⟩
  · exact hback
  · exact .words hc hkind hne ((words_eq_ok_iff hcontext hc).2 hgathers) hfront hrun hback

/-- Where a redirection stands, a round takes up no words. -/
theorem takesUp_redirection {way : Redirection} {gap : Blanks} {target : PlainWord}
    {more : List SpacedPiece} {pieces : List Piece}
    (h : c.Faces ((Piece.redirection way gap target).text ++ remainder more))
    (hrest : ∀ {c₁ : Cursor}, c₁.Faces (remainder more) → AddsFrom context c₁ pieces) :
    TakesUp context c (.redirection way gap target :: pieces) := by
  have hc := h.stands.placed
  obtain ⟨result, c₁, hkind, htarget, hparts, h₁⟩ := target_eq hcontext way gap target h
  have hword : Production.word? context c = .ok none c := by
    refine word?_of_inWord_eq_false hcontext hc ?_
    cases hcurrent : c.current.kind <;> simp_all [Redirection.ofKind?] <;> rfl
  exact ⟨[], _, [], c, rfl, by simp, rfl, .done (.inl ⟨rfl, hword⟩), .inl ⟨rfl, rfl⟩,
    .redirection hc hkind htarget hparts (hrest h₁) gap⟩

/-- The pieces of a line are taken up one by one. -/
theorem takesUp_line (first : Piece) (more : List SpacedPiece)
    (h : c.Faces (first.text ++ remainder more)) :
    TakesUp context c (first :: more.map SpacedPiece.piece) := by
  induction more generalizing first c with
  | nil =>
    cases first with
    | word plain =>
      have hraw := h.stands.kind_eq (plain.cuts (beginsDelimited_remainder [])).heads
      obtain ⟨result, c₁, hword, hparts, h₁⟩ := plain.word?_eq hcontext h
      have hstop : c₁.current.kind = .stop := h₁.stands.kind_eq heads_nil
      exact ⟨[.word plain], [], [result], c₁, rfl, by simp [Piece.word?],
        by simp [Piece.words, Piece.word?, hparts],
        .done (.inr ⟨result, rfl, hword, by simp [hstop]⟩), .inr ⟨by simp, hraw⟩,
        addsFrom_nil hcontext h₁⟩
    | redirection way gap target =>
      exact takesUp_redirection hcontext h fun h₁ => addsFrom_nil hcontext h₁
  | cons spaced more ih =>
    -- behind the first piece its blanks are skipped, and the next one is taken up
    have hnext {c₁ : Cursor} (h₁ : c₁.Faces (remainder (spaced :: more))) :
        c₁.current.kind = .whitespace ∧ ∃ c₂, c₁.Skips c₂ ∧ c₂.Placed ∧
          TakesUp context c₂ (spaced.piece :: more.map SpacedPiece.piece) := by
      have hblank : c₁.current.kind = .whitespace := h₁.stands.kind_eq (heads_remainder _)
      rw [remainder_cons] at h₁
      obtain ⟨kind, hheads, hkind⟩ := heads_text spaced.piece (beginsDelimited_remainder more)
      have hne : kind ≠ .whitespace := by
        rintro rfl
        rcases hkind with h | ⟨way, h⟩ <;> cases h
      obtain ⟨c₂, hskip, h₂⟩ := skips_blanks spaced.blanks h₁ hheads hne
      exact ⟨hblank, c₂, hskip, h₂.stands.placed, ih spaced.piece h₂⟩
    cases first with
    | word plain =>
      have hraw := h.stands.kind_eq (plain.cuts (beginsDelimited_remainder _)).heads
      obtain ⟨result, c₁, hword, hparts, h₁⟩ := plain.word?_eq hcontext h
      obtain ⟨hblank, c₂, hskip, -, hpieces⟩ := hnext h₁
      obtain ⟨front, back, run, c', heq, hfront, hrun, hgathers, -, hback⟩ := hpieces.exists_run
      refine ⟨.word plain :: front, back, [result] ++ run, c', by simp [heq], ?_, ?_,
        .yield ⟨result, c₁, rfl, hword, hblank, hskip⟩ hgathers, .inr ⟨by simp, hraw⟩, hback⟩
      · exact List.forall_mem_cons.2 ⟨rfl, hfront⟩
      · simp [Piece.words, Piece.word?, hparts, hrun]
    | redirection way gap target =>
      refine takesUp_redirection hcontext h fun h₁ => ?_
      obtain ⟨-, c₂, hskip, hc₂, hpieces⟩ := hnext h₁
      exact .of_skips h₁.stands.placed hskip (hpieces.addsFrom hcontext hc₂)

end Reading

/-! ### The whole line -/

/-- A command that pieces were added to has content. -/
theorem Command.Adds.isEmpty_eq_false {command command' : Command} {pieces : List Piece}
    (h : command.Adds command' pieces) (hne : pieces ≠ []) : command'.isEmpty = false := by
  obtain ⟨piece, pieces, rfl⟩ := List.exists_cons_of_ne_nil hne
  by_contra hempty
  simp only [Command.isEmpty, Command.targets, Bool.not_eq_false, Bool.and_eq_true,
    List.isEmpty_iff, List.append_eq_nil_iff, Option.toList_eq_nil_iff] at hempty
  obtain ⟨⟨-, harguments⟩, ⟨hinput, houtput⟩, happend⟩ := hempty
  cases piece with
  | word plain => simpa [harguments, Piece.words, Piece.word?] using h.arguments
  | redirection way gap target =>
    have hfile : command'.file? way = none := by
      cases way <;> assumption
    have hnone := h.file? way
    rw [hfile, Option.map_none, eq_comm, Option.or_eq_none_iff, Option.map_eq_none_iff] at hnone
    simp [Piece.lastTarget?, Piece.target?] at hnone

/-- **Words and redirections may stand in any order.** A line of pieces with blanks between them
is one command without assignments. Its arguments are the words in order, and its files are the
last ones that the line redirects to. -/
theorem parse_line_of_pieces (limits : ParseLimits) (first : Piece) (more : List SpacedPiece) :
    ∃ command span,
      parse limits (String.ofList (first.text ++ Piece.remainder more)) =
        .ok (.ofCommand command span) ∧
      command.assignments = [] ∧
      command.arguments.map Word.parts =
        (Piece.words (first :: more.map SpacedPiece.piece)).map PlainWord.parts ∧
      ∀ way, (command.file? way).map Word.parts =
        (Piece.lastTarget? way (first :: more.map SpacedPiece.piece)).map PlainWord.parts := by
  have hcontext := levelContext_orderly limits.nesting limits.nesting false
  obtain ⟨kind, hheads, hkind⟩ := Piece.heads_text first (Piece.beginsDelimited_remainder more)
  have hinput : (String.ofList (first.text ++ Piece.remainder more)).toList =
      first.text ++ Piece.remainder more := by simp
  obtain ⟨c, hopens, -⟩ := exists_opens_of_heads (hinput ▸ hheads)
  have hfaces := hinput ▸ hopens.faces
  have hc := hopens.placed
  have hfirst : c.current.kind ∉ [.whitespace, .stop, .pipe, .assignmentLhs] := by
    rw [hfaces.stands.kind_eq hheads]
    rcases hkind with rfl | ⟨way, hway⟩
    · simp
    · intro hmem
      simp only [List.mem_cons, List.not_mem_nil, or_false] at hmem
      rcases hmem with rfl | rfl | rfl | rfl <;> cases hway
  simp only [List.mem_cons, List.not_mem_nil, or_false, not_or] at hfirst
  obtain ⟨hblank, hstop, hpipe, hassignment⟩ := hfirst
  -- the rounds add all pieces to the command that has no content yet
  obtain ⟨c', hend, hadds⟩ := (takesUp_line hcontext first more hfaces).addsFrom hcontext hc
  obtain ⟨content, hloops, hadds⟩ := hadds (.empty (Span.empty c.current.start))
  have hassignments : content.assignments = [] := hadds.assignments
  have hcontent : CommandContent (levelContext limits.nesting false limits.nesting) c content c' :=
    ⟨c, by rw [hassignments]; exact .done ⟨rfl, skips_self hblank, hassignment⟩,
      by rw [hassignments]; exact hloops⟩
  have hcommand := (command?_eq_ok_iff hcontext hc).2 ⟨c, content, skips_self hblank, hcontent, rfl⟩
  rw [if_neg (by simp [hadds.isEmpty_eq_false])] at hcommand
  have hend' : c'.current.kind = .stop := hend.stands.kind_eq heads_nil
  have hscript := scriptIn_of_command hcontext hc (by simp [hblank, hstop, hpipe])
    (skips_self (by simp [hend'])) (by simp [hend', goesOn]) hcommand
  rw [← script_eq_scriptIn] at hscript
  refine ⟨_, _, parse_eq_ok_iff.2 ⟨c, c', hopens, hscript, hend'⟩, hassignments, ?_, fun way => ?_⟩
  · simpa [Command.empty] using hadds.arguments
  · have hfile := hadds.file? way
    cases way <;> simpa [Command.file?, Command.empty] using hfile

/-! ### A line with all three operators -/

/-- What comes behind the name of the command in `sort <a -r > b >>log >c é`, with all four kinds
of blanks. The output goes to `c`, since the redirection to `b` comes before it. -/
def sortOptions : List SpacedPiece :=
  [{ blanks := { text := [' '] }
     piece := .redirection .input { text := [] } { text := ['a'] } },
    { blanks := { text := ['\t'] }
      piece := .word { text := ['-', 'r'] } },
    { blanks := { text := ['\r', ' '] }
      piece := .redirection .output { text := ['\t', '\t'] } { text := ['b'] } },
    { blanks := { text := ['\x0b'] }
      piece := .redirection .append { text := [] } { text := ['l', 'o', 'g'] } },
    { blanks := { text := [' ', ' '] }
      piece := .redirection .output { text := [' '] } { text := ['c'] } },
    { blanks := { text := ['\t'] }
      piece := .word { text := ['é'] } }]

theorem parse_line_of_sort :
    ∃ command span,
      parse {} "sort <a\t-r\r >\t\tb\x0b>>log  > c\té" = .ok (.ofCommand command span) ∧
      command.assignments = [] ∧
      command.arguments.map Word.parts = [[.literal "sort"], [.literal "-r"], [.literal "é"]] ∧
      command.input.map Word.parts = some [.literal "a"] ∧
      command.output.map Word.parts = some [.literal "c"] ∧
      command.append.map Word.parts = some [.literal "log"] := by
  obtain ⟨command, span, hparse, hassignments, harguments, hfiles⟩ := parse_line_of_pieces {}
    (.word { text := ['s', 'o', 'r', 't'] }) sortOptions
  exact ⟨command, span, hparse, hassignments, harguments, hfiles .input, hfiles .output,
    hfiles .append⟩

end CommandSyntax
