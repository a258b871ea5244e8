import CommandSyntax.Proofs.Grammar.Alone
import CommandSyntax.Proofs.Parse.Composition

/-!
# CommandSyntax.Proofs.Parse.Enclosure

**The script of a substitution is parsed like a whole input.** When an input can be parsed,
then between the brackets of a substitution it can be parsed with one more level of nesting, and
gives one word with the script of the input in it, further on (`parse_enclosed`).

Behind the opening bracket the parse follows that of the input up to the closing bracket
(`inFront`). The bracket ends scripts one level deeper, as the end of the input does at the top.
-/

namespace CommandSyntax

open Production Cursor

variable {n : Nat} {s s' : String} {body : Script}

/-! ### Brackets -/

/-- The brackets around the script of a substitution. -/
inductive Brackets where
  /-- A dollar sign and parentheses. -/
  | parentheses
  /-- Two backticks. -/
  | backticks
deriving DecidableEq, Repr

namespace Brackets

/-- The kind of the opening bracket. -/
def opening : Brackets → TokenKind
  | parentheses => .startSubstitution
  | backticks => .backtick

/-- The kind of the closing bracket. -/
def closing : Brackets → TokenKind
  | parentheses => .rightParen
  | backticks => .backtick

/-- The text of the opening bracket. -/
def left : Brackets → List Char
  | parentheses => ['$', '(']
  | backticks => ['\x60']

/-- The character of the closing bracket. -/
def right : Brackets → Char
  | parentheses => ')'
  | backticks => '\x60'

/-- Whether the script between the brackets stands in backticks. -/
def inBackticks : Brackets → Bool
  | parentheses => false
  | backticks => true

/-- The closing bracket behind a text that starts at a position. -/
def closer (brackets : Brackets) (position : Nat) : Lexeme :=
  ⟨brackets.closing, position, [brackets.right]⟩

variable (brackets : Brackets)

theorem stops_closing : stops brackets.inBackticks brackets.closing = true := by
  cases brackets <;> rfl

theorem closing_ne : brackets.closing ≠ .stop ∧ brackets.closing ≠ .statementEnd ∧
    brackets.closing ≠ .whitespace := by
  cases brackets <;> decide

theorem opening_ne : brackets.opening ≠ .stop := by cases brackets <;> decide

theorem right_mem_breaks : brackets.right ∈ breaks := by cases brackets <;> decide

theorem width_right : Text.width [brackets.right] = 1 := by cases brackets <;> rfl

/-- The opening bracket is cut off, unless it becomes part of a longer mark. -/
theorem cuts_left {text : List Char} (h : text.head? ≠ some '(') :
    Cuts brackets.opening brackets.left (text ++ [brackets.right]) := by
  cases brackets with
  | backticks => exact cuts_of_mem_singles (by simp [singles, opening])
  | parentheses =>
    have hrest : (text ++ [')']).head? ≠ some '(' := by
      cases text with
      | nil => decide
      | cons => exact h
    exact cuts_of_mem_openMarks (by simp [openMarks, opening, left]) hrest

theorem cuts_right : Cuts brackets.closing [brackets.right] [] := by
  cases brackets <;> exact cuts_of_mem_singles (by simp [singles, closing, right])

end Brackets

/-! ### A part that is all there is -/

/-- The script of a command of one word of one part. -/
def Script.ofPart (part : Part) (span : Span) : Script := ⟨[.ofPart part span], span⟩

section Part

variable {context : Context} (hcontext : ContextOrderly context) {c c' : Cursor} (hc : c.Placed)
  {part : Part} (hkind : startsPart context.inBackticks false c.current.kind = true)
  (hpart : part? context false c = .ok (some part) c') (hstop : c'.current.kind = .stop)

theorem ne_of_startsPart {inBackticks : Bool} {kind : TokenKind}
    (h : startsPart inBackticks false kind = true) :
    kind ≠ .whitespace ∧ kind ≠ .doubleQuote ∧ kind ≠ .assignmentLhs ∧ kind ≠ .stop ∧
      kind ≠ .pipe ∧ Redirection.ofKind? kind = none := by
  cases kind <;> simp_all [startsPart, Redirection.ofKind?]

include hcontext hc hkind hpart hstop

theorem word?_of_part :
    word? context c = .ok (some ⟨[part], ⟨c.current.start, c'.lastEnd⟩⟩) c' := by
  have htoggle : toggleQuotes false c = .ok false c :=
    (toggleQuotes_eq_ok_iff hc).2 ⟨[], .nil c, by simp, (ne_of_startsPart hkind).2.1, rfl⟩
  have hends : EndsWord context.inBackticks false c' c' :=
    endsWord_self (by rw [hstop]; rfl)
  exact (word?_eq_some_iff hcontext hc).2 ⟨.part htoggle hpart (.done hends), by simp, rfl⟩

theorem command?_of_part (hle : c.current.start ≤ c'.lastEnd) :
    command? context c = .ok (some (.ofWord ⟨[part], ⟨c.current.start, c'.lastEnd⟩⟩
      ⟨c.current.start, c'.lastEnd⟩)) c' := by
  obtain ⟨hblank, -, hassignment, -, -, hredirect⟩ := ne_of_startsPart hkind
  have hword := word?_of_part hcontext hc hkind hpart hstop
  have hwords : words context c = .ok [⟨[part], ⟨c.current.start, c'.lastEnd⟩⟩] c' :=
    (words_eq_ok_iff hcontext hc).2 (.done (.inr ⟨_, rfl, hword, by simp [hstop]⟩))
  have hcommand := command?_of_words hcontext hc (by simp [hblank, hassignment]) hredirect
    (by simp) hwords hstop
  rwa [Nat.max_eq_left hle] at hcommand

/-- A part that starts an input and reaches up to its end is the whole script. -/
theorem scriptIn_of_part (hle : c.current.start ≤ c'.lastEnd) :
    scriptIn context c = .ok (.ofPart part ⟨c.current.start, c'.lastEnd⟩) c' := by
  obtain ⟨hblank, -, -, hend, hpipe, -⟩ := ne_of_startsPart hkind
  exact scriptIn_of_command hcontext hc (by simp [hblank, hend, hpipe])
    (skips_self (by simp [hstop])) (by simp [hstop, goesOn])
    (command?_of_part hcontext hc hkind hpart hstop hle)

end Part

/-! ### Texts between brackets -/

/-- A parenthesis without a dollar sign starts no statement. -/
theorem statement?_of_leftParen {context : Context} {c : Cursor}
    (hcontext : ContextOrderly context) (hc : c.Placed) (hkind : c.current.kind = .leftParen) :
    statement? context c = .ok none c := by
  refine statement?_of_startsNothing hcontext hc ?_ (by simp [hkind]) (by simp [hkind])
  refine ⟨by simp [hkind], by simp [hkind], ?_, ?_⟩
  · rw [hkind]
    rfl
  · simp [hkind, inWord, startsPart, isText]

/-- No input that can be parsed starts with a parenthesis. -/
theorem head?_of_parse {limits : ParseLimits} (h : parse limits s = .ok body) :
    s.toList.head? ≠ some '(' := by
  intro hhead
  obtain ⟨text, htext⟩ : ∃ text, s.toList = ['('] ++ text := by
    cases hs : s.toList with
    | nil => simp [hs] at hhead
    | cons c text => exact ⟨text, by simpa [hs] using hhead⟩
  obtain ⟨c, read, last, hopens, hloops, hstop, -⟩ := loops_of_parse h
  have hcuts : Cuts .leftParen ['('] text := cuts_of_mem_singles (by simp [singles])
  have hkind : c.current.kind = .leftParen := hopens.stands.kind_eq (htext ▸ hcuts.heads)
  have hcontext := levelContext_orderly limits.nesting limits.nesting false
  have hnone := statement?_of_leftParen hcontext hopens.placed hkind
  have hskips {d : Cursor} (hskip : c.Skips d) : c = d :=
    (skips_iff_of_kind_ne (by simp [hkind])).1 hskip
  -- the first round ends where it starts, on the parenthesis
  cases hloops with
  | yield hround _ =>
    obtain ⟨_, ⟨statement, c₁, c₂, c₃, -, hskip, -, hstatement, hskip', hend, -⟩, -⟩ :=
      (scriptRound_eq_yield_iff hcontext hopens.placed).1 hround
    obtain rfl := hskips hskip
    obtain ⟨-, rfl⟩ := EStateM.Result.ok.inj (hnone.symm.trans hstatement)
    obtain rfl := hskips hskip'
    simp [hkind] at hend
  | done hround =>
    obtain ⟨_, ⟨-, hskip, -⟩ | ⟨statement, c₁, c₂, -, hskip, -, hstatement, hskip', -⟩, -⟩ :=
      (scriptRound_eq_done_iff hcontext hopens.placed).1 hround
    · obtain rfl := hskips hskip
      simp [hkind] at hstop
    · obtain rfl := hskips hskip
      obtain ⟨-, rfl⟩ := EStateM.Result.ok.inj (hnone.symm.trans hstatement)
      obtain rfl := hskips hskip'
      simp [hkind] at hstop

/-- A text without backticks has no lexeme that is one. -/
theorem tickless_ofString (h : '\x60' ∉ s.toList) {tokens : List Token}
    (htokens : (TokenStream.ofString s).tokens = .ok tokens) :
    (TokenStream.ofString s).Tickless := by
  intro lexeme hmem hkind
  obtain ⟨position, hstream, -⟩ := TokenStream.eq_prepend_finished htokens
  obtain ⟨rest, htext, -⟩ := TokenStream.eq_append_of_ofText hstream
  have htiles := Cursor.Opens.tiles_ofString s
  rw [hstream] at htiles
  have hlexeme : '\x60' ∈ lexeme.text := by
    simp [(htiles.scanned lexeme hmem).text_of_backtick hkind]
  rw [htext, List.mem_append, List.mem_flatMap] at h
  exact h (.inl ⟨lexeme, hmem, hlexeme⟩)

/-- A text between two brackets that can be the script of a substitution. -/
structure Encloses (brackets : Brackets) (s s' : String) : Prop where
  /-- The brackets stand around the text. -/
  toList_eq : s'.toList = brackets.left ++ (s.toList ++ [brackets.right])
  /-- The opening bracket does not become part of a longer mark. -/
  head?_ne : s.toList.head? ≠ some '('
  /-- The closing bracket is not escaped. -/
  getLast?_ne : s.toList.getLast? ≠ some '\\'
  /-- No other backtick stands between backticks. -/
  notMem : brackets = .backticks → '\x60' ∉ s.toList
  /-- The text can be scanned. -/
  scans : ∃ tokens, (TokenStream.ofString s).tokens = .ok tokens

namespace Encloses

variable {brackets : Brackets} (h : Encloses brackets s s')
include h

theorem width_eq : Text.width s'.toList = Text.width s.toList + Text.width brackets.left + 1 := by
  rw [h.toList_eq, Text.width_append, Text.width_append, brackets.width_right]
  omega

/-- The stream of the text stands between the brackets. -/
theorem ofString_eq :
    TokenStream.ofString s' = .next ⟨brackets.opening, 0, brackets.left⟩
      (((TokenStream.ofString s).shift (Text.width brackets.left)).glue
        (.next (brackets.closer (Text.width s.toList + Text.width brackets.left))
          (.finished (Text.width s'.toList)))) := by
  obtain ⟨tokens, htokens⟩ := h.scans
  have hright := brackets.cuts_right.ofText_eq (Text.width s.toList + Text.width brackets.left)
  rw [List.append_nil, TokenStream.ofText_nil, brackets.width_right] at hright
  rw [TokenStream.ofString, h.toList_eq, (brackets.cuts_left h.head?_ne).ofText_eq,
    TokenStream.ofText_append_shift htokens h.getLast?_ne brackets.right_mem_breaks, Nat.zero_add,
    hright, ← h.toList_eq, h.width_eq]
  rfl

theorem ticks (hticks : (!brackets.inBackticks) = false) :
    (TokenStream.ofString s).Tickless := by
  obtain ⟨tokens, htokens⟩ := h.scans
  cases brackets with
  | parentheses => simp [Brackets.inBackticks] at hticks
  | backticks => exact tickless_ofString (h.notMem rfl) htokens

end Encloses

/-- The parse of a text goes along behind the opening bracket, up to the closing one. -/
abbrev inside (brackets : Brackets) (s s' : String) : Simulation :=
  inFront (Text.width s.toList) (Text.width brackets.left) 1 (!brackets.inBackticks)
    (brackets.closer (Text.width s.toList + Text.width brackets.left))
    (.finished (Text.width s'.toList)) rfl (by cases brackets <;> rfl) brackets.closing_ne.1

/-- Behind the opening bracket the text goes along with the text alone. -/
theorem Encloses.exists_inStep {brackets : Brackets} {c : Cursor} (h : Encloses brackets s s')
    (hopens : c.Opens s) :
    ∃ c' d : Cursor, c'.Opens s' ∧ c'.current = ⟨brackets.opening, 0, brackets.left⟩ ∧
      c'.Passes [c'.current] d ∧ (inside brackets s s').InStep c d := by
  obtain ⟨c', hopens'⟩ : ∃ c' : Cursor, c'.Opens s' :=
    exists_opens_of_ne_failed fun error => by simp [h.ofString_eq]
  have hfront : c'.stream = TokenStream.prepend [_] _ := hopens'.stream_eq.trans h.ofString_eq
  obtain ⟨d, hpasses, hd⟩ := exists_passes hopens'.placed hfront
    (TokenStream.shift_glue_ne_failed hopens.ne_failed (by simp))
  obtain ⟨hcurrent, -⟩ := passes_cons_iff_step.1 hpasses
  rw [← hcurrent] at hpasses
  refine ⟨c', d, hopens', hcurrent, hpasses, ?_⟩
  have hplaced := hpasses.placed hopens'.placed
  have hstart : d.current.start = Text.width brackets.left := by
    rw [← (hpasses.laidOut hopens'.placed).2, hcurrent, Lexeme.stop, Nat.zero_add]
  have hopening : c'.current.kind ≠ .whitespace := by
    rw [hcurrent]
    cases brackets <;> decide
  refine inStep_inFront hopens hplaced ?_ ?_ hd h.ticks rfl (by cases brackets <;> rfl)
    brackets.closing_ne.1
  · have hlast : c'.Passes ([] ++ [c'.current]) d := hpasses
    rw [hlast.lastEnd_eq hopens'.placed hopening, hstart]
  · rw [hpasses.size_eq hopens'.placed, hopens'.size_eq, h.width_eq]

/-- Between brackets the script of a text is read as the text is parsed. -/
theorem Encloses.substitution_eq_ok {brackets : Brackets} (h : Encloses brackets s s')
    (hparse : parse ⟨n⟩ s = .ok body) :
    ∃ c e : Cursor, c.Opens s' ∧ c.current = ⟨brackets.opening, 0, brackets.left⟩ ∧
      e.current.kind = .stop ∧ e.lastEnd = Text.width s'.toList ∧
      substitution (levelContext (n + 1) false (n + 1)) brackets.opening brackets.closing
        brackets.inBackticks c =
          .ok (.substitution (body.mapSpans (Span.shift (Text.width brackets.left)))) e := by
  obtain ⟨c, read, last, hopens, hloops, hstop, hend, rfl, -⟩ := loops_of_parse hparse
  obtain ⟨c', d, hopens', hcurrent, hpasses, hstep⟩ := h.exists_inStep hopens
  have hfollows : (inside brackets s s').ContextFollows (ParseLimits.context ⟨n⟩)
      (levelContext (n + 1) brackets.inBackticks n) := by
    refine Simulation.contextFollows_levelContext (.inr ⟨Nat.le_refl n, fun _ => trivial⟩) ?_
      brackets.stops_closing
    intro hticks
    have hfalse : (!brackets.inBackticks) = true := hticks
    simpa using hfalse
  obtain ⟨d', hd', hloop⟩ := Simulation.loop_in_front brackets.closing_ne.1 (fun _ => id) hfollows
    (levelContext_orderly _ _ _) (levelContext_orderly _ _ _) hloops hstop hstep []
  obtain ⟨hcloser, hahead⟩ := inFront_current hd' hstop
  have hkind : d'.current.kind = brackets.closing := by
    rw [hcloser]
    rfl
  -- the bracket ends the script, since it ends no statement
  rw [resume_of_kind_ne (by rw [hkind]; exact brackets.closing_ne.2.1)] at hloop
  have hstart : d.current.start = 0 + Text.width brackets.left := by
    rw [← (hpasses.laidOut hopens'.placed).2, hcurrent, Lexeme.stop]
  have hscript : script (n + 1) n brackets.inBackticks d =
      .ok ((Script.ofStatements 0 read.reverse).mapSpans
        (Span.shift (Text.width brackets.left))) d' := by
    have hloop' : loop (scriptRound (levelContext (n + 1) brackets.inBackticks n)) [] d =
        .ok (read.map (Statement.mapSpans (Span.shift (Text.width brackets.left))) ++ []) d' :=
      hloop
    rw [script_eq_scriptIn, scriptIn, current_bind_apply, bind_of_eq_ok _ hloop',
      Simulation.mapSpans_ofStatements, hstart]
    simp
  have hnext : d'.stream = TokenStream.prepend [d'.current] (.finished (Text.width s'.toList)) := by
    rw [stream_of_ne_stop (hkind ▸ brackets.closing_ne.1), hahead]
    rfl
  obtain ⟨e, hclose, hfinished⟩ := exists_passes hd'.placed' hnext (by simp)
  have hcurrent' := (hclose.placed hd'.placed').current_of_finished hfinished
  have hlast : d'.Passes ([] ++ [d'.current]) e := hclose
  have hlastEnd := hlast.lastEnd_eq hd'.placed' (by rw [hkind]; exact brackets.closing_ne.2.2)
  refine ⟨c', e, hopens', hcurrent, by rw [hcurrent', Lexeme.endMarker], ?_, ?_⟩
  · rw [hlastEnd, hcurrent', Lexeme.endMarker]
  · exact (substitution_eq_ok_iff brackets.opening_ne brackets.closing_ne.1).2
      ⟨_, d, _, d', rfl, by rw [hcurrent], hpasses, hscript, hkind, hclose, rfl⟩

/-- Between brackets, a text that can be parsed is parsed to the same script further on. -/
theorem Encloses.parse_eq {brackets : Brackets} (h : Encloses brackets s s')
    (hparse : parse ⟨n⟩ s = .ok body) :
    parse ⟨n + 1⟩ s' = .ok (.ofPart
      (.substitution (body.mapSpans (Span.shift (Text.width brackets.left))))
      ⟨0, Text.width s'.toList⟩) := by
  obtain ⟨c, e, hopens, hcurrent, hstop, hlastEnd, hsubstitution⟩ := h.substitution_eq_ok hparse
  have hcontext := levelContext_orderly (n + 1) (n + 1) false
  have hkind : startsPart (levelContext (n + 1) false (n + 1)).inBackticks false
      c.current.kind = true := by
    rw [hcurrent]
    cases brackets <;> rfl
  have hpart : part? (levelContext (n + 1) false (n + 1)) false c = .ok (some
      (.substitution (body.mapSpans (Span.shift (Text.width brackets.left))))) e := by
    refine (part?_eq_ok_iff hopens.placed).2 ?_
    cases brackets with
    | parentheses => exact .parentheses (by rw [hcurrent]; rfl) hsubstitution
    | backticks => exact .backticks (by rw [hcurrent]; rfl) rfl hsubstitution
  have hscript := scriptIn_of_part hcontext hopens.placed hkind hpart hstop
    (by rw [hcurrent]; exact Nat.zero_le _)
  rw [hcurrent, hlastEnd] at hscript
  refine parse_eq_ok_iff.2 ⟨c, e, hopens, ?_, hstop⟩
  rw [script_eq_scriptIn]
  exact hscript

/-- **The script of a substitution is parsed like a whole input**: between parentheses behind a
dollar sign, and between backticks when there are no others. -/
theorem parse_enclosed (h : parse ⟨n⟩ s = .ok body) (hlast : s.toList.getLast? ≠ some '\\') :
    parse ⟨n + 1⟩ ("$(" ++ s ++ ")") = .ok (.ofPart
      (.substitution (body.mapSpans (Span.shift 2))) ⟨0, Text.width s.toList + 3⟩) ∧
    ('\x60' ∉ s.toList → parse ⟨n + 1⟩ ("\x60" ++ s ++ "\x60") = .ok (.ofPart
      (.substitution (body.mapSpans (Span.shift 1))) ⟨0, Text.width s.toList + 2⟩)) := by
  obtain ⟨-, -, -, -, -, -, -, -, hscans⟩ := loops_of_parse h
  constructor
  · have hencloses : Encloses .parentheses s ("$(" ++ s ++ ")") :=
      ⟨by simp [Brackets.left, Brackets.right], head?_of_parse h, hlast, by simp, hscans⟩
    have hparse := hencloses.parse_eq h
    rwa [hencloses.width_eq] at hparse
  · intro hnotMem
    have hencloses : Encloses .backticks s ("\x60" ++ s ++ "\x60") :=
      ⟨by simp [Brackets.left, Brackets.right], head?_of_parse h, hlast, fun _ => hnotMem, hscans⟩
    have hparse := hencloses.parse_eq h
    rwa [hencloses.width_eq] at hparse

/-- The script of `ls $(a) >b; wc &`: two statements, a redirection and a substitution. -/
def listing : Script where
  statements :=
    [⟨⟨[{
          assignments := []
          arguments := [⟨[.literal "ls"], ⟨0, 2⟩⟩,
            ⟨[.substitution (.ofPart (.literal "a") ⟨5, 6⟩)], ⟨3, 7⟩⟩]
          input := none
          output := some ⟨[.literal "b"], ⟨9, 10⟩⟩
          append := none
          span := ⟨0, 10⟩ }], ⟨0, 10⟩⟩, false, ⟨0, 10⟩⟩,
      { Statement.ofPart (.literal "wc") ⟨12, 14⟩ with background := true, span := ⟨12, 16⟩ }]
  span := ⟨0, 16⟩

theorem parse_listing : parse ⟨1⟩ "ls $(a) >b; wc &" = .ok listing := by
  decide +kernel

/-- The listing in parentheses and in backticks, where the substitution in it is one level
further down. -/
theorem parse_enclosed_listing :
    parse ⟨1⟩ "ls $(a) >b; wc &" = .ok listing ∧
      parse ⟨2⟩ "$(ls $(a) >b; wc &)" = .ok (.ofPart
        (.substitution (listing.mapSpans (Span.shift 2))) ⟨0, 19⟩) ∧
      parse ⟨2⟩ "\x60ls $(a) >b; wc &\x60" = .ok (.ofPart
        (.substitution (listing.mapSpans (Span.shift 1))) ⟨0, 18⟩) := by
  have henclosed := parse_enclosed parse_listing (by decide)
  exact ⟨parse_listing, henclosed.1, henclosed.2 (by decide)⟩

end CommandSyntax
