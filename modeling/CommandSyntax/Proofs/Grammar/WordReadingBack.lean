import CommandSyntax.Proofs.Grammar.Standing
import CommandSyntax.Proofs.Grammar.StatementSuccess
import CommandSyntax.Proofs.Script.Depth
import CommandSyntax.Proofs.Script.Printing

/-!
# CommandSyntax.Proofs.Grammar.WordReadingBack

**Words are read back from their text.** In front of the text of a well-formed part, word
or assignment its production succeeds, stands in front of what follows then, and gives the
tree up to spans.

Whether a text is read as it was printed depends on what comes after it, and only on the
kind of lexeme with which that begins. So each statement tells with which kinds a text
may begin and which kinds may follow it (`ReadsText`). The statements for all nodes stand
here (`Node.ReadsBack`), as the parts of a word hold scripts again.
-/

namespace CommandSyntax

open Cursor Production

variable {limit : Nat} {c c' : Cursor} {kind : TokenKind} {text rest : List Char}

/-- A production reads a text back. The text begins with one of some kinds of lexemes, and if
one of some other kinds follows it, then the production passes it and gives what it should. -/
structure ReadsText {α : Type} (limit depth : Nat) (production : Context → Production α)
    (text : List Char) (starts follows : List TokenKind) (like : α → Prop) : Prop where
  /-- How the text begins. -/
  heads : ∀ {rest kind}, Heads kind rest → kind ∈ follows →
    ∃ first ∈ starts, Heads first (text ++ rest)
  /-- What the production does, when there are levels enough. -/
  reads : ∀ {levels rest kind c}, depth ≤ levels → Heads kind rest → kind ∈ follows →
    Stands c (text ++ rest) →
    ∃ value c', production (levelContext limit false levels) c = .ok value c' ∧ c'.Stands rest ∧
      like value

/-! ### How texts begin and end -/

/-- The kinds of lexemes with which printed parts begin. -/
def partStarts : List TokenKind :=
  [.singleQuoted, .startExpansion, .startSubstitution, .globStar, .globOne, .globCharset]

/-- The kinds of lexemes with which printed commands begin. -/
def commandStarts : List TokenKind :=
  partStarts ++ [.assignmentLhs, .readRedirect, .writeRedirect, .appendRedirect]

/-- The kinds of lexemes that may follow a printed part. -/
def partFollows : List TokenKind := [.whitespace, .doubleQuote]

/-- The kinds of lexemes that may follow a printed command. -/
def commandFollows : List TokenKind := [.pipe, .background, .statementEnd]

theorem ends_of_mem_commandFollows (h : kind ∈ commandFollows) : ends false kind = true := by
  simp only [commandFollows, List.mem_cons, List.not_mem_nil, or_false] at h
  rcases h with rfl | rfl | rfl <;> rfl

/-- The kinds of lexemes that may follow a printed script. -/
def scriptFollows : List TokenKind := [.stop, .rightParen]

/-- A node is read back from its text, up to spans. -/
def Node.ReadsBack (limit : Nat) : Node → Prop
  | .part p => ReadsText limit (Node.part p).substitutionDepth (part? · false) p.print
      partStarts partFollows (Option.map (Part.mapSpans eraseSpan) · = some (p.mapSpans eraseSpan))
  | .word w => ReadsText limit (Node.word w).substitutionDepth word? w.print
      partStarts [.whitespace]
      (Option.map (Word.mapSpans eraseSpan) · = some (w.mapSpans eraseSpan))
  | .assignment a => ReadsText limit (Node.assignment a).substitutionDepth Production.assignment
      a.print [.assignmentLhs] [.whitespace]
      (Assignment.mapSpans eraseSpan · = a.mapSpans eraseSpan)
  | .command c => ReadsText limit (Node.command c).substitutionDepth command? c.print
      commandStarts commandFollows
      (Option.map (Command.mapSpans eraseSpan) · = some (c.mapSpans eraseSpan))
  | .pipeline p => ReadsText limit (Node.pipeline p).substitutionDepth pipeline?
      p.print commandStarts [.background, .statementEnd]
      (Option.map (Pipeline.mapSpans eraseSpan) · = some (p.mapSpans eraseSpan))
  | .statement s => ReadsText limit (Node.statement s).substitutionDepth statement?
      s.print commandStarts [.statementEnd]
      (Option.map (Statement.mapSpans eraseSpan) · = some (s.mapSpans eraseSpan))
  | .script s => ReadsText limit (Node.script s).substitutionDepth scriptIn
      s.print (commandStarts ++ scriptFollows) scriptFollows
      (Script.mapSpans eraseSpan · = s.mapSpans eraseSpan)
  | .substitution s => ReadsText limit (Node.script s).substitutionDepth scriptIn
      s.print (commandStarts ++ scriptFollows) scriptFollows
      (Script.mapSpans eraseSpan · = s.mapSpans eraseSpan)
  | .glob _ => True

/-! ### Where words end -/

theorem endsWord_of_stands {levels : Nat} (h : c.Stands text) (hheads : Heads kind text)
    (hkind : inWord false kind = false) :
    EndsWord (levelContext limit false levels).inBackticks false c c :=
  endsWord_self (by rwa [inBackticks_levelContext, h.kind_eq hheads])

theorem word?_of_stands {levels : Nat} (h : c.Stands text) (hheads : Heads kind text)
    (hkind : inWord false kind = false) :
    word? (levelContext limit false levels) c = .ok none c :=
  (word?_eq_none_iff (levelContext_orderly _ _ _) h.placed).2
    (endsWord_of_stands h hheads hkind)

/-! ### Parts -/

/-- A part that is one lexeme is read back when the production gives it there. -/
theorem readsBack_of_cuts {part : Part} (hkind : kind ∈ partStarts)
    (hcuts : ∀ rest, Cuts kind part.print rest)
    (hpart : ∀ {context c c'}, c.Placed → c.current.kind = kind → c.current.text = part.print →
      c.Passes [c.current] c' → c'.current.kind ∈ partFollows →
      part? context false c = .ok (some part) c') :
    (Node.part part).ReadsBack limit where
  heads _ _ := ⟨kind, hkind, (hcuts _).heads⟩
  reads _ hrest hfollows h := by
    obtain ⟨hcurrent, htext, c', hpasses, h'⟩ := h.cut (hcuts _) hrest
    exact ⟨some part, c', hpart h.placed hcurrent htext hpasses (h'.kind_eq hrest ▸ hfollows), h',
      rfl⟩

theorem readsBack_literal {text : String} (htext : text ≠ "") :
    (Node.part (.literal text)).ReadsBack limit := by
  refine readsBack_of_cuts (by simp [partStarts]) (cuts_singleQuoted text.toList)
    fun {context c c'} hc hkind hcurrent hpasses hfollows => ?_
  refine (part?_eq_ok_iff hc).2 (.text (by simp [hkind, startsPart]) ((text?_eq_ok_iff hc).2
    ⟨[c.current], hpasses, by simp [hkind, isText], ?_, ?_⟩))
  · simp only [partFollows, List.mem_cons, List.not_mem_nil, or_false] at hfollows
    rcases hfollows with hnext | hnext <;> simp [hnext, isText]
  · have hmeant : textOf false c.current = text.toList := by
      simp [textOf, textOf?, hkind, hcurrent, Part.print, inside]
    simp [hmeant, Part.literal?, htext]

theorem readsBack_glob {pattern : Glob} (hpattern : (Node.glob pattern).WellFormed) :
    (Node.part (.glob pattern)).ReadsBack limit := by
  cases pattern with
  | star =>
    exact readsBack_of_cuts (by simp [partStarts])
      (fun _ => cuts_of_mem_marks (by simp [Part.print, marks]))
      fun hc hkind hcurrent hpasses _ => (part?_eq_ok_iff hc).2 (.star rfl hkind hpasses)
  | one =>
    exact readsBack_of_cuts (by simp [partStarts])
      (fun _ => cuts_of_mem_marks (by simp [Part.print, marks]))
      fun hc hkind hcurrent hpasses _ => (part?_eq_ok_iff hc).2 (.one rfl hkind hpasses)
  | charset set =>
    refine readsBack_of_cuts (by simp [partStarts]) (fun _ => cuts_globCharset hpattern)
      fun {context c c'} hc hkind hcurrent hpasses _ => ?_
    have hpart := (part?_eq_ok_iff hc).2 (.charset rfl hkind hpasses : PartAt context false c _ c')
    simpa [hcurrent, Part.print, inside] using hpart

/-- The name of a parameter is one lexeme in front of the closing brace. -/
theorem exists_cuts_of_name {name : String} (hname : name = "?" ∨ IsName name.toList) :
    ∃ kind, kind ≠ .rightBrace ∧ ∀ rest, Cuts kind name.toList ('}' :: rest) := by
  rcases hname with rfl | hname
  · exact ⟨.globOne, by simp, fun rest => cuts_of_mem_marks (by simp [marks])⟩
  · exact ⟨.raw, by simp, fun rest => cuts_raw hname (beginsDelimited_cons (by decide))⟩

theorem readsBack_parameter {name : String} (hname : name = "?" ∨ IsName name.toList) :
    (Node.part (.parameter name)).ReadsBack limit := by
  obtain ⟨kind, hkind, hcuts⟩ := exists_cuts_of_name hname
  have hopener (rest : List Char) : Cuts .startExpansion ['$', '{'] rest :=
    cuts_of_mem_marks (by simp [marks])
  have hcloser (rest : List Char) : Cuts .rightBrace ['}'] rest :=
    cuts_of_mem_marks (by simp [marks])
  have htext (rest : List Char) : (Part.parameter name).print ++ rest =
      ['$', '{'] ++ (name.toList ++ (['}'] ++ rest)) := by simp [Part.print]
  refine ⟨fun {rest _} _ _ => ⟨.startExpansion, by simp [partStarts], ?_⟩,
    fun {levels rest _ c} _ hrest _ h => ?_⟩
  · rw [htext]
    exact (hopener _).heads
  · rw [htext] at h
    obtain ⟨hkind₁, -, c₁, hpasses₁, h₁⟩ := h.cut (hopener _) (hcuts rest).heads
    obtain ⟨hkind₂, htext₂, c₂, hpasses₂, h₂⟩ := h₁.cut (hcuts rest) (hcloser rest).heads
    obtain ⟨hkind₃, -, c', hpasses₃, h'⟩ := h₂.cut (hcloser rest) hrest
    have hbraced := (bracedParameter_eq_ok_iff h.placed).2
      ⟨c.current, [c₁.current], c₂.current, hpasses₁.trans (hpasses₂.trans hpasses₃), hkind₁,
        by simp, by simpa [hkind₂] using hkind, hkind₃, rfl⟩
    refine ⟨_, c', (part?_eq_ok_iff h.placed).2 (.braced hkind₁ hbraced), h', ?_⟩
    simp [htext₂]

theorem readsBack_substitution {body : Script} (hbody : (Node.substitution body).ReadsBack limit) :
    (Node.part (.substitution body)).ReadsBack limit := by
  have hcloser (rest : List Char) : Cuts .rightParen [')'] rest :=
    cuts_of_mem_marks (by simp [marks])
  have htext (rest : List Char) : (Part.substitution body).print ++ rest =
      ['$', '('] ++ (body.print ++ ([')'] ++ rest)) := by simp [Part.print]
  have hopener (rest : List Char) :
      Cuts .startSubstitution ['$', '('] (body.print ++ ([')'] ++ rest)) := by
    obtain ⟨first, hfirst, hheads⟩ := hbody.heads (hcloser rest).heads (by simp [scriptFollows])
    exact cuts_openMark '(' (by simp [openMarks])
      (by simp [commandStarts, partStarts, scriptFollows, longer]) hfirst hheads
  refine ⟨fun {rest _} _ _ => ⟨.startSubstitution, by simp [partStarts], ?_⟩,
    fun {levels rest _ c} hlevels hrest _ h => ?_⟩
  · rw [htext]
    exact (hopener _).heads
  · rw [htext] at h
    obtain ⟨first, -, hheads⟩ := hbody.heads (hcloser rest).heads (by simp [scriptFollows])
    have hdepth : 1 + (Node.script body).substitutionDepth ≤ levels := by
      have hpart := Node.substitutionDepth_child_le (.part (.substitution body))
        (.substitution body) List.mem_cons_self
      have hinner := Node.substitutionDepth_child_le (.substitution body) (.script body)
        List.mem_cons_self
      rw [Node.kind, if_pos rfl] at hinner
      omega
    -- the substitution takes one level, and its script is read with those that are left
    obtain ⟨levels, rfl⟩ : ∃ n, levels = n + 1 := ⟨levels - 1, by omega⟩
    obtain ⟨hkind₁, -, c₁, hpasses₁, h₁⟩ := h.cut (hopener _) hheads
    have hlevels' : (Node.script body).substitutionDepth ≤ levels := by omega
    obtain ⟨value, c₂, hvalue, h₂, hlike⟩ :=
      hbody.reads hlevels' (hcloser rest).heads (by simp [scriptFollows]) h₁
    obtain ⟨hkind₂, -, c', hpasses₂, h'⟩ := h₂.cut (hcloser rest) hrest
    have hbody' : script limit levels false c₁ = .ok value c₂ := by
      rw [script_eq_scriptIn]
      exact hvalue
    have hsubstitution : substitution (levelContext limit false (levels + 1)) .startSubstitution
        .rightParen false c = .ok (.substitution value) c' :=
      (substitution_eq_ok_iff (by simp) (by simp)).2
        ⟨script limit levels, c₁, value, c₂, rfl, hkind₁, hpasses₁, hbody', hkind₂, hpasses₂, rfl⟩
    refine ⟨_, c', (part?_eq_ok_iff h.placed).2 (.parentheses hkind₁ hsubstitution), h', ?_⟩
    simpa [Part.mapSpans] using hlike

/-! ### Words -/

/-- A pair of double quotes is passed over. -/
theorem toggleQuotes_of_stands (h : c.Stands (['"', '"'] ++ rest)) (hrest : Heads kind rest)
    (hkind : kind ≠ .doubleQuote) :
    ∃ c', toggleQuotes false c = .ok false c' ∧ c'.Stands rest := by
  have hquote (rest : List Char) : Cuts .doubleQuote ['"'] rest :=
    cuts_of_mem_marks (by simp [marks])
  obtain ⟨hkind₁, -, c₁, hpasses₁, h₁⟩ :=
    Stands.cut (show c.Stands (['"'] ++ (['"'] ++ rest)) from h) (hquote _) (hquote rest).heads
  obtain ⟨hkind₂, -, c', hpasses₂, h'⟩ := h₁.cut (hquote rest) hrest
  refine ⟨c', (toggleQuotes_eq_ok_iff h.placed).2 ⟨[c.current, c₁.current],
    hpasses₁.trans hpasses₂, by simp [hkind₁, hkind₂], ?_, by simp⟩, h'⟩
  rwa [h'.kind_eq hrest]

theorem intercalate_cons_cons (separator first second : List Char) (pieces : List (List Char)) :
    separator.intercalate (first :: second :: pieces) =
      first ++ (separator ++ separator.intercalate (second :: pieces)) := by
  simp [List.intercalate]

/-- The parts of a word as text. -/
def printParts (parts : List Part) : List Char := ['"', '"'].intercalate (parts.map Part.print)

theorem printParts_cons_cons (part next : Part) (parts : List Part) :
    printParts (part :: next :: parts) =
      part.print ++ (['"', '"'] ++ printParts (next :: parts)) :=
  intercalate_cons_cons ..

theorem printParts_singleton (part : Part) : printParts [part] = part.print := by
  simp [printParts]

theorem Word.print_eq (word : Word) : word.print = printParts word.parts := by
  obtain ⟨parts, span⟩ := word
  simp [Word.print, printParts]

section Parts

variable {parts : List Part} (hparts : ∀ part ∈ parts, (Node.part part).ReadsBack limit)
include hparts

theorem heads_printParts (hne : parts ≠ []) (hrest : Heads .whitespace rest) :
    ∃ first ∈ partStarts, Heads first (printParts parts ++ rest) := by
  obtain ⟨part, parts, rfl⟩ := List.exists_cons_of_ne_nil hne
  have hpart := hparts part List.mem_cons_self
  cases parts with
  | nil =>
    rw [printParts_singleton]
    exact hpart.heads hrest (by simp [partFollows])
  | cons next parts =>
    have hquotes : Cuts .doubleQuote ['"'] (['"'] ++ printParts (next :: parts) ++ rest) :=
      cuts_of_mem_marks (by simp [marks])
    have := hpart.heads hquotes.heads (by simp [partFollows])
    simpa [printParts_cons_cons] using this

/-- Parts are read back one by one, each after a pair of double quotes. -/
theorem partsFrom_of_stands {levels : Nat} (hne : parts ≠ [])
    (hdepth : ∀ part ∈ parts, (Node.part part).substitutionDepth ≤ levels)
    (hrest : Heads .whitespace rest) {c₁ : Cursor} (htoggle : toggleQuotes false c = .ok false c₁)
    (h : c₁.Stands (printParts parts ++ rest)) :
    ∃ parts' c', PartsFrom (levelContext limit false levels) false c parts' c' ∧ c'.Stands rest ∧
      parts'.map (Part.mapSpans eraseSpan) = parts.map (Part.mapSpans eraseSpan) := by
  induction parts generalizing c c₁ with
  | nil => exact absurd rfl hne
  | cons part parts ih =>
    obtain ⟨hpart, hmore⟩ := List.forall_mem_cons.1 hparts
    obtain ⟨hpartDepth, hmoreDepth⟩ := List.forall_mem_cons.1 hdepth
    cases parts with
    | nil =>
      rw [printParts_singleton] at h
      obtain ⟨value, c', hvalue, h', hlike⟩ :=
        hpart.reads hpartDepth hrest (by simp [partFollows]) h
      obtain ⟨part', rfl, hpart'⟩ := Option.map_eq_some_iff.1 hlike
      have hends : EndsWord (levelContext limit false levels).inBackticks false c' c' :=
        endsWord_of_stands h' hrest (by simp [inWord, startsPart, isText])
      exact ⟨[part'], c', .part htoggle hvalue (.done hends), h', by simp [hpart']⟩
    | cons next parts =>
      obtain ⟨first, hfirst, hheads⟩ := heads_printParts hmore (by simp) hrest
      rw [printParts_cons_cons, List.append_assoc, List.append_assoc] at h
      have hquotes : Cuts .doubleQuote ['"'] (['"'] ++ (printParts (next :: parts) ++ rest)) :=
        cuts_of_mem_marks (by simp [marks])
      obtain ⟨value, c₂, hvalue, h₂, hlike⟩ :=
        hpart.reads hpartDepth hquotes.heads (by simp [partFollows]) h
      obtain ⟨part', rfl, hpart'⟩ := Option.map_eq_some_iff.1 hlike
      obtain ⟨c₃, htoggle', h₃⟩ := toggleQuotes_of_stands h₂ hheads
        (ne_of_mem_of_not_mem hfirst (by simp [partStarts]))
      obtain ⟨parts', c', hparts', h', hlikes⟩ := ih hmore (by simp) hmoreDepth htoggle' h₃
      refine ⟨part' :: parts', c', .part htoggle hvalue hparts', h', ?_⟩
      rw [List.map_cons, hpart', hlikes]
      rfl

end Parts

theorem readsBack_word {word : Word} (hne : word.parts ≠ [])
    (hparts : ∀ part ∈ word.parts, (Node.part part).ReadsBack limit) :
    (Node.word word).ReadsBack limit := by
  have hdepth : ∀ part ∈ word.parts,
      (Node.part part).substitutionDepth ≤ (Node.word word).substitutionDepth := fun _ hmem =>
    Node.substitutionDepth_le_of_mem_children (List.mem_map_of_mem hmem)
  refine ⟨fun {rest kind} hrest hfollows => ?_,
    fun {levels rest kind c} hlevels hrest hfollows h => ?_⟩
  · obtain rfl := List.mem_singleton.1 hfollows
    rw [Word.print_eq]
    exact heads_printParts hparts hne hrest
  · obtain rfl := List.mem_singleton.1 hfollows
    rw [Word.print_eq] at h
    -- no quote stands in front of the first part
    obtain ⟨first, hfirst, hheads⟩ := heads_printParts hparts hne hrest
    have htoggle : toggleQuotes false c = .ok false c := by
      refine (toggleQuotes_eq_ok_iff h.placed).2 ⟨[], .nil c, by simp, ?_, by simp⟩
      rw [h.kind_eq hheads]
      exact ne_of_mem_of_not_mem hfirst (by simp [partStarts])
    obtain ⟨parts, c', hread, h', hlike⟩ := partsFrom_of_stands hparts hne
      (fun part hmem => Nat.le_trans (hdepth part hmem) hlevels) hrest htoggle h
    refine ⟨some ⟨parts, c.current.start, c'.lastEnd⟩, c', (word?_eq_some_iff
      (levelContext_orderly _ _ _) h.placed).2 ⟨hread, ?_, rfl⟩, h', ?_⟩
    · rintro rfl
      exact hne (List.map_eq_nil_iff.1 hlike.symm)
    · obtain ⟨parts', span⟩ := word
      simpa [Word.mapSpans, eraseSpan] using hlike

/-! ### Assignments -/

theorem readsBack_assignment {target : Assignment} (hname : IsName target.name.toList)
    (hvalue : ∀ word ∈ target.value, (Node.word word).ReadsBack limit) :
    (Node.assignment target).ReadsBack limit := by
  obtain ⟨name, value, span⟩ := target
  have hcuts (rest : List Char) := cuts_assignmentLhs hname rest
  have htext (rest : List Char) : (Assignment.mk name value span).print ++ rest =
      (name.toList ++ ['=']) ++ ((value.toList.map Word.print).flatten ++ rest) := by
    simp [Assignment.print]
  refine ⟨fun {rest kind} _ _ => ⟨.assignmentLhs, by simp, ?_⟩,
    fun {levels rest kind c} hlevels hrest hfollows h => ?_⟩
  · rw [htext]
    exact (hcuts _).heads
  · obtain rfl := List.mem_singleton.1 hfollows
    rw [htext] at h
    have hassignment {c₁ c' : Cursor} {value' : Option Word}
        (hkind : c.current.kind = .assignmentLhs) (hcurrent : c.current.text = name.toList ++ ['='])
        (hpasses : c.Passes [c.current] c₁)
        (hok : word? (levelContext limit false levels) c₁ = .ok value' c')
        (hlike : value'.map (Word.mapSpans eraseSpan) = value.map (Word.mapSpans eraseSpan))
        (h' : c'.Stands rest) :
        ∃ result c', Production.assignment (levelContext limit false levels) c = .ok result c' ∧
          c'.Stands rest ∧
          result.mapSpans eraseSpan = (Assignment.mk name value span).mapSpans eraseSpan := by
      refine ⟨_, c', (assignment_eq_ok_iff h.placed).2
        ⟨c₁, value', hkind, hpasses, hok, rfl⟩, h', ?_⟩
      simp [Assignment.mapSpans, hcurrent, hlike, eraseSpan]
    -- what comes behind the name decides whether it has a value
    cases value with
    | none =>
      obtain ⟨hkind, hcurrent, c₁, hpasses, h₁⟩ := h.cut (hcuts _) hrest
      have hnone : word? (levelContext limit false levels) c₁ = .ok none c₁ :=
        word?_of_stands h₁ hrest (by simp [inWord, startsPart, isText])
      exact hassignment hkind hcurrent hpasses hnone rfl h₁
    | some word =>
      have hword := hvalue word rfl
      have hdepth : (Node.word word).substitutionDepth ≤ levels :=
        Nat.le_trans (Node.substitutionDepth_le_of_mem_children (by simp [Node.children])) hlevels
      simp only [Option.toList_some, List.map_cons, List.map_nil, List.flatten_cons,
        List.flatten_nil, List.append_nil] at h
      obtain ⟨first, -, hheads⟩ := hword.heads hrest hfollows
      obtain ⟨hkind, hcurrent, c₁, hpasses, h₁⟩ := h.cut (hcuts _) hheads
      obtain ⟨value', c', hok, h', hlike⟩ := hword.reads hdepth hrest hfollows h₁
      exact hassignment hkind hcurrent hpasses hok hlike h'

end CommandSyntax
