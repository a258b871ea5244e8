import CommandSyntax.Proofs.Grammar.Origin
import CommandSyntax.Proofs.Script.Placement

/-!
# CommandSyntax.Proofs.Grammar.Framing

**Spans between two cursors.** Everything with a span that a production gives is framed by two
of the lexemes that it passes (`Frames`): one of them starts where the span does, the other ends
where it does, and neither is whitespace. What is gathered one after the other is framed in
order (`FramesInOrder`).

The ends of spans come from the end that a cursor noted last, which all levels of nesting share.
It never lies ahead of the cursor and never goes back (`Marked`), so it is the end of the last
lexeme passed that is not whitespace.
-/

namespace CommandSyntax

namespace Cursor

variable {c c' d d' : Cursor} {span : Span} {spans spans' : List Span} {lexemes : List Lexeme}

/-! ### The end noted last -/

/-- A placed cursor for which the end noted last is not ahead. -/
structure Marked (c : Cursor) : Prop where
  /-- The cursor is placed. -/
  placed : c.Placed
  /-- What is noted is the end of something that is left behind. -/
  lastEnd_le : c.lastEnd ≤ c.current.start

/-- Passing lexemes moves the noted end to the last of them that is not whitespace. -/
theorem Marked.passes (hc : c.Marked) (h : c.Passes lexemes c') :
    c'.Marked ∧ c.lastEnd ≤ c'.lastEnd ∧
      ((∀ lexeme ∈ lexemes, lexeme.kind = .whitespace) ∧ c'.lastEnd = c.lastEnd ∨
        ∃ last ∈ lexemes, last.kind ≠ .whitespace ∧ last.stop = c'.lastEnd) := by
  induction h with
  | nil c => exact ⟨hc, Nat.le_refl _, .inl ⟨by simp, rfl⟩⟩
  | @cons c c₁ c₂ lexemes hkind htake _ ih =>
    have hleaves := leaves_of_take hc.placed hkind htake
    have hlt := Lexeme.lt_stop_of_text_ne_nil (hc.placed.scanned hkind).text_ne_nil
    have hle := hc.lastEnd_le
    have hstart := hleaves.start_eq
    have hlast := hleaves.lastEnd_eq
    have hc₁ : c₁.Marked := by
      refine ⟨hleaves.placed, ?_⟩
      split at hlast <;> omega
    obtain ⟨hc₂, hmono, hend⟩ := ih hc₁
    by_cases hblank : c.current.kind = .whitespace
    · rw [if_pos hblank] at hlast
      refine ⟨hc₂, by omega, ?_⟩
      rcases hend with ⟨hall, heq⟩ | ⟨last, hmem, hlast⟩
      · exact .inl ⟨by simpa using ⟨hblank, hall⟩, heq.trans hlast⟩
      · exact .inr ⟨last, List.mem_cons_of_mem _ hmem, hlast⟩
    · rw [if_neg hblank] at hlast
      refine ⟨hc₂, by omega, .inr ?_⟩
      rcases hend with ⟨-, heq⟩ | ⟨last, hmem, hlast⟩
      · exact ⟨c.current, List.mem_cons_self, hblank, (heq.trans hlast).symm⟩
      · exact ⟨last, List.mem_cons_of_mem _ hmem, hlast⟩

theorem Marked.reaches (hc : c.Marked) (h : c.Reaches c') : c'.Marked := by
  obtain ⟨_, hpasses⟩ := h
  exact (hc.passes hpasses).1

theorem Marked.lastEnd_mono (hc : c.Marked) (h : c.Reaches c') : c.lastEnd ≤ c'.lastEnd := by
  obtain ⟨_, hpasses⟩ := h
  exact (hc.passes hpasses).2.1

theorem Marked.start_mono (hc : c.Marked) (h : c.Reaches c') :
    c.current.start ≤ c'.current.start := by
  obtain ⟨_, hpasses⟩ := h
  exact hpasses.start_le hc.placed

/-- A lexeme that is passed stands between the cursors, and its end is noted unless it is
whitespace. -/
theorem Marked.of_mem (hc : c.Marked) (h : c.Passes lexemes c') :
    ∀ lexeme ∈ lexemes, c.current.start ≤ lexeme.start ∧
      (lexeme.kind ≠ .whitespace → lexeme.stop ≤ c'.lastEnd) := by
  intro lexeme hmem
  obtain ⟨front, back, rfl⟩ := List.append_of_mem hmem
  obtain ⟨d, hfront, hrest⟩ := passes_append_iff.1 h
  obtain ⟨rfl, d', hstep, hback⟩ := passes_cons_iff_step.1 hrest
  have hd := hc.reaches hfront.reaches
  refine ⟨hc.start_mono hfront.reaches, fun hkind => ?_⟩
  have hlast : d.Passes ([] ++ [d.current]) d' := hstep
  have hmono := (hd.reaches hstep.reaches).lastEnd_mono hback.reaches
  rwa [hlast.lastEnd_eq hd.placed hkind, ← (hstep.laidOut hd.placed).2] at hmono

/-! ### Framed spans -/

/-- A span starts with one of the lexemes that are passed between two cursors and ends with one,
and neither is whitespace. -/
structure Frames (c c' : Cursor) (span : Span) : Prop where
  /-- The lexemes. -/
  exists_passes : ∃ lexemes, c.Passes lexemes c' ∧
    (∃ first ∈ lexemes, first.kind ≠ .whitespace ∧ first.start = span.start) ∧
    ∃ last ∈ lexemes, last.kind ≠ .whitespace ∧ last.stop = span.stop
  /-- The span has bytes. -/
  start_lt : span.start < span.stop

namespace Frames

theorem start_le (h : c.Frames c' span) (hc : c.Marked) : c.current.start ≤ span.start := by
  obtain ⟨lexemes, hpasses, ⟨first, hmem, -, hstart⟩, -⟩ := h.exists_passes
  exact hstart ▸ (hc.of_mem hpasses first hmem).1

theorem stop_le (h : c.Frames c' span) (hc : c.Marked) : span.stop ≤ c'.lastEnd := by
  obtain ⟨lexemes, hpasses, -, last, hmem, hkind, hstop⟩ := h.exists_passes
  exact hstop ▸ (hc.of_mem hpasses last hmem).2 hkind

theorem reaches (h : c.Frames c' span) (hd : d.Reaches c) (hd' : c'.Reaches d') :
    d.Frames d' span := by
  obtain ⟨lexemes, hpasses, ⟨first, hfirst, hstart⟩, last, hlast, hstop⟩ := h.exists_passes
  obtain ⟨front, hfront⟩ := hd
  obtain ⟨back, hback⟩ := hd'
  refine ⟨⟨front ++ (lexemes ++ back), hfront.trans (hpasses.trans hback),
    ⟨first, by simp [hfirst], hstart⟩, last, by simp [hlast], hstop⟩, h.start_lt⟩

/-- What is framed further on comes behind. -/
theorem before {left right : Span} (h : c.Frames d left) (h' : d.Frames c' right) (hc : c.Marked)
    (hd : c.Reaches d) : left.Before right := by
  have hmarked := hc.reaches hd
  exact Nat.le_trans (h.stop_le hc) (Nat.le_trans hmarked.lastEnd_le (h'.start_le hmarked))

/-- A framed span can be drawn out to the end noted last. -/
theorem toEnd (h : c.Frames c' span) (hc : c.Marked) :
    c.Frames c' ⟨span.start, c'.lastEnd⟩ := by
  have hlt := Nat.lt_of_lt_of_le h.start_lt (h.stop_le hc)
  obtain ⟨lexemes, hpasses, ⟨first, hmem, hkind, hstart⟩, -⟩ := h.exists_passes
  refine ⟨⟨lexemes, hpasses, ⟨first, hmem, hkind, hstart⟩, ?_⟩, hlt⟩
  rcases (hc.passes hpasses).2.2 with ⟨hall, -⟩ | hlast
  · exact absurd (hall first hmem) hkind
  · exact hlast

/-- What is passed from a lexeme on that is not whitespace. -/
theorem of_passes (hc : c.Marked) (hkind : c.current.kind ≠ .whitespace)
    (h : c.Passes lexemes c') (hne : lexemes ≠ []) :
    c.Frames c' ⟨c.current.start, c'.lastEnd⟩ := by
  obtain ⟨first, rest, rfl⟩ := List.exists_cons_of_ne_nil hne
  obtain ⟨rfl, -⟩ := passes_cons_iff_step.1 h
  have hlt := Lexeme.lt_stop_of_text_ne_nil (h.scanned hc.placed _ List.mem_cons_self).text_ne_nil
  have hfirst : c.Frames c' c.current.span :=
    ⟨⟨_, h, ⟨_, List.mem_cons_self, hkind, rfl⟩, _, List.mem_cons_self, hkind, rfl⟩, hlt⟩
  exact hfirst.toEnd hc

end Frames

/-! ### Spans in order -/

/-- Spans follow each other between two cursors. -/
structure FramesInOrder (c c' : Cursor) (spans : List Span) : Prop where
  /-- Each ends before the next starts. -/
  pairwise : spans.Pairwise Span.Before
  /-- They are framed. -/
  frames : ∀ span ∈ spans, c.Frames c' span

namespace FramesInOrder

theorem nil (c c' : Cursor) : c.FramesInOrder c' [] := ⟨.nil, by simp⟩

theorem single (h : c.Frames c' span) : c.FramesInOrder c' [span] :=
  ⟨List.pairwise_singleton .., by simpa using h⟩

theorem reaches (h : c.FramesInOrder c' spans) (hd : d.Reaches c) (hd' : c'.Reaches d') :
    d.FramesInOrder d' spans :=
  ⟨h.pairwise, fun span hmem => (h.frames span hmem).reaches hd hd'⟩

theorem append (h : c.FramesInOrder d spans) (h' : d.FramesInOrder c' spans') (hc : c.Marked)
    (hd : c.Reaches d) (hc' : d.Reaches c') : c.FramesInOrder c' (spans ++ spans') where
  pairwise := List.pairwise_append.2 ⟨h.pairwise, h'.pairwise, fun left hleft right hright =>
    (h.frames left hleft).before (h'.frames right hright) hc hd⟩
  frames := List.forall_mem_append.2
    ⟨fun span hmem => (h.frames span hmem).reaches (.refl c) hc',
      fun span hmem => (h'.frames span hmem).reaches hd (.refl c')⟩

/-- What is framed further on overlaps nothing of what came before. -/
theorem disjoint_append (h : d.FramesInOrder c' spans') (hc : c.Marked) (hd : c.Reaches d)
    (hframes : ∀ span ∈ spans, c.Frames d span) (hspans : spans.Pairwise Span.Disjoint) :
    (spans ++ spans').Pairwise Span.Disjoint :=
  List.pairwise_append.2 ⟨hspans, h.pairwise.imp .inl, fun left hleft right hright =>
    .inl ((hframes left hleft).before (h.frames right hright) hc hd)⟩

theorem start_le {first : Span} (h : c.FramesInOrder c' spans) (hfirst : first ∈ spans.head?) :
    ∀ span ∈ spans, first.start ≤ span.start := by
  obtain ⟨rest, rfl⟩ := List.head?_eq_some_iff.1 hfirst
  have hlt := (h.frames first List.mem_cons_self).start_lt
  have hbefore := (List.pairwise_cons.1 h.pairwise).1
  simp only [List.forall_mem_cons, Nat.le_refl, true_and]
  exact fun span hmem => Nat.le_of_lt (Nat.lt_of_lt_of_le hlt (hbefore span hmem))

theorem stop_le {last : Span} (h : c.FramesInOrder c' spans) (hlast : last ∈ spans.getLast?) :
    ∀ span ∈ spans, span.stop ≤ last.stop := by
  obtain ⟨front, rfl⟩ := List.getLast?_eq_some_iff.1 hlast
  have hlt := (h.frames last (by simp)).start_lt
  have hbefore := (List.pairwise_append.1 h.pairwise).2.2
  refine List.forall_mem_append.2 ⟨fun span hmem => ?_, by simp⟩
  exact Nat.le_of_lt (Nat.lt_of_le_of_lt (hbefore span hmem last (by simp)) hlt)

/-- The first span and the last one have all others between them. -/
theorem merge {first last : Span} (h : c.FramesInOrder c' spans) (hc : c.Marked)
    (hfirst : first ∈ spans.head?) (hlast : last ∈ spans.getLast?) :
    c.Frames c' (first.merge last) ∧ ∀ span ∈ spans, span.Within (first.merge last) := by
  have hstarts := h.start_le hfirst
  have hstops := h.stop_le hlast
  have hfirst := List.mem_of_mem_head? hfirst
  have hlast := List.mem_of_mem_getLast? hlast
  have hmerge : first.merge last = ⟨first.start, last.stop⟩ := by
    simp only [Span.merge, Nat.min_eq_left (hstarts last hlast),
      Nat.max_eq_right (hstops first hfirst)]
  rw [hmerge]
  refine ⟨?_, fun span hmem => ⟨hstarts span hmem, hstops span hmem⟩⟩
  obtain ⟨lexemes, hpasses, hstart, -⟩ := (h.frames first hfirst).exists_passes
  obtain ⟨lexemes', hpasses', -, hstop⟩ := (h.frames last hlast).exists_passes
  obtain rfl := hpasses.unique hpasses' hc.placed
  exact ⟨⟨lexemes, hpasses, hstart, hstop⟩,
    Nat.lt_of_lt_of_le (h.frames first hfirst).start_lt (hstops first hfirst)⟩

end FramesInOrder

end Cursor

open Cursor Production

variable {context : Context} {c c' d : Cursor}

/-- What is gathered is framed in order when every round frames in order what it adds. -/
theorem Production.GathersBy.framesInOrder {α : Type}
    {round : List α → Production (ForInStep (List α))}
    {more last : Cursor → List α → Cursor → Prop} (h : GathersBy round more last) (span : α → Span)
    (hmore : ∀ {c c' : Cursor} {items : List α}, c.Marked → more c items c' →
      c.FramesInOrder c' (items.map span))
    (hlast : ∀ {c c' : Cursor} {items : List α}, c.Marked → last c items c' →
      c.FramesInOrder c' (items.map span)) (hc : c.Marked) {items : List α}
    (hgathers : Gathers more last c items c') : c.FramesInOrder c' (items.map span) := by
  induction hgathers with
  | done h => exact hlast hc h
  | yield hround hrest ih =>
    have hstep : Reaches _ _ :=
      (h.orderly [] hc.placed).passes ((h.yield_iff hc.placed).2 ⟨_, hround, rfl⟩)
    have hmarked := hc.reaches hstep
    rw [List.map_append]
    exact (hmore hc hround).append (ih hmarked) hc hstep (h.passes hmarked.placed hrest)

namespace Production

/-! ### Words and assignments -/

theorem ne_whitespace_of_inWord {inBackticks : Bool} {kind : TokenKind}
    (h : inWord inBackticks kind = true) : kind ≠ .whitespace := by
  rintro rfl
  simp [inWord, startsPart, isText] at h

section

variable (hcontext : ContextOrderly context) (hc : c.Marked)
include hcontext hc

theorem frames_of_word? {word : Word} (h : word? context c = .ok (some word) c') :
    c.Frames c' word.span := by
  obtain ⟨lexemes, hpasses, hne⟩ := passes_of_word?_eq_some hcontext hc.placed h
  have hin := inWord_of_word?_eq_some hcontext hc.placed h
  rw [((word?_eq_some_iff hcontext hc.placed).1 h).2.2]
  exact .of_passes hc (ne_whitespace_of_inWord hin) hpasses hne

theorem frames_of_assignment {result : Assignment} (h : assignment context c = .ok result c') :
    c.Frames c' result.span := by
  obtain ⟨c₁, value, hkind, hname, hvalue, rfl⟩ := (assignment_eq_ok_iff hc.placed).1 h
  have hc₁ := hc.reaches hname.reaches
  obtain ⟨lexemes, hlexemes⟩ := (orderly_word? hcontext hc₁.placed).passes hvalue
  exact .of_passes hc (by simp [hkind]) (hname.trans hlexemes) (by simp)

/-- The value of an assignment is inside of it. -/
theorem within_of_assignment {result : Assignment} (h : assignment context c = .ok result c') :
    ∀ word ∈ result.value, word.span.Within result.span := by
  obtain ⟨c₁, value, -, hname, hvalue, rfl⟩ := (assignment_eq_ok_iff hc.placed).1 h
  rintro word rfl
  have hc₁ := hc.reaches hname.reaches
  have hframes := frames_of_word? hcontext hc₁ hvalue
  exact ⟨Nat.le_trans (hc.start_mono hname.reaches) (hframes.start_le hc₁), hframes.stop_le hc₁⟩

theorem framesInOrder_of_words {run : List Word} (h : words context c = .ok run c') :
    c.FramesInOrder c' (run.map Word.span) := by
  refine (wordsRound_gathers hcontext).framesInOrder _ (fun hc hmore => ?_) (fun hc hlast => ?_)
    hc ((words_eq_ok_iff hcontext hc.placed).1 h)
  · obtain ⟨word, c₁, rfl, hword, -, hskip⟩ := hmore
    exact .single ((frames_of_word? hcontext hc hword).reaches (.refl _) hskip.reaches)
  · rcases hlast with ⟨rfl, -⟩ | ⟨word, rfl, hword, -⟩
    · exact .nil ..
    · exact .single (frames_of_word? hcontext hc hword)

theorem framesInOrder_of_assignments {assigned : List Assignment}
    (h : Gathers (MoreAssignments context) LastAssignments c assigned c') :
    c.FramesInOrder c' (assigned.map Assignment.span) := by
  refine (assignmentsRound_gathers hcontext).framesInOrder _ (fun hc hmore => ?_)
    (fun hc hlast => ?_) hc h
  · obtain ⟨result, c₁, rfl, hskip, hresult⟩ := hmore
    have hframes := frames_of_assignment hcontext (hc.reaches hskip.reaches) hresult
    exact .single (hframes.reaches hskip.reaches (.refl _))
  · obtain ⟨rfl, -⟩ := hlast
    exact .nil ..

end

/-! ### Commands -/

/-- The parts of a command are framed between two cursors: assignments and arguments in order,
and the files of redirections apart from them and from each other. -/
structure CommandFramed (c c' : Cursor) (command : Command) : Prop where
  /-- Assignments and arguments. -/
  pieces : c.FramesInOrder c' command.pieces
  /-- Files of redirections. -/
  targets : ∀ target ∈ command.targets, c.Frames c' target.span
  /-- Nothing overlaps. -/
  disjoint : (command.pieces ++ command.targets.map Word.span).Pairwise Span.Disjoint

/-- A redirection puts its file in the place of another one. -/
theorem targets_redirect_perm (command : Command) (target : Word) (redirection : Redirection) :
    ∃ rest, rest.Sublist command.targets ∧
      (command.redirect target redirection).targets.Perm (rest ++ [target]) := by
  cases redirection with
  | input =>
    refine ⟨command.output.toList ++ command.append.toList, ?_, ?_⟩
    · rw [Command.targets, List.append_assoc]
      exact List.sublist_append_right ..
    · exact (List.perm_append_singleton target _).symm
  | output =>
    refine ⟨command.input.toList ++ command.append.toList, ?_, ?_⟩
    · exact (List.sublist_append_left ..).append (.refl _)
    · have htargets : (command.redirect target .output).targets =
          command.input.toList ++ ([target] ++ command.append.toList) := by
        simp [Command.redirect, Command.targets]
      rw [htargets, List.append_assoc]
      exact List.perm_append_comm.append_left _
  | append =>
    exact ⟨command.input.toList ++ command.output.toList, List.sublist_append_left .., .refl _⟩

namespace CommandFramed

variable {command command' : Command}

theorem reaches (h : CommandFramed c d command) (hd : d.Reaches c') :
    CommandFramed c c' command where
  pieces := h.pieces.reaches (.refl c) hd
  targets target hmem := (h.targets target hmem).reaches (.refl c) hd
  disjoint := h.disjoint

theorem frames (h : CommandFramed c d command) :
    ∀ span ∈ command.pieces ++ command.targets.map Word.span, c.Frames d span :=
  List.forall_mem_append.2 ⟨h.pieces.frames, List.forall_mem_map.2 h.targets⟩

/-- A redirection comes behind everything there is, and may take the place of another one. -/
theorem redirect {target : Word} (h : CommandFramed c d command) (hc : c.Marked)
    (hd : c.Reaches d) (hframes : d.Frames c' target.span) (hc' : d.Reaches c')
    (redirection : Redirection) : CommandFramed c c' (command.redirect target redirection) := by
  have hpieces : (command.redirect target redirection).pieces = command.pieces := by
    simp [Command.pieces]
  obtain ⟨rest, hrest, hperm⟩ := targets_redirect_perm command target redirection
  have hsub : (command.pieces ++ rest.map Word.span).Sublist
      (command.pieces ++ command.targets.map Word.span) := (hrest.map _).append_left _
  have hspans : (command.pieces ++
      (command.redirect target redirection).targets.map Word.span).Perm
        (command.pieces ++ rest.map Word.span ++ [target.span]) := by
    rw [List.append_assoc]
    exact ((hperm.map Word.span).trans (by simp)).append_left _
  refine ⟨hpieces ▸ h.pieces.reaches (.refl c) hc', fun other hmem => ?_, ?_⟩
  · rcases List.mem_append.1 (hperm.mem_iff.1 hmem) with hmem | hmem
    · exact (h.targets other (hrest.subset hmem)).reaches (.refl c) hc'
    · exact List.mem_singleton.1 hmem ▸ hframes.reaches hd (.refl c')
  · rw [hpieces, hspans.pairwise_iff Span.Disjoint.symm]
    exact (FramesInOrder.single hframes).disjoint_append hc hd
      (fun span hmem => h.frames span (hsub.subset hmem)) (h.disjoint.sublist hsub)

/-- A run of words comes behind everything there is. -/
theorem words {run : List Word} (h : CommandFramed c d command) (hc : c.Marked)
    (hd : c.Reaches d) (hrun : d.FramesInOrder c' (run.map Word.span)) (hc' : d.Reaches c') :
    CommandFramed c c' { command with arguments := command.arguments ++ run } := by
  have hpieces : Command.pieces { command with arguments := command.arguments ++ run } =
      command.pieces ++ run.map Word.span := by
    simp [Command.pieces]
  have hspans : (command.pieces ++ run.map Word.span ++ command.targets.map Word.span).Perm
      (command.pieces ++ command.targets.map Word.span ++ run.map Word.span) := by
    rw [List.append_assoc, List.append_assoc]
    exact List.perm_append_comm.append_left _
  refine ⟨hpieces ▸ h.pieces.append hrun hc hd hc', (h.reaches hc').targets, ?_⟩
  rw [hpieces]
  exact (hspans.pairwise_iff Span.Disjoint.symm).2
    (hrun.disjoint_append hc hd h.frames h.disjoint)

end CommandFramed

section

variable (hcontext : ContextOrderly context) (hc : c.Marked)
include hcontext hc

theorem CommandFramed.item {command command' : Command} (h : CommandFramed c d command)
    (hd : c.Reaches d) (hitem : CommandItem context d command command' c') :
    CommandFramed c c' command' := by
  have hmarked := hc.reaches hd
  have hc' : d.Reaches c' := (hitem.passes hcontext hmarked.placed).imp fun _ h => h.1
  cases hitem with
  | @redirection redirection target _ hkind htarget =>
    obtain ⟨c₁, c₂, hoperator, hskip, hword⟩ :=
      (target_eq_ok_iff hmarked.placed (kind_ne_stop_of_ofKind? hkind)).1 htarget
    have hreaches := hoperator.reaches.trans hskip.reaches
    have hframes := frames_of_word? hcontext (hmarked.reaches hreaches) hword
    exact h.redirect hc hd (hframes.reaches hreaches (.refl c')) hc' redirection
  | words _ _ hwords =>
    exact h.words hc hd (framesInOrder_of_words hcontext hmarked hwords) hc'

theorem CommandFramed.loops {command command' : Command} (h : CommandFramed c d command)
    (hd : c.Reaches d) (hloops : Loops (commandRound context) command d command' c') :
    CommandFramed c c' command' := by
  have hmarked := hc.reaches hd
  induction hloops with
  | done hround =>
    have hreaches : Reaches _ _ :=
      (orderly_commandRound hcontext _ hmarked.placed).passes hround
    obtain ⟨rfl, -⟩ := (commandRound_eq_done_iff hcontext hmarked.placed).1 hround
    exact h.reaches hreaches
  | yield hround _ ih =>
    have hreaches : Reaches _ _ :=
      (orderly_commandRound hcontext _ hmarked.placed).passes hround
    obtain ⟨c₁, hskip, hitem⟩ := (commandRound_eq_yield_iff hmarked.placed).1 hround
    have hnext := (h.reaches hskip.reaches).item hcontext hc (hd.trans hskip.reaches) hitem
    exact ih hnext (hd.trans hreaches) (hmarked.reaches hreaches)

/-- A command starts behind the whitespace at a cursor, and its parts are framed from there. -/
theorem framed_of_command? {command : Command} (h : command? context c = .ok (some command) c') :
    ∃ c₁, c.Skips c₁ ∧ CommandFramed c₁ c' command ∧
      command.span = ⟨c₁.current.start, c'.lastEnd⟩ ∧ c₁.Frames c' command.span := by
  obtain ⟨c₁, content, hskip, hcontent, hresult⟩ := (command?_eq_ok_iff hcontext hc.placed).1 h
  have hc₁ := hc.reaches hskip.reaches
  cases hempty : content.isEmpty with
  | true => simp [hempty] at hresult
  | false =>
    rw [hempty, if_neg (by simp), Option.some.injEq] at hresult
    obtain ⟨lexemes, hlexemes, hne⟩ := passes_of_commandContent hcontext hc₁.placed hcontent hempty
    have hframes := Frames.of_passes hc₁ hskip.kind_ne hlexemes hne
    obtain ⟨c₂, hassigned, hloops⟩ := hcontent
    have hc₂ : c₁.Reaches c₂ := (assignmentsRound_gathers hcontext).passes hc₁.placed hassigned
    have hstart : CommandFramed c₁ c₂
        { Command.empty (Span.empty c₁.current.start) with
          assignments := content.assignments } := by
      have hpieces := framesInOrder_of_assignments hcontext hc₁ hassigned
      refine ⟨?_, by simp [Command.targets, Command.empty], ?_⟩
      · simpa [Command.pieces, Command.empty] using hpieces
      · simpa [Command.pieces, Command.empty, Command.targets] using hpieces.pairwise.imp .inl
    have hall := hstart.loops hcontext hc₁ hc₂ hloops
    have hspan : command.span = ⟨c₁.current.start, c'.lastEnd⟩ := by
      have hlt := hframes.start_lt
      rw [hresult, Nat.max_eq_left (Nat.le_of_lt hlt)]
    refine ⟨c₁, hskip, ?_, hspan, hspan ▸ hframes⟩
    rw [hresult]
    exact ⟨hall.pieces, hall.targets, hall.disjoint⟩

/-! ### Pipelines, statements and scripts -/

theorem frames_of_stage? {command : Command} (h : stage? context c = .ok (some command) c') :
    c.Frames c' command.span := by
  obtain ⟨c₁, c₂, hskip, -, -, hcommand, hskip'⟩ := (stage?_eq_ok_iff hcontext hc.placed).1 h
  obtain ⟨d, hd, -, -, hframes⟩ :=
    framed_of_command? hcontext (hc.reaches hskip.reaches) hcommand
  exact hframes.reaches (hskip.reaches.trans hd.reaches) hskip'.reaches

theorem framed_of_pipeline? {pipeline : Pipeline}
    (h : pipeline? context c = .ok (some pipeline) c') :
    c.FramesInOrder c' (pipeline.commands.map Command.span) ∧ c.Frames c' pipeline.span ∧
      ∀ command ∈ pipeline.commands, command.span.Within pipeline.span := by
  obtain ⟨first, commands, c₁, hfirst, hgathers, rfl⟩ :=
    (pipeline?_eq_some_iff hcontext hc.placed).1 h
  have hc₁ : c.Reaches c₁ := (orderly_stage? hcontext hc.placed).passes hfirst
  have hmarked := hc.reaches hc₁
  have hc' : c₁.Reaches c' := (pipelineRound_gathers hcontext).passes hmarked.placed hgathers
  have hframes := frames_of_stage? hcontext hc hfirst
  have hrest : c₁.FramesInOrder c' (commands.map Command.span) := by
    refine (pipelineRound_gathers hcontext).framesInOrder _ (fun hc hmore => ?_)
      (fun hc hlast => ?_) hmarked hgathers
    · obtain ⟨command, d, rfl, -, hbar, hcommand⟩ := hmore
      have hnext := frames_of_stage? hcontext (hc.reaches hbar.reaches) hcommand
      exact .single (hnext.reaches hbar.reaches (.refl _))
    · obtain ⟨rfl, -⟩ := hlast
      exact .nil ..
  have hall := (FramesInOrder.single hframes).append hrest hc hc₁ hc'
  refine ⟨by simpa using hall, (hframes.reaches (.refl c) hc').toEnd hc, fun command hmem => ?_⟩
  have hmem : command.span ∈ [first.span] ++ commands.map Command.span := by
    simpa using List.mem_map_of_mem hmem
  exact ⟨hall.start_le rfl _ hmem, (hall.frames _ hmem).stop_le hc⟩

theorem framed_of_statement? {statement : Statement}
    (h : statement? context c = .ok (some statement) c') :
    c.Frames c' statement.span ∧ statement.pipeline.span.Within statement.span := by
  obtain ⟨pipeline, background, c₁, c₂, c₃, hpipeline, hskip, haccept, hskip', rfl⟩ :=
    (statement?_eq_some_iff hcontext hc.placed).1 h
  have hc₁ : c.Reaches c₁ := (orderly_pipeline? hcontext hc.placed).passes hpipeline
  have hc₂ := hc₁.trans hskip.reaches
  have hreaches : c₂.Reaches c₃ :=
    (orderly_accept (by simp) (hc.reaches hc₂).placed).passes haccept
  have hframes : c.Frames c₃ pipeline.span :=
    (framed_of_pipeline? hcontext hc hpipeline).2.1.reaches (.refl c)
      (hskip.reaches.trans hreaches)
  exact ⟨(hframes.toEnd hc).reaches (.refl c) hskip'.reaches, Nat.le_refl _, hframes.stop_le hc⟩

theorem framesInOrder_of_scriptIn {body : Script} (h : scriptIn context c = .ok body c') :
    c.FramesInOrder c' (body.statements.map Statement.span) := by
  obtain ⟨statements, hgathers, rfl⟩ := (scriptIn_eq_ok_iff hcontext hc.placed).1 h
  rw [Script.statements_ofStatements]
  have hstatement {statement : Option Statement} {c c₁ c₂ c' : Cursor} (hc : c.Marked)
      (hskip : c.Skips c₁) (hok : statement? context c₁ = .ok statement c₂) (hc' : c₂.Reaches c') :
      c.FramesInOrder c' (statement.toList.map Statement.span) := by
    cases statement with
    | none => exact .nil ..
    | some statement =>
      have hframes := (framed_of_statement? hcontext (hc.reaches hskip.reaches) hok).1
      exact .single (hframes.reaches hskip.reaches hc')
  refine (scriptRound_gathers hcontext).framesInOrder _ (fun hc hmore => ?_)
    (fun hc hlast => ?_) hc hgathers
  · obtain ⟨statement, c₁, c₂, c₃, rfl, hskip, -, hok, hskip', -, hend⟩ := hmore
    exact hstatement hc hskip hok (hskip'.reaches.trans hend.reaches)
  · rcases hlast with ⟨rfl, -⟩ | ⟨statement, c₁, c₂, rfl, hskip, -, hok, hskip', -⟩
    · exact .nil ..
    · exact hstatement hc hskip hok hskip'.reaches

/-- A script without statements stands where it starts, and any other is framed. -/
theorem framed_of_scriptIn {body : Script} (h : scriptIn context c = .ok body c') :
    (if body.isEmpty then body.span = Span.empty c.current.start else c.Frames c' body.span) ∧
      ∀ statement ∈ body.statements, statement.span.Within body.span := by
  have horder := framesInOrder_of_scriptIn hcontext hc h
  obtain ⟨statements, -, rfl⟩ := (scriptIn_eq_ok_iff hcontext hc.placed).1 h
  rw [Script.statements_ofStatements] at horder ⊢
  cases hhead : statements.head? with
  | none =>
    obtain rfl := List.head?_eq_none_iff.1 hhead
    exact ⟨rfl, by simp⟩
  | some first =>
    obtain ⟨rest, rfl⟩ := List.head?_eq_some_iff.1 hhead
    cases hlast : (first :: rest).getLast? with
    | none => simp at hlast
    | some last =>
      have hspan : (Script.ofStatements c.current.start (first :: rest)).span =
          first.span.merge last.span := by
        simp only [Script.ofStatements, hhead, hlast]
      have hhead' : first.span ∈ ((first :: rest).map Statement.span).head? := rfl
      have hlast' : last.span ∈ ((first :: rest).map Statement.span).getLast? := by
        rw [List.getLast?_map, hlast]
        rfl
      obtain ⟨hframes, hwithin⟩ := horder.merge hc hhead' hlast'
      rw [hspan, if_neg (by simp [Script.isEmpty])]
      exact ⟨hframes, fun statement hmem => hwithin _ (List.mem_map_of_mem hmem)⟩

end

end Production

end CommandSyntax
