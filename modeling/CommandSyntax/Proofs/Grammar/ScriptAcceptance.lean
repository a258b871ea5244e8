import CommandSyntax.Proofs.Grammar.WordAcceptance

/-!
# CommandSyntax.Proofs.Grammar.ScriptAcceptance

**What the grammar derives for a script is accepted**: commands in their flat form, in
which it does not matter where one word ends, then pipelines and statements, and scripts
by induction on the number of levels (`accepts_scripts`).
-/

namespace CommandSyntax.Production

open Cursor Computability

variable {c c' : Cursor} {context : Context} {bodies : Bool → Grammar.Kinds}
  {inBackticks : Bool} {kind : TokenKind} {word rest : List TokenKind}

/-! ### Flat sequences -/

theorem accepts_blanks (hword : word ∈ Grammar.blanks) (h : c.Ahead (word ++ rest))
    (hrest : rest.headD .stop ≠ .whitespace) : ∃ c', c.Skips c' ∧ c'.Ahead rest := by
  obtain ⟨lexemes, c', hpasses, rfl, h'⟩ := h.passes
  refine ⟨c', ⟨lexemes, hpasses, fun lexeme hmem => ?_, h'.kind_eq ▸ hrest⟩, h'⟩
  exact Grammar.mem_blanks_iff.1 hword _ (List.mem_map_of_mem hmem)

/-- How a flat sequence goes on behind its leading blanks. -/
inductive FlatCases (bodies : Bool → Grammar.Kinds) (inBackticks : Bool) : List TokenKind → Prop
  /-- Nothing follows. -/
  | nil : FlatCases bodies inBackticks []
  /-- A segment follows. -/
  | segment {front back : List TokenKind} (hfront : front ∈ Grammar.segment bodies inBackticks)
      (hback : back ∈ (Grammar.flat bodies inBackticks)∗) :
      FlatCases bodies inBackticks (front ++ back)
  /-- A redirection follows. -/
  | redirect {operator : TokenKind} {blanks front back : List TokenKind}
      (hoperator : operator ∈ [.readRedirect, .writeRedirect, .appendRedirect])
      (hblanks : blanks ∈ Grammar.blanks) (hfront : front ∈ Grammar.segment bodies inBackticks)
      (hback : back ∈ (Grammar.flat bodies inBackticks)∗) :
      FlatCases bodies inBackticks (operator :: (blanks ++ (front ++ back)))

theorem FlatCases.mem {word : List TokenKind} (h : FlatCases bodies inBackticks word) :
    word ∈ (Grammar.flat bodies inBackticks)∗ := by
  cases h with
  | nil => exact Language.nil_mem_kstar _
  | segment hfront hback => exact Grammar.append_mem_kstar (.inl (.inr hfront)) hback
  | @redirect operator blanks front back hoperator hblanks hfront hback =>
    have := Grammar.append_mem_kstar (l := Grammar.flat bodies inBackticks)
      (.inr (Language.append_mem_mul (Language.append_mem_mul ⟨operator, hoperator, rfl⟩ hblanks)
        hfront)) hback
    simpa using this

/-- A flat sequence that starts with a name and its equals sign goes on as a flat sequence. -/
theorem FlatCases.back_of_assignmentLhs
    (h : FlatCases bodies inBackticks (.assignmentLhs :: word)) :
    word ∈ (Grammar.flat bodies inBackticks)∗ := by
  generalize hfirst : TokenKind.assignmentLhs :: word = all at h
  cases h with
  | nil => simp at hfirst
  | segment hfront hback =>
    obtain ⟨kind, more, rfl, -, hmore⟩ := exists_cons_of_mem_segment hfront
    obtain ⟨rfl, rfl⟩ := List.cons.inj hfirst
    rwa [hmore rfl]
  | redirect hoperator =>
    obtain ⟨rfl, -⟩ := List.cons.inj hfirst
    simp at hoperator

theorem FlatCases.ne_whitespace {word : List TokenKind} (h : FlatCases bodies inBackticks word)
    (hrest : rest.headD .stop ≠ .whitespace) : (word ++ rest).headD .stop ≠ .whitespace := by
  cases h with
  | nil => exact hrest
  | segment hfront hback =>
    obtain ⟨kind, more, rfl, hkind, -⟩ := exists_cons_of_mem_segment hfront
    rintro rfl
    simp [inWord, startsPart, isText] at hkind
  | redirect hoperator =>
    rintro rfl
    simp at hoperator

/-- A flat sequence is blanks and then something that does not start with a blank. -/
theorem exists_blanks_of_mem_flat (h : word ∈ (Grammar.flat bodies inBackticks)∗) :
    ∃ blanks ∈ Grammar.blanks, ∃ back, word = blanks ++ back ∧
      FlatCases bodies inBackticks back := by
  refine Grammar.kstar_induction (motive := fun word => ∃ blanks ∈ Grammar.blanks, ∃ back,
    word = blanks ++ back ∧ FlatCases bodies inBackticks back)
    ⟨[], Language.nil_mem_kstar _, [], rfl, .nil⟩ (fun front back hfront hback ih => ?_) h
  obtain (rfl | hfront) | ⟨_, ⟨_, ⟨operator, hoperator, rfl⟩, blanks, hblanks, rfl⟩, front,
    hfront, rfl⟩ := hfront
  · obtain ⟨blanks, hblanks, back, rfl, hcases⟩ := ih
    have hfirst : [.whitespace] ∈ Grammar.token .whitespace := rfl
    exact ⟨_, Grammar.append_mem_kstar hfirst hblanks, back, by simp, hcases⟩
  · exact ⟨[], Language.nil_mem_kstar _, _, rfl, .segment hfront hback⟩
  · exact ⟨[], Language.nil_mem_kstar _, _, by simp,
      .redirect hoperator hblanks hfront hback⟩

/-- A flat sequence is segments and then something that does not go on with a word. -/
theorem exists_segments_of_mem_flat (h : word ∈ (Grammar.flat bodies inBackticks)∗)
    (hrest : inWord inBackticks (rest.headD .stop) = false) :
    ∃ segments ∈ (Grammar.segment bodies inBackticks)∗,
      ∃ back ∈ (Grammar.flat bodies inBackticks)∗, word = segments ++ back ∧
        inWord inBackticks ((back ++ rest).headD .stop) = false := by
  refine Grammar.kstar_induction (motive := fun word =>
    ∃ segments ∈ (Grammar.segment bodies inBackticks)∗,
      ∃ back ∈ (Grammar.flat bodies inBackticks)∗, word = segments ++ back ∧
        inWord inBackticks ((back ++ rest).headD .stop) = false)
    ⟨[], Language.nil_mem_kstar _, [], Language.nil_mem_kstar _, rfl, hrest⟩
    (fun front back hfront hback ih => ?_) h
  have hmem := Grammar.append_mem_kstar hfront hback
  obtain (rfl | hfront) | ⟨_, ⟨_, ⟨operator, hoperator, rfl⟩, blanks, hblanks, rfl⟩, front,
    hfront, rfl⟩ := hfront
  · exact ⟨[], Language.nil_mem_kstar _, _, hmem, rfl, rfl⟩
  · obtain ⟨segments, hsegments, after, hafter, rfl, hend⟩ := ih
    exact ⟨front ++ segments, Grammar.append_mem_kstar hfront hsegments, after, hafter, by simp,
      hend⟩
  · refine ⟨[], Language.nil_mem_kstar _, _, hmem, rfl, ?_⟩
    obtain rfl | rfl | rfl : operator = .readRedirect ∨ operator = .writeRedirect ∨
        operator = .appendRedirect := by simpa using hoperator
    all_goals rfl

/-! ### Commands -/

section Commands

variable (hcontext : ContextOrderly context) (hbodies : Accepts context bodies)
include hcontext hbodies

/-- In a flat sequence a word takes the segments that come first. -/
theorem accepts_word? (hword : word ∈ (Grammar.flat bodies context.inBackticks)∗)
    (h : c.Ahead (word ++ rest)) (hrest : ends context.inBackticks (rest.headD .stop) = true) :
    ∃ result c' back, word? context c = .ok result c' ∧ c'.Ahead (back ++ rest) ∧
      back ∈ (Grammar.flat bodies context.inBackticks)∗ := by
  obtain ⟨segments, hsegments, back, hback, rfl, hend⟩ :=
    exists_segments_of_mem_flat hword (inWord_of_ends hrest)
  rw [List.append_assoc] at h
  by_cases hne : segments = []
  · subst hne
    exact ⟨none, c, back, word?_of_inWord_eq_false hcontext h.placed (h.kind_eq ▸ hend), h, hback⟩
  · obtain ⟨result, c', hresult, h'⟩ := accepts_argument hcontext hbodies hsegments hne h hend
    exact ⟨some result, c', back, hresult, h', hback⟩

theorem accepts_gathered_words (hword : word ∈ (Grammar.flat bodies context.inBackticks)∗)
    (h : c.Ahead (word ++ rest)) (hrest : ends context.inBackticks (rest.headD .stop) = true) :
    ∃ run c' back, Gathers (MoreWords context) (LastWords context) c run c' ∧
      c'.Ahead (back ++ rest) ∧ back ∈ (Grammar.flat bodies context.inBackticks)∗ := by
  -- each word shortens what is left of the flat sequence
  induction hn : word.length using Nat.strongRecOn generalizing word c with
  | ind n ih =>
    obtain ⟨result, c₁, back, hresult, h₁, hback⟩ := accepts_word? hcontext hbodies hword h hrest
    cases result with
    | none => exact ⟨[], c₁, back, .done (.inl ⟨rfl, hresult⟩), h₁, hback⟩
    | some result =>
      by_cases hkind : c₁.current.kind = .whitespace
      · obtain ⟨lexemes, hpasses, hne⟩ := passes_of_word?_eq_some hcontext h.placed hresult
        have hlength := h.length_eq h₁ hpasses
        have hpos := List.length_pos_of_ne_nil hne
        obtain ⟨blanks, hblanks, after, rfl, hafter⟩ := exists_blanks_of_mem_flat hback
        rw [List.append_assoc] at h₁
        obtain ⟨c₂, hskip, h₂⟩ :=
          accepts_blanks hblanks h₁ (hafter.ne_whitespace (ne_of_ends hrest).1)
        obtain ⟨run, c', back, hgathers, h', hback'⟩ :=
          ih _ (by simp at hlength; omega) hafter.mem h₂ rfl
        exact ⟨_, c', back, .yield ⟨result, c₁, rfl, hresult, hkind, hskip⟩ hgathers, h', hback'⟩
      · exact ⟨_, c₁, back, .done (.inr ⟨result, rfl, hresult, hkind⟩), h₁, hback⟩

theorem accepts_words (hword : word ∈ (Grammar.flat bodies context.inBackticks)∗)
    (h : c.Ahead (word ++ rest)) (hrest : ends context.inBackticks (rest.headD .stop) = true)
    (hkind : inWord context.inBackticks c.current.kind = true) :
    ∃ run c' back, words context c = .ok run c' ∧ run ≠ [] ∧ c'.Ahead (back ++ rest) ∧
      back ∈ (Grammar.flat bodies context.inBackticks)∗ ∧ back.length < word.length := by
  obtain ⟨run, c', back, hgathers, h', hback⟩ :=
    accepts_gathered_words hcontext hbodies hword h hrest
  have hok := (words_eq_ok_iff hcontext h.placed).2 hgathers
  have hne : run ≠ [] := by
    rintro rfl
    -- an empty run means that no word stands where one starts
    have hnone := word?_of_words_eq_nil hcontext h.placed hok
    obtain ⟨rfl, hend⟩ := eq_of_endsWord ⟨_, h⟩ ((word?_eq_none_iff hcontext h.placed).1 hnone)
    exact absurd hkind (Bool.eq_false_iff.1 hend)
  obtain ⟨lexemes, hpasses, hlexemes⟩ := passes_of_words hcontext h.placed hne hok
  have hlength := h.length_eq h' hpasses
  have hpos := List.length_pos_of_ne_nil hlexemes
  exact ⟨run, c', back, hok, hne, h', hback, by omega⟩

/-- The file of a redirection is the word after its operator. -/
theorem accepts_target {operator : TokenKind} {blanks front back : List TokenKind}
    (hblanks : blanks ∈ Grammar.blanks)
    (hfront : front ∈ Grammar.segment bodies context.inBackticks)
    (hback : back ∈ (Grammar.flat bodies context.inBackticks)∗)
    (h : c.Ahead (operator :: (blanks ++ (front ++ back) ++ rest)))
    (hrest : ends context.inBackticks (rest.headD .stop) = true) :
    ∃ result c' after, target context c = .ok result c' ∧ c'.Ahead (after ++ rest) ∧
      after ∈ (Grammar.flat bodies context.inBackticks)∗ ∧
      after.length ≤ (front ++ back).length := by
  obtain ⟨kind, more, rfl, hkind, -⟩ := exists_cons_of_mem_segment hfront
  obtain ⟨-, c₁, hoperator, h₁⟩ := h.step
  rw [List.append_assoc] at h₁
  have hblank : kind ≠ .whitespace := by
    rintro rfl
    simp [inWord, startsPart, isText] at hkind
  obtain ⟨c₂, hskip, h₂⟩ := accepts_blanks hblanks h₁ hblank
  obtain ⟨result, c', after, hresult, h', hafter⟩ :=
    accepts_word? hcontext hbodies (Grammar.append_mem_kstar (.inl (.inr hfront)) hback) h₂ hrest
  cases result with
  | none =>
    obtain ⟨rfl, hend⟩ := eq_of_endsWord ⟨_, h₂⟩ ((word?_eq_none_iff hcontext h₂.placed).1 hresult)
    rw [h₂.kind_eq] at hend
    exact absurd hkind (Bool.eq_false_iff.1 hend)
  | some result =>
    have hstop := hoperator.kind_ne_stop c.current (by simp)
    obtain ⟨lexemes, hpasses, -⟩ := passes_of_word?_eq_some hcontext h₂.placed hresult
    have hlength := h₂.length_eq h' hpasses
    exact ⟨result, c', after,
      (target_eq_ok_iff h.placed hstop).2 ⟨c₁, c₂, hoperator, hskip, hresult⟩, h', hafter,
      by omega⟩

/-- Redirections and runs of words are read up to where the command ends. -/
theorem accepts_items (hword : word ∈ (Grammar.flat bodies context.inBackticks)∗)
    (h : c.Ahead (word ++ rest)) (hrest : ends context.inBackticks (rest.headD .stop) = true)
    (command : Command) :
    ∃ command' c', Loops (commandRound context) command c command' c' ∧ c'.Ahead rest := by
  induction hn : word.length using Nat.strongRecOn generalizing word c command with
  | ind n ih =>
    obtain ⟨blanks, hblanks, after, rfl, hafter⟩ := exists_blanks_of_mem_flat hword
    rw [List.append_assoc] at h
    obtain ⟨c₁, hskip, h₁⟩ :=
      accepts_blanks hblanks h (hafter.ne_whitespace (ne_of_ends hrest).1)
    cases hafter with
    | nil =>
      obtain ⟨-, -, hredirect⟩ := ne_of_ends hrest
      exact ⟨command, c₁, .done ((commandRound_eq_done_iff hcontext h.placed).2
        ⟨rfl, c₁, hskip, h₁.kind_eq ▸ hredirect,
          endsWord_self (h₁.kind_eq ▸ inWord_of_ends hrest)⟩), h₁⟩
    | segment hfront hback =>
      obtain ⟨kind, more, rfl, hkind, -⟩ := exists_cons_of_mem_segment hfront
      have hcurrent : c₁.current.kind = kind := h₁.kind_eq
      obtain ⟨run, c₂, back, hwords, hne, h₂, hback', hlt⟩ := accepts_words hcontext hbodies
        (Grammar.append_mem_kstar (.inl (.inr hfront)) hback) h₁ hrest (hcurrent ▸ hkind)
      have hredirect : Redirection.ofKind? c₁.current.kind = none := by
        rw [hcurrent]
        cases kind <;> simp_all [inWord, startsPart, isText, Redirection.ofKind?]
      obtain ⟨command', c', hloops, h'⟩ :=
        ih _ (by rw [List.length_append] at hn; omega) hback' h₂ _ rfl
      exact ⟨command', c', .yield ((commandRound_eq_yield_iff h.placed).2
        ⟨c₁, hskip, .words hredirect hne hwords⟩) hloops, h'⟩
    | redirect hoperator hblanks' hfront hback =>
      have hcurrent := h₁.kind_eq
      obtain ⟨result, c₂, after, htarget, h₂, hafter, hle⟩ :=
        accepts_target hcontext hbodies hblanks' hfront hback h₁ hrest
      obtain ⟨redirection, hredirection⟩ :
          ∃ redirection, Redirection.ofKind? c₁.current.kind = some redirection := by
        rw [hcurrent]
        simp only [List.mem_cons, List.not_mem_nil, or_false] at hoperator
        rcases hoperator with rfl | rfl | rfl
        all_goals exact ⟨_, rfl⟩
      obtain ⟨command', c', hloops, h'⟩ :=
        ih _ (by simp only [List.length_append, List.length_cons] at hn hle; omega) hafter h₂ _ rfl
      exact ⟨command', c', .yield ((commandRound_eq_yield_iff h.placed).2
        ⟨c₁, hskip, .redirection hredirection htarget⟩) hloops, h'⟩

/-- Assignments are read as long as there are any. -/
theorem accepts_assignments (hword : word ∈ (Grammar.flat bodies context.inBackticks)∗)
    (h : c.Ahead (word ++ rest)) (hrest : ends context.inBackticks (rest.headD .stop) = true) :
    ∃ assigned c' back, Gathers (MoreAssignments context) LastAssignments c assigned c' ∧
      c'.Ahead (back ++ rest) ∧ back ∈ (Grammar.flat bodies context.inBackticks)∗ := by
  induction hn : word.length using Nat.strongRecOn generalizing word c with
  | ind n ih =>
    obtain ⟨blanks, hblanks, after, rfl, hafter⟩ := exists_blanks_of_mem_flat hword
    rw [List.append_assoc] at h
    obtain ⟨c₁, hskip, h₁⟩ :=
      accepts_blanks hblanks h (hafter.ne_whitespace (ne_of_ends hrest).1)
    by_cases hkind : c₁.current.kind = .assignmentLhs
    · cases after with
      | nil => exact absurd (h₁.kind_eq ▸ hkind) (ne_of_ends hrest).2.1
      | cons kind value =>
        obtain ⟨hcurrent, c₂, hname, h₂⟩ := h₁.step
        obtain rfl := hkind.symm.trans hcurrent
        obtain ⟨result, c₃, back, hresult, h₃, hback⟩ :=
          accepts_word? hcontext hbodies hafter.back_of_assignmentLhs h₂ hrest
        have hassignment := (assignment_eq_ok_iff h₁.placed).2
          ⟨c₂, result, hkind, hname, hresult, rfl⟩
        obtain ⟨lexemes, hpasses⟩ := (orderly_word? hcontext h₂.placed).passes hresult
        have hlength := h₂.length_eq h₃ hpasses
        obtain ⟨assigned, c', back, hgathers, h', hback'⟩ :=
          ih _ (by simp at hn; omega) hback h₃ rfl
        exact ⟨_, c', back, .yield ⟨_, c₁, rfl, hskip, hassignment⟩ hgathers, h', hback'⟩
    · exact ⟨[], c₁, after, .done ⟨rfl, hskip, hkind⟩, h₁, hafter.mem⟩

/-- A flat sequence is read as a command, or as nothing. -/
theorem accepts_flat (hword : word ∈ (Grammar.flat bodies context.inBackticks)∗)
    (h : c.Ahead (word ++ rest)) (hrest : ends context.inBackticks (rest.headD .stop) = true) :
    ∃ result c', command? context c = .ok result c' ∧ c'.Ahead rest := by
  obtain ⟨blanks, hblanks, after, rfl, hafter⟩ := exists_blanks_of_mem_flat hword
  rw [List.append_assoc] at h
  obtain ⟨c₁, hskip, h₁⟩ := accepts_blanks hblanks h (hafter.ne_whitespace (ne_of_ends hrest).1)
  obtain ⟨assigned, c₂, back, hassigned, h₂, hback⟩ :=
    accepts_assignments hcontext hbodies hafter.mem h₁ hrest
  obtain ⟨content, c', hloops, h'⟩ := accepts_items hcontext hbodies hback h₂ hrest
    { Command.empty (Span.empty c₁.current.start) with assignments := assigned }
  have hkept : content.assignments = assigned :=
    (assignments_of_loops h₂.placed hcontext hloops).1
  subst hkept
  exact ⟨_, c', (command?_eq_ok_iff hcontext h.placed).2
    ⟨c₁, content, hskip, ⟨c₂, hassigned, hloops⟩, rfl⟩, h'⟩

theorem accepts_command (hword : word ∈ Grammar.command bodies context.inBackticks)
    (h : c.Ahead (word ++ rest)) (hrest : ends context.inBackticks (rest.headD .stop) = true) :
    ∃ command c', command? context c = .ok (some command) c' ∧ c'.Ahead rest := by
  obtain ⟨hflat, kind, hmem, hkind⟩ := Grammar.mem_command_iff.1 hword
  obtain ⟨result, c', hresult, h'⟩ := accepts_flat hcontext hbodies hflat h hrest
  cases result with
  | some command => exact ⟨command, c', hresult, h'⟩
  | none =>
    -- without a command only blanks are passed
    obtain ⟨lexemes, hpasses, hblanks⟩ := eats_of_command?_eq_none hcontext ⟨_, h⟩ hresult
    obtain ⟨back, heq, hback, -⟩ := h.of_passes hpasses
    obtain rfl := hback.unique h'
    obtain rfl := List.append_cancel_right heq
    exact absurd (Grammar.mem_blanks_iff.1 hblanks kind hmem) hkind

end Commands

/-! ### Leading blanks -/

/-- Every member is blanks and then a member that starts with something of a command. -/
def Led (language : Grammar.Kinds) : Prop :=
  ∀ word ∈ language, ∃ blanks ∈ Grammar.blanks, ∃ kind back, word = blanks ++ kind :: back ∧
    kind :: back ∈ language ∧ kind ≠ .whitespace ∧ kind ≠ .stop ∧ kind ≠ .pipe

theorem Led.mul {language : Grammar.Kinds} (h : Led language) (after : Grammar.Kinds) :
    Led (language * after) := by
  rintro _ ⟨front, hfront, back, hback, rfl⟩
  obtain ⟨blanks, hblanks, kind, more, rfl, hmem, hkind⟩ := h front hfront
  exact ⟨blanks, hblanks, kind, more ++ back, by simp,
    Language.append_mem_mul hmem hback, hkind⟩

theorem led_command : Led (Grammar.command bodies inBackticks) := by
  intro word hword
  obtain ⟨hflat, inked, hmem, hinked⟩ := Grammar.mem_command_iff.1 hword
  obtain ⟨blanks, hblanks, after, rfl, hafter⟩ := exists_blanks_of_mem_flat hflat
  have hstart : ∃ kind back, after = kind :: back ∧ kind ≠ .whitespace ∧ kind ≠ .stop ∧
      kind ≠ .pipe := by
    cases hafter with
    | nil =>
      rw [List.append_nil] at hmem
      exact absurd (Grammar.mem_blanks_iff.1 hblanks inked hmem) hinked
    | segment hfront =>
      obtain ⟨kind, more, rfl, hkind, -⟩ := exists_cons_of_mem_segment hfront
      refine ⟨kind, _, rfl, ?_⟩
      cases kind <;> simp_all [inWord, startsPart, isText]
    | @redirect operator _ _ _ hoperator =>
      refine ⟨operator, _, rfl, ?_⟩
      cases operator <;> simp_all
  obtain ⟨kind, back, rfl, hkind⟩ := hstart
  exact ⟨blanks, hblanks, kind, back, rfl,
    Grammar.mem_command_iff.2 ⟨hafter.mem, kind, by simp, hkind.1⟩, hkind⟩

/-! ### Pipelines -/

section Lines

variable (hcontext : ContextOrderly context) (hbodies : Accepts context bodies)
include hcontext hbodies

theorem accepts_stage (hword : word ∈ Grammar.command bodies context.inBackticks)
    (h : c.Ahead (word ++ rest)) (hrest : ends context.inBackticks (rest.headD .stop) = true) :
    ∃ command c', stage? context c = .ok (some command) c' ∧ c'.Ahead rest := by
  obtain ⟨blanks, hblanks, kind, back, rfl, hmem, hkind, hstop, hpipe⟩ := led_command word hword
  rw [List.append_assoc] at h
  obtain ⟨c₁, hskip, h₁⟩ := accepts_blanks hblanks h hkind
  obtain ⟨command, c', hcommand, h'⟩ := accepts_command hcontext hbodies hmem h₁ hrest
  refine ⟨command, c', (stage?_eq_ok_iff hcontext h.placed).2
    ⟨c₁, c', hskip, h₁.kind_eq ▸ hstop, h₁.kind_eq ▸ hpipe, hcommand, ?_⟩, h'⟩
  exact skips_self (h'.kind_eq ▸ (ne_of_ends hrest).1)

theorem accepts_stages
    (hword : word ∈ (Grammar.token .pipe * Grammar.command bodies context.inBackticks)∗)
    (hrest : ends context.inBackticks (rest.headD .stop) = true)
    (hpipe : rest.headD .stop ≠ .pipe) :
    ends context.inBackticks ((word ++ rest).headD .stop) = true ∧
      ∀ {c : Cursor}, c.Ahead (word ++ rest) →
        ∃ commands c', Gathers (MoreStages context) LastStages c commands c' ∧ c'.Ahead rest := by
  refine Grammar.kstar_induction (motive := fun word =>
    ends context.inBackticks ((word ++ rest).headD .stop) = true ∧
      ∀ {c : Cursor}, c.Ahead (word ++ rest) →
        ∃ commands c', Gathers (MoreStages context) LastStages c commands c' ∧ c'.Ahead rest)
    ⟨hrest, fun h => ⟨[], _, .done ⟨rfl, rfl, h.kind_eq ▸ hpipe⟩, h⟩⟩
    (fun front back hfront _ ih => ?_) hword
  obtain ⟨_, rfl, stage, hstage, rfl⟩ := hfront
  refine ⟨by simp [ends], fun {c} h => ?_⟩
  simp only [List.append_assoc, List.singleton_append] at h
  obtain ⟨hkind, c₁, hbar, h₁⟩ := h.step
  obtain ⟨command, c₂, hcommand, h₂⟩ := accepts_stage hcontext hbodies hstage h₁ ih.1
  obtain ⟨commands, c', hgathers, h'⟩ := ih.2 h₂
  exact ⟨_, c', .yield ⟨command, c₁, rfl, hkind, hbar, hcommand⟩ hgathers, h'⟩

theorem accepts_pipeline (hword : word ∈ Grammar.pipeline bodies context.inBackticks)
    (h : c.Ahead (word ++ rest)) (hrest : ends context.inBackticks (rest.headD .stop) = true)
    (hpipe : rest.headD .stop ≠ .pipe) :
    ∃ pipeline c', pipeline? context c = .ok (some pipeline) c' ∧ c'.Ahead rest := by
  obtain ⟨first, hfirst, stages, hstages, rfl⟩ := hword
  obtain ⟨hends, hgather⟩ := accepts_stages hcontext hbodies hstages hrest hpipe
  obtain ⟨command, c₁, hcommand, h₁⟩ :=
    accepts_stage hcontext hbodies hfirst (List.append_assoc .. ▸ h) hends
  obtain ⟨commands, c', hgathers, h'⟩ := hgather h₁
  exact ⟨_, c', (pipeline?_eq_some_iff hcontext h.placed).2
    ⟨command, commands, c₁, hcommand, hgathers, rfl⟩, h'⟩

/-! ### Statements -/

theorem accepts_statement (hword : word ∈ Grammar.statement bodies context.inBackticks)
    (h : c.Ahead (word ++ rest)) (hrest : stops context.inBackticks (rest.headD .stop) = true) :
    ∃ statement c', statement? context c = .ok (some statement) c' ∧ c'.Ahead rest := by
  have hends := ends_of_stops hrest
  obtain ⟨hpipe, hbackground⟩ := ne_of_stops hrest
  obtain ⟨front, hfront, back, hback, rfl⟩ := hword
  rcases hback with rfl | ⟨_, rfl, blanks, hblanks, rfl⟩
  · obtain ⟨pipeline, c₁, hpipeline, h₁⟩ :=
      accepts_pipeline hcontext hbodies hfront (by simpa using h) hends hpipe
    have hskip := skips_self (h₁.kind_eq ▸ (ne_of_ends hends).1)
    exact ⟨_, c₁, (statement?_eq_some_iff hcontext h.placed).2
      ⟨pipeline, false, c₁, c₁, c₁, hpipeline, hskip,
        accept_of_kind_ne (h₁.kind_eq ▸ hbackground), hskip, rfl⟩, h₁⟩
  · simp only [List.append_assoc, List.singleton_append] at h
    obtain ⟨pipeline, c₁, hpipeline, h₁⟩ :=
      accepts_pipeline hcontext hbodies hfront h (by simp [ends]) (by simp)
    obtain ⟨hkind, c₂, hpasses, h₂⟩ := h₁.step
    obtain ⟨c', hskip, h'⟩ := accepts_blanks hblanks h₂ (ne_of_ends hends).1
    exact ⟨_, c', (statement?_eq_some_iff hcontext h.placed).2
      ⟨pipeline, true, c₁, c₁, c₂, hpipeline, skips_self (by simp [hkind]),
        (accept_eq_ok_iff (by simp)).2 (.inl ⟨hkind, rfl, hpasses⟩), hskip, rfl⟩, h'⟩

/-- What stands for a statement is read, unless it is only blanks before the end of the input. -/
theorem accepts_line
    (hword : word ∈ Grammar.blanks + Grammar.statement bodies context.inBackticks)
    (h : c.Ahead (word ++ rest)) (hrest : stops context.inBackticks (rest.headD .stop) = true) :
    (∃ c', rest.headD .stop = .stop ∧ c.Skips c' ∧ c'.Ahead rest) ∨
      ∃ statement c₁ c₂ c', c.Skips c₁ ∧ c₁.current.kind ≠ .stop ∧
        statement? context c₁ = .ok statement c₂ ∧ c₂.Skips c' ∧ c'.Ahead rest := by
  have hends := ends_of_stops hrest
  have hskipAt {c₁ : Cursor} (h₁ : c₁.Ahead rest) : c₁.Skips c₁ :=
    skips_self (h₁.kind_eq ▸ (ne_of_ends hends).1)
  rcases hword with hblanks | hstatement
  · obtain ⟨c₁, hskip, h₁⟩ := accepts_blanks hblanks h (ne_of_ends hends).1
    by_cases hstop : rest.headD .stop = .stop
    · exact .inl ⟨c₁, hstop, hskip, h₁⟩
    · have hne : c₁.current.kind ≠ .stop := h₁.kind_eq ▸ hstop
      exact .inr ⟨none, c₁, c₁, c₁, hskip, hne,
        statement?_of_stops hcontext h₁.placed (h₁.kind_eq ▸ hrest) hne, hskipAt h₁, h₁⟩
  · obtain ⟨blanks, hblanks, kind, back, rfl, hmem, hkind, hstop, -⟩ :=
      (led_command.mul _).mul _ word hstatement
    rw [List.append_assoc] at h
    obtain ⟨c₁, hskip, h₁⟩ := accepts_blanks hblanks h hkind
    obtain ⟨statement, c', hok, h'⟩ := accepts_statement hcontext hbodies hmem h₁ hrest
    exact .inr ⟨some statement, c₁, c', c', hskip, h₁.kind_eq ▸ hstop, hok, hskipAt h', h'⟩

/-! ### Scripts -/

/-- Lists are read statement by statement. -/
theorem accepts_list (hword : word ∈ Grammar.list bodies context.inBackticks)
    (h : c.Ahead (word ++ rest)) (hrest : closes context.inBackticks (rest.headD .stop) = true) :
    ∃ body c', scriptIn context c = .ok body c' ∧ c'.Ahead rest := by
  have hstops := stops_of_closes hrest
  obtain ⟨lines, hlines, last, hlast, rfl⟩ := hword
  rw [List.append_assoc] at h
  have hgather : ∀ {c : Cursor}, c.Ahead (lines ++ (last ++ rest)) →
      ∃ statements c', Gathers (MoreStatements context) (LastStatements context) c statements c' ∧
        c'.Ahead rest := by
    clear h
    refine Grammar.kstar_induction (motive := fun lines =>
      ∀ {c : Cursor}, c.Ahead (lines ++ (last ++ rest)) →
        ∃ statements c', Gathers (MoreStatements context) (LastStatements context) c statements c' ∧
          c'.Ahead rest) (fun {c} h => ?_) (fun front back hfront _ ih {c} h => ?_) hlines
    · obtain ⟨c', hstop, hskip, h'⟩ | ⟨statement, c₁, c₂, c', hskip, hne, hok, hskip', h'⟩ :=
        accepts_line hcontext hbodies hlast h hstops
      · exact ⟨[], c', .done (.inl ⟨rfl, hskip, h'.kind_eq ▸ hstop⟩), h'⟩
      · -- the list is over, so no further statement is asked for
        refine ⟨_, c', .done (.inr ⟨statement, c₁, c₂, rfl, hskip, hne, hok, hskip', ?_⟩), h'⟩
        rw [h'.kind_eq]
        intro hend
        rw [hend] at hrest
        simp [closes] at hrest
    · obtain ⟨line, hline, _, rfl, rfl⟩ := hfront
      simp only [List.append_assoc, List.singleton_append] at h
      obtain ⟨c', hstop, -, -⟩ | ⟨statement, c₁, c₂, c₃, hskip, hne, hok, hskip', h₃⟩ :=
        accepts_line hcontext hbodies hline h (by simp [stops])
      · simp at hstop
      · obtain ⟨hkind, c₄, hend, h₄⟩ := h₃.step
        obtain ⟨statements, c', hgathers, h'⟩ := ih (by simpa using h₄)
        exact ⟨_, c', .yield ⟨statement, c₁, c₂, c₃, rfl, hskip, hne, hok, hskip', hkind, hend⟩
          hgathers, h'⟩
  obtain ⟨statements, c', hgathers, h'⟩ := hgather h
  exact ⟨_, c', (scriptIn_eq_ok_iff hcontext h.placed).2 ⟨statements, hgathers, rfl⟩, h'⟩

end Lines

/-- The scripts of a context of some levels accept the lists of as many levels. -/
theorem accepts_scripts (limit : Nat) (inBackticks : Bool) (levels : Nat) :
    Accepts (levelContext limit inBackticks levels) (Grammar.scripts levels) := by
  induction levels generalizing inBackticks with
  | zero => exact fun _ word _ _ hword => absurd hword (Language.notMem_zero word)
  | succ levels ih =>
    intro inner word rest c hword h hrest
    have hlist : word ∈
        Grammar.list (Grammar.scripts levels) (levelContext limit inner levels).inBackticks := by
      rwa [inBackticks_levelContext]
    obtain ⟨body, c', hok, h'⟩ := accepts_list (levelContext_orderly _ _ _) (ih inner) hlist h
      (by rwa [inBackticks_levelContext])
    exact ⟨_, body, c', rfl, by rwa [script_eq_scriptIn], h'⟩

/-- A list of the grammar is accepted as a script of as many levels as it is nested deep. -/
theorem accepts_script (limit levels : Nat)
    (hword : word ∈ Grammar.scripts (levels + 1) inBackticks) (h : c.Ahead (word ++ rest))
    (hrest : closes inBackticks (rest.headD .stop) = true) :
    ∃ body c', script limit levels inBackticks c = .ok body c' ∧ c'.Ahead rest := by
  obtain ⟨script', body, c', hscript, hok, h'⟩ :=
    accepts_scripts limit inBackticks (levels + 1) inBackticks word rest c hword h hrest
  obtain rfl := Option.some.inj hscript
  exact ⟨body, c', hok, h'⟩

end CommandSyntax.Production
