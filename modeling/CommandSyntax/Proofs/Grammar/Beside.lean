import CommandSyntax.Proofs.Grammar.Loop
import CommandSyntax.Proofs.Token.Respacing

/-!
# CommandSyntax.Proofs.Grammar.Beside

**Cursors side by side.** The second of two cursors stands at the same place of an input with
another layout (`Cursor.Beside`). It may have come to blanks that the first one does not see. If it
has not, the cursors are level (`Cursor.Level`), and then both pass the same lexemes one by one
(`Level.step`). They are level again once both have skipped their blanks (`Beside.skips`).

`Production.Carries` is what is proved of the productions: one that succeeds at the first cursor
succeeds at the second, what it gives means the same, and the cursors stand beside each other again.
-/

namespace CommandSyntax

open Production Cursor

variable {last : List Frame → Prop} {frames : List Frame} {loose : Bool} {c c' c₁ d d₁ : Cursor}

/-! ### Cursors side by side -/

namespace Cursor

theorem Placed.headKind_stream (h : c.Placed) : c.stream.headKind = c.current.kind := by
  by_cases hkind : c.current.kind = .stop
  · rw [h.stream_of_stop hkind, hkind]
    rfl
  · rw [stream_of_ne_stop hkind]
    rfl

/-- The cursors stand at the same place of inputs that differ in their layout, where the second
one may stand in front of blanks that the first one does not see. -/
structure Beside (last : List Frame → Prop) (place : Place) (c d : Cursor) : Prop where
  /-- The first cursor is placed. -/
  placed : c.Placed
  /-- The second cursor is placed. -/
  placed' : d.Placed
  /-- What is ahead differs in its layout. -/
  respaced : TokenStream.Respaced last place c.stream d.stream

/-- The cursors stand on lexemes of the same kind. -/
structure Level (last : List Frame → Prop) (frames : List Frame) (c d : Cursor) : Prop extends
    Beside last ⟨frames, false⟩ c d where
  /-- The kind is the same. -/
  kind_eq : d.current.kind = c.current.kind

theorem Beside.mono (h : Beside last ⟨frames, loose⟩ c d) {loose' : Bool}
    (hloose : Frame.isOpen frames = true → loose = true → loose' = true) :
    Beside last ⟨frames, loose'⟩ c d :=
  ⟨h.placed, h.placed', h.respaced.mono hloose⟩

/-- It may be unknown what stands in front of the place. -/
theorem Beside.loosen (h : Beside last ⟨frames, loose⟩ c d) : Beside last ⟨frames, true⟩ c d :=
  h.mono fun _ _ => rfl

/-- Either the cursors are level, or the second one has blanks to skip. -/
theorem Beside.level_or (h : Beside last ⟨frames, loose⟩ c d) :
    Level last frames c d ∨
      (Frame.isOpen frames = true ∧ c.current.kind ≠ .whitespace ∧
        (loose = true ∨ isBorder c.current.kind = true) ∧ d.current.kind = .whitespace ∧
        ∃ d₁, d.Skips d₁ ∧ Level last frames c d₁) := by
  obtain ⟨blanks, stream₁, hstream, hblanks, hrespaced, hkind⟩ := h.respaced.exists_aligned
  obtain ⟨d₁, hpasses, hd₁⟩ := exists_passes h.placed' hstream hrespaced.ne_failed
  have hplaced := hpasses.placed h.placed'
  rw [h.placed.headKind_stream] at hblanks hkind
  have hlevel : Level last frames c d₁ := by
    refine ⟨⟨h.placed, hplaced, hd₁ ▸ hrespaced⟩, ?_⟩
    rw [← hplaced.headKind_stream, hd₁, hkind]
  rcases hblanks with rfl | ⟨hopen, hblank, hne, hborder⟩
  · obtain rfl := passes_nil_iff.1 hpasses
    exact .inl hlevel
  · cases blanks with
    | nil =>
      obtain rfl := passes_nil_iff.1 hpasses
      exact .inl hlevel
    | cons blank blanks =>
      obtain ⟨rfl, -⟩ := passes_cons_iff_step.1 hpasses
      exact .inr ⟨hopen, hne, hborder, hblank _ (by simp), d₁,
        ⟨_, hpasses, hblank, hlevel.kind_eq ▸ hne⟩, hlevel⟩

/-- In a closed place there are no blanks but the same. -/
theorem Beside.level_of_closed (h : Beside last ⟨frames, loose⟩ c d)
    (hclosed : Frame.isOpen frames = false) : Level last frames c d := by
  rcases h.level_or with hlevel | ⟨hopen, -⟩
  · exact hlevel
  · simp [hclosed] at hopen

/-- In front of a lexeme that is no border there are no blanks but the same. -/
theorem Beside.level_of_isBorder_eq_false (h : Beside last ⟨frames, false⟩ c d)
    (hborder : isBorder c.current.kind = false) : Level last frames c d := by
  rcases h.level_or with hlevel | ⟨-, -, hkind, -⟩
  · exact hlevel
  · simp [hborder] at hkind

namespace Level

/-- The lexemes on which level cursors stand are written in the same way. -/
theorem alike (h : Level last frames c d) : c.current.Alike frames d.current := by
  by_cases hstop : c.current.kind = .stop
  · have hstop' := h.kind_eq.trans hstop
    rw [(h.placed.current_of_stop hstop).1, (h.placed'.current_of_stop hstop').1]
    exact ⟨rfl, fun _ => rfl⟩
  · have hrespaced := h.respaced
    rw [stream_of_ne_stop hstop] at hrespaced
    obtain ⟨lexeme', rest', hstream, halike, -⟩ :=
      hrespaced.of_next (by rw [h.placed'.headKind_stream, h.kind_eq])
    rw [stream_of_ne_stop (h.kind_eq ▸ hstop), TokenStream.next.injEq] at hstream
    rw [hstream.1]
    exact halike

/-- When the first cursor passes its lexeme the second one does. -/
theorem step (h : Level last frames c d) (hpasses : c.Passes [c.current] c₁) :
    ∃ d₁, d.Passes [d.current] d₁ ∧
      Beside last ⟨Frame.pass frames c.current.kind, separators.contains c.current.kind⟩ c₁ d₁ := by
  have hrespaced := h.respaced
  rw [hpasses.stream_eq h.placed, TokenStream.prepend_cons] at hrespaced
  obtain ⟨lexeme', rest', hstream, -, hrest⟩ :=
    hrespaced.of_next (by rw [h.placed'.headKind_stream, h.kind_eq])
  have hfront : d.stream = TokenStream.prepend [lexeme'] rest' := hstream
  obtain ⟨d₁, hpasses', hd₁⟩ := exists_passes h.placed' hfront hrest.ne_failed
  obtain ⟨rfl, -⟩ := passes_cons_iff_step.1 hpasses'
  exact ⟨d₁, hpasses', hpasses.placed h.placed, hpasses'.placed h.placed', hd₁ ▸ hrest⟩

/-- Nothing opens or closes at most lexemes, and no blanks may stand behind them. -/
theorem step_of_notMem (h : Level last frames c d) (hpasses : c.Passes [c.current] c₁)
    (hkind : c.current.kind ∉ Frame.brackets ++ separators) :
    ∃ d₁, d.Passes [d.current] d₁ ∧ Beside last ⟨frames, false⟩ c₁ d₁ := by
  rw [List.mem_append, not_or] at hkind
  obtain ⟨d₁, hpasses', h₁⟩ := h.step hpasses
  rw [Frame.pass_of_notMem hkind.1, List.contains_eq_mem, decide_eq_false hkind.2] at h₁
  exact ⟨d₁, hpasses', h₁⟩

end Level

theorem Skips.cons (hkind : d.current.kind = .whitespace) (hpasses : d.Passes [d.current] d₁)
    {d₂ : Cursor} (h : d₁.Skips d₂) : d.Skips d₂ := by
  obtain ⟨blanks, hblanks, hall, hend⟩ := h
  exact ⟨d.current :: blanks, hpasses.trans hblanks, List.forall_mem_cons.2 ⟨hkind, hall⟩, hend⟩

/-- Once both have skipped their blanks the cursors are level. -/
theorem Beside.skips (h : Beside last ⟨frames, loose⟩ c d) (hskip : c.Skips c₁) :
    ∃ d₁, d.Skips d₁ ∧ Level last frames c₁ d₁ := by
  obtain ⟨blanks, hpasses, hblank, hkind⟩ := hskip
  induction blanks generalizing c d loose with
  | nil =>
    obtain rfl := passes_nil_iff.1 hpasses
    rcases h.level_or with hlevel | ⟨-, -, -, -, hskip⟩
    · exact ⟨d, skips_self (hlevel.kind_eq ▸ hkind), hlevel⟩
    · exact hskip
  | cons blank blanks ih =>
    obtain ⟨rfl, c₂, hstep, hrest⟩ := passes_cons_iff_step.1 hpasses
    obtain ⟨hblank, hblanks⟩ := List.forall_mem_cons.1 hblank
    rcases h.level_or with hlevel | ⟨-, hne, -⟩
    · obtain ⟨d₂, hstep', h₂⟩ := hlevel.step_of_notMem hstep (by rw [hblank]; decide)
      obtain ⟨d₁, hskip, h₁⟩ := ih h₂ hrest hblanks
      exact ⟨d₁, hskip.cons (hlevel.kind_eq.trans hblank) hstep', h₁⟩
    · exact absurd hblank hne

end Cursor

namespace Production

variable {α β σ : Type} {context : Context}

/-- Where a production succeeds at the first cursor it does so at the second one. It means the
same, and the cursors are related afterwards. -/
def Carries (p : Production α) (meaning : α → β) (After : Cursor → Cursor → Prop)
    (c d : Cursor) : Prop :=
  ∀ ⦃value c'⦄, p c = .ok value c' →
    ∃ value' d', p d = .ok value' d' ∧ meaning value' = meaning value ∧ After c' d'

/-- Loops that gather the same at level cursors, round by round, gather the same. -/
theorem carries_gathers {more last : Cursor → List α → Cursor → Prop} {meaning : α → β}
    {Before After : Cursor → Cursor → Prop}
    (hmore : ∀ {c d c' items}, Before c d → more c items c' →
      ∃ items' d', more d items' d' ∧ items'.map meaning = items.map meaning ∧ Before c' d')
    (hlast : ∀ {c d c' items}, Before c d → last c items c' →
      ∃ items' d', Gathers more last d items' d' ∧ items'.map meaning = items.map meaning ∧
        After c' d')
    (h : Before c d) {items : List α} (hgathers : Gathers more last c items c') :
    ∃ items' d', Gathers more last d items' d' ∧ items'.map meaning = items.map meaning ∧
      After c' d' := by
  induction hgathers generalizing d with
  | done h' => exact hlast h h'
  | yield h' _ ih =>
    obtain ⟨items', d₁, hmore', hmeaning, h₁⟩ := hmore h h'
    obtain ⟨rest', d', hrest', hrestMeaning, hafter⟩ := ih h₁
    refine ⟨items' ++ rest', d', .yield hmore' hrest', ?_, hafter⟩
    rw [List.map_append, List.map_append, hmeaning, hrestMeaning]

end Production

end CommandSyntax
