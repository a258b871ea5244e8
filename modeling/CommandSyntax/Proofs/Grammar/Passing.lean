import CommandSyntax.Grammar.Production
import CommandSyntax.Proofs.Token.Layout

/-!
# CommandSyntax.Proofs.Grammar.Passing

**Cursors that pass lexemes.** `Cursor.Passes` relates two cursors when the second
is reached from the first by leaving some lexemes behind, one at a time. What a
production reads is always told by it.

Design points:

* Only lexemes before the end can be left behind: `Passes` never takes an end
  marker, so a passage is a piece of the token stream (`Passes.stream_eq`).
* A cursor is `Placed` when what lies ahead of it tiles the rest of its input.
  Every cursor on which a production runs is placed, and on a placed cursor each
  lexeme that is left behind brings the cursor forward (`Passes.left_lt`).
* A passage is determined by its two ends (`Passes.unique`).
-/

namespace CommandSyntax

open Production

namespace Cursor

variable {c c₁ c₂ : Cursor} {lexeme : Lexeme} {front back lexemes : List Lexeme}

/-! ### Leaving one lexeme behind -/

/-- The cursor with the end of its lexeme noted, unless that is whitespace. -/
def mark (c : Cursor) : Cursor :=
  if c.current.kind = .whitespace then c else { c with lastEnd := c.current.stop }

@[simp] theorem current_mark (c : Cursor) : c.mark.current = c.current := by
  unfold mark; split <;> rfl

@[simp] theorem ahead_mark (c : Cursor) : c.mark.ahead = c.ahead := by
  unfold mark; split <;> rfl

@[simp] theorem scanned_mark (c : Cursor) : c.mark.scanned = c.scanned := by
  unfold mark; split <;> rfl

@[simp] theorem size_mark (c : Cursor) : c.mark.size = c.size := by
  unfold mark; split <;> rfl

@[simp] theorem current_moveTo (c : Cursor) (lexeme : Lexeme) (ahead : TokenStream) :
    (c.moveTo lexeme ahead).current = lexeme := rfl

@[simp] theorem ahead_moveTo (c : Cursor) (lexeme : Lexeme) (ahead : TokenStream) :
    (c.moveTo lexeme ahead).ahead = ahead := rfl

@[simp] theorem lastEnd_moveTo (c : Cursor) (lexeme : Lexeme) (ahead : TokenStream) :
    (c.moveTo lexeme ahead).lastEnd = c.lastEnd := rfl

@[simp] theorem scanned_moveTo (c : Cursor) (lexeme : Lexeme) (ahead : TokenStream) :
    (c.moveTo lexeme ahead).scanned = lexeme.token :: c.scanned := rfl

@[simp] theorem size_moveTo (c : Cursor) (lexeme : Lexeme) (ahead : TokenStream) :
    (c.moveTo lexeme ahead).size = c.size := rfl

/-- What `take` does, by what lies ahead. -/
theorem take_apply (c : Cursor) :
    take c =
      match c.ahead with
      | .finished position =>
        .ok c.current (c.mark.moveTo (Lexeme.endMarker position) (.finished position))
      | .failed error => .error (.scan error) c.mark
      | .next lexeme rest => .ok c.current (c.mark.moveTo lexeme rest) := by
  have hmark : markEnd c = .ok () c.mark := rfl
  simp only [take, bind, EStateM.bind, current_apply, hmark, advance, ahead_mark]
  cases c.ahead <;> rfl

/-- A successful `take` gives the current lexeme and goes to the next one. -/
theorem take_eq_ok (h : take c = .ok lexeme c₁) :
    lexeme = c.current ∧
      ((∃ position, c.ahead = .finished position ∧
          c₁ = c.mark.moveTo (Lexeme.endMarker position) (.finished position)) ∨
        ∃ next rest, c.ahead = .next next rest ∧ c₁ = c.mark.moveTo next rest) := by
  rw [take_apply] at h
  split at h
  · obtain ⟨rfl, rfl⟩ := EStateM.Result.ok.inj h
    exact ⟨rfl, .inl ⟨_, ‹_›, rfl⟩⟩
  · simp at h
  · obtain ⟨rfl, rfl⟩ := EStateM.Result.ok.inj h
    exact ⟨rfl, .inr ⟨_, _, ‹_›, rfl⟩⟩

/-- A `take` fails only where the stream does. -/
theorem take_eq_error {error : SyntaxError} (h : take c = .error error c₁) :
    c₁ = c.mark ∧ ∃ scanError, error = .scan scanError ∧ c.ahead = .failed scanError := by
  rw [take_apply] at h
  split at h <;> simp_all

/-! ### Placed cursors -/

/-- A cursor stands on a lexeme of its input and the rest of the input is ahead,
or it stands on the end marker. -/
inductive Placed : Cursor → Prop
  /-- The cursor stands on a lexeme. -/
  | atLexeme {c : Cursor} (hscanned : c.current.Scanned)
      (hahead : c.ahead.Tiles c.size c.current.stop) : Placed c
  /-- The cursor stands at the end. -/
  | atEnd {c : Cursor} (hcurrent : c.current = Lexeme.endMarker c.size)
      (hahead : c.ahead = .finished c.size) : Placed c

/-- Moving to what comes next in a tiled stream gives a placed cursor. -/
theorem Placed.moveTo {position : Nat} {rest : TokenStream}
    (h : TokenStream.Tiles c.size position (.next lexeme rest)) :
    (c.moveTo lexeme rest).Placed ∧ lexeme.start = position ∧ lexeme.kind ≠ .stop := by
  cases h with
  | next hscanned hrest => exact ⟨.atLexeme hscanned hrest, rfl, hscanned.kind_ne_stop⟩

theorem Placed.moveTo_end {position position' : Nat}
    (h : TokenStream.Tiles c.size position (.finished position')) :
    (c.moveTo (Lexeme.endMarker position') (.finished position')).Placed ∧
      position' = position := by
  cases h with
  | finished => exact ⟨.atEnd rfl rfl, rfl⟩

theorem Placed.tiles (h : c.Placed) (hkind : c.current.kind ≠ .stop) :
    c.ahead.Tiles c.size c.current.stop := by
  cases h with
  | atLexeme _ hahead => exact hahead
  | atEnd hcurrent => simp [hcurrent, Lexeme.endMarker] at hkind

theorem Placed.scanned (h : c.Placed) (hkind : c.current.kind ≠ .stop) : c.current.Scanned := by
  cases h with
  | atLexeme hscanned _ => exact hscanned
  | atEnd hcurrent => simp [hcurrent, Lexeme.endMarker] at hkind

theorem Placed.current_of_stop (h : c.Placed) (hkind : c.current.kind = .stop) :
    c.current = Lexeme.endMarker c.size ∧ c.ahead = .finished c.size := by
  cases h with
  | atLexeme hscanned _ => exact absurd hkind hscanned.kind_ne_stop
  | atEnd hcurrent hahead => exact ⟨hcurrent, hahead⟩

/-- The stream from the current lexeme on. -/
def stream (c : Cursor) : TokenStream :=
  if c.current.kind = .stop then c.ahead else .next c.current c.ahead

theorem stream_of_ne_stop (h : c.current.kind ≠ .stop) : c.stream = .next c.current c.ahead :=
  if_neg h

theorem Placed.stream_of_stop (h : c.Placed) (hkind : c.current.kind = .stop) :
    c.stream = .finished c.size :=
  (if_pos hkind).trans (h.current_of_stop hkind).2

/-- A placed cursor stands inside its input. -/
theorem Placed.start_le_size (h : c.Placed) : c.current.start ≤ c.size := by
  by_cases hkind : c.current.kind = .stop
  · exact Nat.le_of_eq (congrArg Lexeme.start (h.current_of_stop hkind).1)
  · exact Nat.le_trans (Nat.le_add_right ..) (h.tiles hkind).le

/-- A cursor with nothing ahead stands at the end. -/
theorem Placed.current_of_finished (h : c.Placed) {position : Nat}
    (hstream : c.stream = .finished position) : c.current = Lexeme.endMarker position := by
  by_cases hkind : c.current.kind = .stop
  · rw [h.stream_of_stop hkind, TokenStream.finished.injEq] at hstream
    rw [(h.current_of_stop hkind).1, hstream]
  · simp [stream_of_ne_stop hkind] at hstream

/-- Everything that leaving one lexeme behind does to a placed cursor. -/
structure Leaves (c c₁ : Cursor) : Prop where
  /-- The new cursor is placed. -/
  placed : c₁.Placed
  /-- It stands right behind the lexeme. -/
  start_eq : c₁.current.start = c.current.stop
  /-- It is in the same input. -/
  size_eq : c₁.size = c.size
  /-- The end of the lexeme is noted, unless it is whitespace. -/
  lastEnd_eq : c₁.lastEnd = if c.current.kind = .whitespace then c.lastEnd else c.current.stop
  /-- One more token is scanned. -/
  scanned_eq : c₁.scanned = c₁.current.token :: c.scanned
  /-- The stream is one lexeme shorter. -/
  stream_eq : c.stream = .next c.current c₁.stream
  /-- Less is left. -/
  left_lt : c₁.left < c.left

theorem leaves_of_take (h : c.Placed) (hkind : c.current.kind ≠ .stop)
    (htake : take c = .ok lexeme c₁) : c.Leaves c₁ := by
  have htiles := h.tiles hkind
  have hlt := Lexeme.lt_stop_of_text_ne_nil (h.scanned hkind).text_ne_nil
  have hle := htiles.le
  have hlast : c.mark.lastEnd = if c.current.kind = .whitespace then c.lastEnd
      else c.current.stop := by
    unfold mark; split <;> rfl
  obtain ⟨-, ⟨position, hahead, rfl⟩ | ⟨next, rest, hahead, rfl⟩⟩ := take_eq_ok htake
  · rw [hahead] at htiles
    obtain ⟨hplaced, hposition⟩ := Placed.moveTo_end (c := c.mark) (by simpa using htiles)
    refine ⟨hplaced, hposition, by simp, by simpa using hlast, by simp, ?_, ?_⟩
    · rw [stream_of_ne_stop hkind, hahead]
      simp [stream, Lexeme.endMarker]
    · simp only [left, current_moveTo, size_moveTo, size_mark, Lexeme.endMarker]
      omega
  · rw [hahead] at htiles
    obtain ⟨hplaced, hposition, hnext⟩ := Placed.moveTo (c := c.mark) (by simpa using htiles)
    refine ⟨hplaced, hposition, by simp, by simpa using hlast, by simp, ?_, ?_⟩
    · rw [stream_of_ne_stop hkind, hahead, stream_of_ne_stop (by simpa using hnext)]
      simp
    · simp only [left, current_moveTo, size_moveTo, size_mark]
      omega

/-! ### Passing lexemes -/

/-- The second cursor is reached from the first by leaving the lexemes behind. -/
inductive Passes : Cursor → List Lexeme → Cursor → Prop
  /-- Staying passes nothing. -/
  | nil (c : Cursor) : Passes c [] c
  /-- The current lexeme is passed first. -/
  | cons {c c₁ c₂ : Cursor} {lexemes : List Lexeme} (hkind : c.current.kind ≠ .stop)
      (htake : take c = .ok c.current c₁) (hrest : Passes c₁ lexemes c₂) :
      Passes c (c.current :: lexemes) c₂

theorem Passes.single (hkind : c.current.kind ≠ .stop) (htake : take c = .ok lexeme c₁) :
    c.Passes [c.current] c₁ := by
  obtain rfl := (take_eq_ok htake).1
  exact .cons hkind htake (.nil c₁)

theorem Passes.trans (h : c.Passes front c₁) (h' : c₁.Passes back c₂) :
    c.Passes (front ++ back) c₂ := by
  induction h with
  | nil => exact h'
  | cons hkind htake _ ih => exact .cons hkind htake (ih h')

/-- A passage can be broken off after any of its lexemes. -/
theorem passes_append_iff :
    c.Passes (front ++ back) c₂ ↔ ∃ c₁, c.Passes front c₁ ∧ c₁.Passes back c₂ := by
  refine ⟨fun h => ?_, fun ⟨_, h, h'⟩ => h.trans h'⟩
  induction front generalizing c with
  | nil => exact ⟨c, .nil c, h⟩
  | cons lexeme front ih =>
    cases h with
    | cons hkind htake hrest =>
      obtain ⟨c₁, hfront, hback⟩ := ih hrest
      exact ⟨c₁, .cons hkind htake hfront, hback⟩

theorem passes_cons_iff :
    c.Passes (lexeme :: lexemes) c₂ ↔
      lexeme.kind ≠ .stop ∧ c.current = lexeme ∧
        ∃ c₁, take c = .ok lexeme c₁ ∧ c₁.Passes lexemes c₂ := by
  constructor
  · intro h
    cases h with
    | cons hkind htake hrest => exact ⟨hkind, rfl, _, htake, hrest⟩
  · intro h
    obtain ⟨hkind, rfl, c₁, htake, hrest⟩ := h
    exact .cons hkind htake hrest

@[simp] theorem passes_nil_iff : c.Passes [] c₁ ↔ c = c₁ := by
  constructor
  · intro h
    cases h
    rfl
  · rintro rfl
    exact .nil c

/-- A passage starts with the current lexeme. -/
theorem passes_cons_iff_step :
    c.Passes (lexeme :: lexemes) c₂ ↔
      c.current = lexeme ∧ ∃ c₁, c.Passes [c.current] c₁ ∧ c₁.Passes lexemes c₂ := by
  constructor
  · intro h
    cases h with
    | cons hkind htake hrest => exact ⟨rfl, _, .single hkind htake, hrest⟩
  · intro h
    obtain ⟨rfl, c₁, hstep, hrest⟩ := h
    exact hstep.trans hrest

namespace Passes

theorem placed (h : c.Passes lexemes c₁) (hc : c.Placed) : c₁.Placed := by
  induction h with
  | nil => exact hc
  | cons hkind htake _ ih => exact ih (leaves_of_take hc hkind htake).placed

theorem size_eq (h : c.Passes lexemes c₁) (hc : c.Placed) : c₁.size = c.size := by
  induction h with
  | nil => rfl
  | cons hkind htake _ ih =>
    have hleaves := leaves_of_take hc hkind htake
    exact (ih hleaves.placed).trans hleaves.size_eq

theorem left_le (h : c.Passes lexemes c₁) (hc : c.Placed) : c₁.left ≤ c.left := by
  induction h with
  | nil => exact Nat.le_refl _
  | cons hkind htake _ ih =>
    have hleaves := leaves_of_take hc hkind htake
    exact Nat.le_trans (ih hleaves.placed) (Nat.le_of_lt hleaves.left_lt)

/-- Passing a lexeme brings a cursor forward. -/
theorem left_lt (h : c.Passes lexemes c₁) (hc : c.Placed) (hne : lexemes ≠ []) :
    c₁.left < c.left := by
  cases h with
  | nil => exact absurd rfl hne
  | cons hkind htake hrest =>
    have hleaves := leaves_of_take hc hkind htake
    exact Nat.lt_of_le_of_lt (hrest.left_le hleaves.placed) hleaves.left_lt

/-- A passage from a cursor to itself passes nothing. -/
theorem eq_nil_of_left_le (h : c.Passes lexemes c₁) (hc : c.Placed) (hle : c.left ≤ c₁.left) :
    lexemes = [] := by
  cases lexemes with
  | nil => rfl
  | cons lexeme lexemes =>
    have := h.left_lt hc (by simp)
    omega

/-- What a passage passes is the front of the stream. -/
theorem stream_eq (h : c.Passes lexemes c₁) (hc : c.Placed) :
    c.stream = TokenStream.prepend lexemes c₁.stream := by
  induction h with
  | nil => rfl
  | cons hkind htake _ ih =>
    have hleaves := leaves_of_take hc hkind htake
    rw [hleaves.stream_eq, ih hleaves.placed, TokenStream.prepend_cons]

/-- A passage is determined by its two ends. -/
theorem unique (h : c.Passes front c₁) (h' : c.Passes back c₁) (hc : c.Placed) :
    front = back := by
  induction h generalizing back with
  | nil => exact (h'.eq_nil_of_left_le hc (Nat.le_refl _)).symm
  | cons hkind htake hrest ih =>
    cases h' with
    | nil =>
      have := (Passes.cons hkind htake hrest).eq_nil_of_left_le hc (Nat.le_refl _)
      exact absurd this (by simp)
    | cons hkind' htake' hrest' =>
      rw [htake] at htake'
      obtain ⟨-, rfl⟩ := EStateM.Result.ok.inj htake'
      rw [ih hrest' (leaves_of_take hc hkind htake).placed]

/-- The tokens scanned in the course of a passage. -/
theorem scanned_eq (h : c.Passes lexemes c₁) (hc : c.Placed) {before : List Token}
    (hscanned : c.scanned = c.current.token :: before) :
    c₁.scanned = c₁.current.token :: ((lexemes.map Lexeme.token).reverse ++ before) := by
  induction h generalizing before with
  | nil => simpa using hscanned
  | cons hkind htake _ ih =>
    have hleaves := leaves_of_take hc hkind htake
    rw [ih hleaves.placed hleaves.scanned_eq, hscanned]
    simp

theorem scanned (h : c.Passes lexemes c₁) (hc : c.Placed) :
    ∀ lexeme ∈ lexemes, lexeme.Scanned := by
  induction h with
  | nil => simp
  | cons hkind htake _ ih =>
    simpa using ⟨hc.scanned hkind, ih (leaves_of_take hc hkind htake).placed⟩

/-- A passage covers the bytes from where it starts to where it leads. -/
theorem laidOut (h : c.Passes lexemes c₁) (hc : c.Placed) :
    Lexeme.LaidOut c.current.start lexemes c₁.current.start := by
  induction h with
  | nil => rfl
  | cons hkind htake _ ih =>
    have hleaves := leaves_of_take hc hkind htake
    exact ⟨rfl, hleaves.start_eq ▸ ih hleaves.placed⟩

theorem start_le (h : c.Passes lexemes c₁) (hc : c.Placed) :
    c.current.start ≤ c₁.current.start := by
  have := (h.laidOut hc).eq_add_width
  omega

theorem start_lt (h : c.Passes lexemes c₁) (hc : c.Placed) (hne : lexemes ≠ []) :
    c.current.start < c₁.current.start := by
  have := h.left_lt hc hne
  have := h.size_eq hc
  simp only [left] at *
  omega

/-- Right behind a lexeme that is not whitespace the last end is the place of the cursor. -/
theorem lastEnd_eq (h : c.Passes (front ++ [lexeme]) c₁) (hc : c.Placed)
    (hkind : lexeme.kind ≠ .whitespace) : c₁.lastEnd = c₁.current.start := by
  obtain ⟨c₂, hfront, hlast⟩ := passes_append_iff.1 h
  obtain ⟨hstop, rfl, c₃, htake, hnil⟩ := passes_cons_iff.1 hlast
  obtain rfl := passes_nil_iff.1 hnil
  have hleaves := leaves_of_take (hfront.placed hc) hstop htake
  rw [hleaves.lastEnd_eq, if_neg hkind, hleaves.start_eq]

theorem kind_ne_stop (h : c.Passes lexemes c₁) : ∀ lexeme ∈ lexemes, lexeme.kind ≠ .stop := by
  induction h with
  | nil => simp
  | cons hkind _ _ ih => simpa using ⟨hkind, ih⟩

end Passes

/-! ### Reaching -/

/-- The second cursor is reached from the first by passing some lexemes. -/
def Reaches (c c' : Cursor) : Prop := ∃ lexemes, c.Passes lexemes c'

theorem Reaches.refl (c : Cursor) : c.Reaches c := ⟨[], .nil c⟩

theorem Reaches.trans (h : c.Reaches c₁) (h' : c₁.Reaches c₂) : c.Reaches c₂ := by
  obtain ⟨front, hfront⟩ := h
  obtain ⟨back, hback⟩ := h'
  exact ⟨front ++ back, hfront.trans hback⟩

theorem Reaches.placed (h : c.Reaches c₁) (hc : c.Placed) : c₁.Placed := by
  obtain ⟨_, hpasses⟩ := h
  exact hpasses.placed hc

theorem Passes.reaches (h : c.Passes lexemes c₁) : c.Reaches c₁ := ⟨lexemes, h⟩

/-! ### Passing whitespace -/

/-- The second cursor is where the whitespace at the first one ends. -/
def Skips (c c' : Cursor) : Prop :=
  ∃ blanks, c.Passes blanks c' ∧ (∀ lexeme ∈ blanks, lexeme.kind = .whitespace) ∧
    c'.current.kind ≠ .whitespace

theorem Skips.placed (h : c.Skips c₁) (hc : c.Placed) : c₁.Placed := by
  obtain ⟨_, hpasses, -⟩ := h
  exact hpasses.placed hc

theorem Skips.reaches (h : c.Skips c₁) : c.Reaches c₁ := by
  obtain ⟨blanks, hpasses, -⟩ := h
  exact hpasses.reaches

theorem Skips.kind_ne (h : c.Skips c₁) : c₁.current.kind ≠ .whitespace := by
  obtain ⟨_, -, -, hkind⟩ := h
  exact hkind

/-- Without whitespace there is nothing to skip. -/
theorem skips_iff_of_kind_ne (h : c.current.kind ≠ .whitespace) : c.Skips c₁ ↔ c = c₁ := by
  constructor
  · intro h
    obtain ⟨blanks, hpasses, hblank, -⟩ := h
    cases hpasses with
    | nil => rfl
    | cons => exact absurd (hblank _ List.mem_cons_self) h
  · rintro rfl
    exact ⟨[], .nil c, by simp, h⟩

theorem skips_self (h : c.current.kind ≠ .whitespace) : c.Skips c :=
  (skips_iff_of_kind_ne h).2 rfl

/-! ### Where a passage is possible -/

/-- A cursor can pass what stands in front of a stream that does not fail at once. -/
theorem exists_passes (hc : c.Placed) {stream : TokenStream}
    (h : c.stream = TokenStream.prepend lexemes stream)
    (hstream : ∀ error, stream ≠ .failed error) :
    ∃ c₁, c.Passes lexemes c₁ ∧ c₁.stream = stream := by
  induction lexemes generalizing c with
  | nil => exact ⟨c, .nil c, h⟩
  | cons lexeme lexemes ih =>
    rw [TokenStream.prepend_cons] at h
    by_cases hkind : c.current.kind = .stop
    · rw [hc.stream_of_stop hkind] at h
      simp at h
    rw [stream_of_ne_stop hkind, TokenStream.next.injEq] at h
    obtain ⟨rfl, hahead⟩ := h
    cases htake : take c with
    | ok lexeme c₁ =>
      obtain rfl := (take_eq_ok htake).1
      have hleaves := leaves_of_take hc hkind htake
      have hstream₁ : c₁.stream = TokenStream.prepend lexemes stream := by
        have := hleaves.stream_eq
        rw [stream_of_ne_stop hkind, TokenStream.next.injEq] at this
        exact this.2.symm.trans hahead
      obtain ⟨c₂, hpasses, hc₂⟩ := ih hleaves.placed hstream₁
      exact ⟨c₂, .cons hkind htake hpasses, hc₂⟩
    | error error c₁ =>
      -- then the stream fails right ahead, where the lexemes or the rest stand
      obtain ⟨-, scanError, -, hfailed⟩ := take_eq_error htake
      rw [hfailed] at hahead
      cases lexemes with
      | nil => exact absurd hahead.symm (hstream scanError)
      | cons => simp at hahead

end Cursor

end CommandSyntax
