import CommandSyntax.Proofs.Grammar.Descent
import CommandSyntax.Proofs.Parse.Trace

/-!
# CommandSyntax.Proofs.Parse.Termination

**A parse ends by itself**, with no bound but the input (`EndsByItself`, `endsByItself_runParse`).

Two things of the grammar could go on for ever, a loop and the nesting of scripts, and the
definitions bound both: a loop stops at a round that does not move the cursor, and scripts are
nested a number of levels. Neither bound decides anything. Every round that goes on, and every
script inside a script, stands behind a lexeme that is consumed, and lexemes take bytes, of which
the input has finitely many.
-/

namespace CommandSyntax

open Production

/-! ### Cursors of an input -/

/-- Lexemes that take a byte each are no more than the bytes that they take. -/
theorem Cursor.Passes.length_add_le {c c' : Cursor} {lexemes : List Lexeme}
    (h : c.Passes lexemes c') (hc : c.Placed) : lexemes.length + c'.left ≤ c.left := by
  induction h with
  | nil => simp
  | cons hkind htake _ ih =>
    have hleaves := leaves_of_take hc hkind htake
    have hrest := ih hleaves.placed
    have hleft := hleaves.left_lt
    rw [List.length_cons]
    omega

/-- The cursor is reached in an input from its first token on. -/
def Cursor.Within (c : Cursor) (input : String) : Prop :=
  ∃ first : Cursor, first.Opens input ∧ first.Reaches c

namespace Cursor.Within

variable {c : Cursor} {input : String}

theorem placed (h : c.Within input) : c.Placed := by
  obtain ⟨first, hopens, hreaches⟩ := h
  exact hreaches.placed hopens.placed

theorem left_le (h : c.Within input) : c.left ≤ Text.width input.toList := by
  obtain ⟨first, hopens, lexemes, hpasses⟩ := h
  have hsize := hopens.size_of_passes hpasses
  rw [left, hsize]
  omega

end Cursor.Within

/-! ### The end of a parse -/

/-- A parse of an input is bounded by the input alone. -/
structure EndsByItself (limits : ParseLimits) (input : String) : Prop where
  /-- A round of a loop that goes on has consumed a lexeme, which takes a byte at least. -/
  rounds : ∀ {σ : Type} {round : σ → Production (ForInStep σ)} {state state' : σ}
    {c c' : Cursor} {inBackticks : Bool} {levels : Nat}, c.Within input →
    Repeats (levelContext limits.nesting inBackticks levels) round →
    round state c = .ok (.yield state') c' → c.Consumes c'
  /-- A loop does what its rounds do when they are repeated without a test: they are done before
  they have been repeated more often than the input has bytes. -/
  loops : ∀ {σ : Type} {round : σ → Production (ForInStep σ)} {c : Cursor}
    {inBackticks : Bool} {levels bound : Nat}, c.Within input →
    Repeats (levelContext limits.nesting inBackticks levels) round →
    Text.width input.toList < bound → ∀ state,
    loopWithin round bound state c = some (loop round state c)
  /-- A script inside a script is read behind a lexeme that the outer one has consumed: whatever
  stands in for its production need agree with it nowhere else. -/
  bodies : ∀ {c : Cursor} {inBackticks : Bool} {levels : Nat} {body : Bool → Production Script},
    c.Within input →
    (∀ c', c.Consumes c' → ∀ inBackticks,
      script limits.nesting levels inBackticks c' = body inBackticks c') →
    script limits.nesting (levels + 1) inBackticks c =
      scriptIn ⟨limits.nesting, inBackticks, some body⟩ c
  /-- More levels of nesting than the input has bytes are never used up. -/
  levels : ∀ {c : Cursor} {levels levels' : Nat}, c.Within input →
    Text.width input.toList < levels → Text.width input.toList < levels' → ∀ inBackticks,
    script limits.nesting levels inBackticks c = script limits.nesting levels' inBackticks c
  /-- Nothing advances from an end marker. -/
  ne_stop : ∀ token ∈ (runParse limits input).scanned.dropLast, token.kind ≠ .stop
  /-- The scanner advances to the first token, and from there at most once a byte. -/
  advances : (runParse limits input).scanned.length ≤ Text.width input.toList + 1

/-- **A parse ends by itself**, whatever the input and the limit on nesting. -/
theorem endsByItself_runParse (limits : ParseLimits) (input : String) :
    EndsByItself limits input where
  rounds hwithin hrepeats hround :=
    (hrepeats.advances (levelContext_orderly _ _ _)).consumes hwithin.placed hround
  loops hwithin hrepeats hbound state :=
    loopWithin_eq (hrepeats.advances (levelContext_orderly _ _ _)) hwithin.placed
      (Nat.lt_of_le_of_lt hwithin.left_le hbound) state
  bodies hwithin hbody := script_succ_eq hwithin.placed hbody
  levels hwithin hlevels hlevels' inBackticks :=
    script_eq_of_left_lt hwithin.placed (Nat.lt_of_le_of_lt hwithin.left_le hlevels)
      (Nat.lt_of_le_of_lt hwithin.left_le hlevels') inBackticks
  ne_stop := by
    obtain ⟨error, -, hrun⟩ | ⟨c, lexemes, last, -, hpasses, hscanned, -⟩ :=
      runParse_passage limits input
    · simp [hrun]
    · simpa [hscanned, Lexeme.token] using hpasses.kind_ne_stop
  advances := by
    obtain ⟨error, -, hrun⟩ | ⟨c, lexemes, last, hopens, hpasses, hscanned, -⟩ :=
      runParse_passage limits input
    · simp [hrun]
    · have hlength := hpasses.length_add_le hopens.placed
      have hleft : c.left ≤ Text.width input.toList :=
        Cursor.Within.left_le ⟨c, hopens, .refl c⟩
      simp only [hscanned, List.length_append, List.length_map, List.length_singleton]
      omega

end CommandSyntax
