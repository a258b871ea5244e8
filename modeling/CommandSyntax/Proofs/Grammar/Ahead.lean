import CommandSyntax.Proofs.Grammar.StatementSuccess
import CommandSyntax.Proofs.Grammar.Language
import Mathlib.Data.List.Chain

/-!
# CommandSyntax.Proofs.Grammar.Ahead

**What lies ahead of a cursor, as token kinds.** On an input that can be cut into
tokens, all that a production meets from a cursor on is the sequence of the kinds
ahead of it (`Cursor.Ahead`): it may pass the first of them, and whatever it passes
are the first of them.

`Ahead` keeps out what makes a word end before it has to: text that stands for
nothing, and two double quotes side by side, which a word passes without a part
between them.
-/

namespace CommandSyntax

open Production Computability

namespace Cursor

variable {c c' : Cursor} {kind : TokenKind} {kinds front back : List TokenKind}
  {lexemes : List Lexeme}

/-- No two double quotes stand side by side. -/
def QuotesApart (kinds : List TokenKind) : Prop :=
  kinds.IsChain fun left right => ¬ (left = .doubleQuote ∧ right = .doubleQuote)

/-- From a cursor to the end of the input there are lexemes of these kinds. None of them is text
that stands for nothing, and no two of them are double quotes side by side. -/
structure Ahead (c : Cursor) (kinds : List TokenKind) : Prop where
  /-- The cursor is placed. -/
  placed : c.Placed
  /-- The lexemes ahead. -/
  lexemes : ∃ lexemes, c.stream = TokenStream.prepend lexemes (.finished c.size) ∧
    lexemes.map Lexeme.kind = kinds ∧ ∀ lexeme ∈ lexemes, ¬ lexeme.IsEmptyText
  /-- The double quotes among them. -/
  quotesApart : QuotesApart kinds

/-- Something lies ahead, whatever it is. -/
def Tame (c : Cursor) : Prop := ∃ kinds, c.Ahead kinds

theorem Tame.placed (h : c.Tame) : c.Placed := h.elim fun _ h => h.placed

/-- The cursor stands on the first lexeme ahead, or at the end. -/
theorem Ahead.kind_eq (h : c.Ahead kinds) : c.current.kind = kinds.headD .stop := by
  obtain ⟨lexemes, hstream, rfl, -⟩ := h.lexemes
  by_cases hkind : c.current.kind = .stop
  · rw [h.placed.stream_of_stop hkind] at hstream
    cases lexemes with
    | nil => exact hkind
    | cons => simp at hstream
  · rw [stream_of_ne_stop hkind] at hstream
    cases lexemes with
    | nil => simp at hstream
    | cons lexeme lexemes =>
      rw [TokenStream.prepend_cons, TokenStream.next.injEq] at hstream
      rw [hstream.1]
      rfl

/-- What is passed are the first lexemes ahead, and none of them stands for nothing. -/
theorem Ahead.of_passes (h : c.Ahead kinds) (hpasses : c.Passes lexemes c') :
    ∃ back, kinds = lexemes.map Lexeme.kind ++ back ∧ c'.Ahead back ∧
      ∀ lexeme ∈ lexemes, ¬ lexeme.IsEmptyText := by
  obtain ⟨all, hstream, rfl, hempty⟩ := h.lexemes
  obtain ⟨rest, rfl, hrest⟩ :=
    TokenStream.eq_append_of_prepend_eq ((hpasses.stream_eq h.placed).symm.trans hstream)
  rw [List.map_append]
  refine ⟨rest.map Lexeme.kind, rfl, ⟨hpasses.placed h.placed, ⟨rest, ?_, rfl, ?_⟩, ?_⟩, ?_⟩
  · rw [hrest, hpasses.size_eq h.placed]
  · exact fun lexeme hmem => hempty lexeme (List.mem_append_right _ hmem)
  · exact (List.isChain_append.1 (List.map_append ▸ h.quotesApart)).2.1
  · exact fun lexeme hmem => hempty lexeme (List.mem_append_left _ hmem)

/-- The first lexemes ahead can be passed. -/
theorem Ahead.passes (h : c.Ahead (front ++ back)) :
    ∃ lexemes c', c.Passes lexemes c' ∧ lexemes.map Lexeme.kind = front ∧ c'.Ahead back := by
  obtain ⟨all, hstream, hall, -⟩ := h.lexemes
  obtain ⟨lexemes, rest, rfl, rfl, rfl⟩ := List.map_eq_append_iff.1 hall
  rw [TokenStream.prepend_append] at hstream
  obtain ⟨c', hpasses, -⟩ := exists_passes h.placed hstream fun error herror => by
    cases rest <;> simp at herror
  obtain ⟨back, hback, hahead, -⟩ := h.of_passes hpasses
  obtain rfl := List.append_cancel_left hback
  exact ⟨lexemes, c', hpasses, rfl, hahead⟩

/-- The first lexeme ahead can be passed. -/
theorem Ahead.step (h : c.Ahead (kind :: kinds)) :
    c.current.kind = kind ∧ ∃ c', c.Passes [c.current] c' ∧ c'.Ahead kinds := by
  obtain ⟨lexemes, c', hpasses, hkinds, hahead⟩ :=
    Ahead.passes (show c.Ahead ([kind] ++ kinds) from h)
  obtain ⟨lexeme, rfl, hkind⟩ := List.map_eq_singleton_iff.1 hkinds
  obtain ⟨rfl, -⟩ := passes_cons_iff_step.1 hpasses
  exact ⟨hkind, c', hpasses, hahead⟩

/-- At the end nothing lies ahead. -/
theorem Ahead.eq_nil_of_stop (h : c.Ahead kinds) (hkind : c.current.kind = .stop) :
    kinds = [] := by
  cases kinds with
  | nil => rfl
  | cons kind kinds =>
    obtain ⟨-, c', hpasses, -⟩ := h.step
    exact absurd hkind (hpasses.kind_ne_stop c.current (by simp))

/-- A stream that does not fail ends where its input does. -/
theorem Placed.position_eq (hc : c.Placed) {position : Nat}
    (h : c.stream = TokenStream.prepend lexemes (.finished position)) : position = c.size := by
  obtain ⟨c', hpasses, hstream⟩ := exists_passes hc h fun error herror => by simp at herror
  have hplaced := hpasses.placed hc
  by_cases hkind : c'.current.kind = .stop
  · rw [hplaced.stream_of_stop hkind, hpasses.size_eq hc, TokenStream.finished.injEq] at hstream
    exact hstream.symm
  · simp [stream_of_ne_stop hkind] at hstream

/-- What lies ahead of a cursor is determined. -/
theorem Ahead.unique (h : c.Ahead front) (h' : c.Ahead back) : front = back := by
  obtain ⟨lexemes, hstream, rfl, -⟩ := h.lexemes
  obtain ⟨lexemes', hstream', rfl, -⟩ := h'.lexemes
  obtain ⟨rest, rfl, hrest⟩ := TokenStream.eq_append_of_prepend_eq (hstream.symm.trans hstream')
  cases rest with
  | nil => simp
  | cons => simp at hrest

/-- A passage is as long as what it leaves is shorter. -/
theorem Ahead.length_eq {rest : List TokenKind} (h : c.Ahead (front ++ rest))
    (h' : c'.Ahead (back ++ rest)) (hpasses : c.Passes lexemes c') :
    front.length = lexemes.length + back.length := by
  obtain ⟨after, heq, hafter, -⟩ := h.of_passes hpasses
  have hlength := congrArg List.length (hafter.unique h' ▸ heq)
  simp only [List.length_append, List.length_map] at hlength
  omega

theorem Tame.passes (h : c.Tame) (hpasses : c.Passes lexemes c') : c'.Tame := by
  obtain ⟨kinds, h⟩ := h
  obtain ⟨back, -, hahead, -⟩ := h.of_passes hpasses
  exact ⟨back, hahead⟩

theorem Tame.reaches (h : c.Tame) (hreaches : c.Reaches c') : c'.Tame := by
  obtain ⟨lexemes, hpasses⟩ := hreaches
  exact h.passes hpasses

/-- Lexemes that stand for nothing are not passed. -/
theorem Tame.eq_nil_of_blank (h : c.Tame) (hpasses : c.Passes lexemes c') {quoted : Bool}
    (hblank : ∀ lexeme ∈ lexemes, IsBlankText quoted lexeme) : lexemes = [] := by
  obtain ⟨kinds, h⟩ := h
  obtain ⟨-, -, -, hempty⟩ := h.of_passes hpasses
  refine List.eq_nil_iff_forall_not_mem.2 fun lexeme hmem => hempty lexeme hmem ?_
  exact (isEmptyText_of_isBlankText (hpasses.scanned h.placed lexeme hmem) (hblank lexeme hmem)).2

/-- At most one double quote is passed at a time. -/
theorem Tame.length_le_one_of_quotes (h : c.Tame) (hpasses : c.Passes lexemes c')
    (hquotes : ∀ lexeme ∈ lexemes, lexeme.kind = .doubleQuote) : lexemes.length ≤ 1 := by
  obtain ⟨kinds, h⟩ := h
  obtain ⟨back, rfl, -⟩ := h.of_passes hpasses
  match lexemes, hquotes with
  | [], _ => simp
  | [_], _ => simp
  | left :: right :: lexemes, hquotes =>
    have hapart := (List.isChain_cons_cons.1 h.quotesApart).1
    exact absurd ⟨hquotes left (by simp), hquotes right (by simp)⟩ hapart

/-! ### What is passed, as a member of a language -/

/-- The kinds of the lexemes passed between two cursors are in a language. -/
def Eats (c : Cursor) (language : Grammar.Kinds) (c' : Cursor) : Prop :=
  ∃ lexemes, c.Passes lexemes c' ∧ lexemes.map Lexeme.kind ∈ language

variable {language language' : Grammar.Kinds} {c₁ : Cursor}

theorem Eats.mul (h : c.Eats language c₁) (h' : c₁.Eats language' c') :
    c.Eats (language * language') c' := by
  obtain ⟨front, hfront, hmem⟩ := h
  obtain ⟨back, hback, hmem'⟩ := h'
  exact ⟨front ++ back, hfront.trans hback, List.map_append ▸ Language.append_mem_mul hmem hmem'⟩

theorem Eats.mono (h : c.Eats language c') (hle : language ≤ language') :
    c.Eats language' c' := by
  obtain ⟨lexemes, hpasses, hmem⟩ := h
  exact ⟨lexemes, hpasses, hle hmem⟩

theorem Eats.star_trans (h : c.Eats language∗ c₁) (h' : c₁.Eats language∗ c') :
    c.Eats language∗ c' :=
  (h.mul h').mono (kstar_mul_kstar _).le

/-- Once is at least once. -/
theorem Eats.plus (h : c.Eats language c') : c.Eats (language * language∗) c' :=
  h.mono (le_mul_of_one_le_right' one_le_kstar)

theorem Eats.reaches (h : c.Eats language c') : c.Reaches c' := by
  obtain ⟨lexemes, hpasses, -⟩ := h
  exact hpasses.reaches

theorem Eats.nil (h : [] ∈ language) (c : Cursor) : c.Eats language c := ⟨[], .nil c, h⟩

theorem Passes.eats (h : c.Passes [c.current] c') : c.Eats (Grammar.token c.current.kind) c' :=
  ⟨_, h, rfl⟩

theorem Skips.eats (h : c.Skips c') : c.Eats Grammar.blanks c' := by
  obtain ⟨blanks, hpasses, hblank, -⟩ := h
  exact ⟨blanks, hpasses, Grammar.mem_blanks_iff.2 (by simpa using hblank)⟩

end Cursor

end CommandSyntax
