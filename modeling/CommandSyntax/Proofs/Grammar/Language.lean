import CommandSyntax.Token
import Mathlib.Computability.Language
import Mathlib.Order.CompletePartialOrder

/-!
# CommandSyntax.Proofs.Grammar.Language

**The grammar as a language** of token kinds. Each symbol of the grammar is the
language of the sequences that it derives, written as in the usual notation: `+` for
a choice, `*` for a sequence, `∗` for any number of repetitions.

```text
list       := ((statement | blanks) end)* (statement | blanks)
statement  := pipeline (& blanks)?
pipeline   := command (| command)*
command    := (blanks assignment)* (blanks (argument | redirect))* blanks   not only blanks
redirect   := (< | > | >>) blanks argument
assignment := name= argument?
argument   := segment+
segment    := bare | " quoted+ "
bare       := $name | ${ ... } | $( list ) | ` list ` | glob | '...' | name= | text
quoted     := the same without globs, but glob characters, &&, ||, & and blanks are text
```

A substitution holds a list again. The languages of those inner lists are a parameter
of every symbol, so that no symbol refers to itself: `scripts levels` ties the knot
for lists in which substitutions are nested at most `levels - 1` deep. No symbol
derives a backtick substitution inside another one.

A command has a flat form (`mem_command_iff`): blanks, segments and redirections in
any order, not all of them blanks. An argument is a sequence of segments, so where
arguments stand side by side it does not matter where one ends.
-/

namespace CommandSyntax.Grammar

open Computability

/-- A sequence of token kinds. -/
abbrev Kinds := Language TokenKind

/-! ### The symbols -/

/-- One token of a kind. -/
def token (kind : TokenKind) : Kinds := {[kind]}

/-- One token of one of some kinds. -/
def oneOf (kinds : List TokenKind) : Kinds := {word | ∃ kind ∈ kinds, word = [kind]}

/-- One token of any other kind. -/
def anyBut (kind : TokenKind) : Kinds := {word | ∃ other, other ≠ kind ∧ word = [other]}

/-- Whitespace, possibly none. -/
def blanks : Kinds := (token .whitespace)∗

/-- A parameter in braces, with at least one token between them. -/
def expansion : Kinds :=
  token .startExpansion * (anyBut .rightBrace * (anyBut .rightBrace)∗) * token .rightBrace

section

variable (bodies : Bool → Kinds) (inBackticks : Bool)

/-- A list in parentheses or, outside backticks, in backticks. -/
def substitution : Kinds :=
  token .startSubstitution * bodies inBackticks * token .rightParen +
    if inBackticks then 0 else token .backtick * bodies true * token .backtick

/-- What is the same inside and outside double quotes. -/
def reference : Kinds := token .unbracedParameter + expansion + substitution bodies inBackticks

/-- One part outside double quotes. -/
def bare : Kinds :=
  reference bodies inBackticks + oneOf [.globStar, .globOne, .globCharset] +
    oneOf [.singleQuoted, .assignmentLhs, .raw]

/-- One part inside double quotes. -/
def quoted : Kinds :=
  reference bodies inBackticks +
    oneOf [.singleQuoted, .assignmentLhs, .raw, .globStar, .globOne, .globCharset, .and, .or,
      .background, .whitespace]

/-- A bare part or a quotation. -/
def segment : Kinds :=
  bare bodies inBackticks +
    token .doubleQuote * (quoted bodies inBackticks * (quoted bodies inBackticks)∗) *
      token .doubleQuote

/-- Adjacent segments. -/
def argument : Kinds := segment bodies inBackticks * (segment bodies inBackticks)∗

/-- A name with its equals sign, and the argument that touches it, if there is one. -/
def assignment : Kinds := token .assignmentLhs * (1 + argument bodies inBackticks)

/-- An operator and the argument after it. -/
def redirect : Kinds :=
  oneOf [.readRedirect, .writeRedirect, .appendRedirect] * blanks * argument bodies inBackticks

/-- An argument or a redirection, with the blanks before it. -/
def item : Kinds := blanks * (argument bodies inBackticks + redirect bodies inBackticks)

/-- Assignments and then items, at least one of either, with the blanks around them. -/
def command : Kinds :=
  ((blanks * assignment bodies inBackticks) * (blanks * assignment bodies inBackticks)∗ *
        (item bodies inBackticks)∗ +
      item bodies inBackticks * (item bodies inBackticks)∗) * blanks

/-- Commands with bars between them. -/
def pipeline : Kinds :=
  command bodies inBackticks * (token .pipe * command bodies inBackticks)∗

/-- A pipeline, possibly in the background. -/
def statement : Kinds := pipeline bodies inBackticks * (1 + token .background * blanks)

/-- Statements, possibly empty, with end tokens between them. -/
def list : Kinds :=
  ((blanks + statement bodies inBackticks) * token .statementEnd)∗ *
    (blanks + statement bodies inBackticks)

end

/-- Lists inside which lists are nested less than some number of levels deep. -/
def scripts : Nat → Bool → Kinds
  | 0, _ => 0
  | levels + 1, inBackticks => list (scripts levels) inBackticks

/-- A sequence of token kinds is a list of the grammar. -/
def Derivable (kinds : List TokenKind) : Prop := ∃ levels, kinds ∈ scripts levels false

/-! ### Members -/

@[simp] theorem mem_token {kind : TokenKind} {word : List TokenKind} :
    word ∈ token kind ↔ word = [kind] := Iff.rfl

@[simp] theorem mem_oneOf {kinds word : List TokenKind} :
    word ∈ oneOf kinds ↔ ∃ kind ∈ kinds, word = [kind] := Iff.rfl

@[simp] theorem mem_anyBut {kind : TokenKind} {word : List TokenKind} :
    word ∈ anyBut kind ↔ ∃ other, other ≠ kind ∧ word = [other] := Iff.rfl

section Star

variable {l : Kinds} {word : List TokenKind}

theorem append_mem_kstar {front : List TokenKind} (hfront : front ∈ l) (h : word ∈ l∗) :
    front ++ word ∈ l∗ :=
  (mul_kstar_le_kstar : l * l∗ ≤ l∗) (Language.append_mem_mul hfront h)

/-- A repetition is empty or starts with one time. -/
theorem mem_kstar_iff_cons :
    word ∈ l∗ ↔ word = [] ∨ ∃ front ∈ l, ∃ back ∈ l∗, front ++ back = word := by
  rw [← Language.one_add_self_mul_kstar_eq_kstar, Language.mem_add, Language.mem_one,
    Language.mem_mul, Language.one_add_self_mul_kstar_eq_kstar]

/-- What holds of the empty sequence and is kept by one more time holds of a repetition. -/
theorem kstar_induction {motive : List TokenKind → Prop} (nil : motive [])
    (append : ∀ front back, front ∈ l → back ∈ l∗ → motive back → motive (front ++ back))
    (h : word ∈ l∗) : motive word := by
  obtain ⟨words, rfl, hwords⟩ := h
  induction words with
  | nil => exact nil
  | cons front words ih =>
    obtain ⟨hfront, hwords⟩ := List.forall_mem_cons.1 hwords
    exact append front _ hfront ⟨words, rfl, hwords⟩ (ih hwords)

theorem mem_kstar_of_forall (h : ∀ kind ∈ word, [kind] ∈ l) : word ∈ l∗ := by
  induction word with
  | nil => exact Language.nil_mem_kstar _
  | cons kind word ih =>
    obtain ⟨hkind, hword⟩ := List.forall_mem_cons.1 h
    exact append_mem_kstar hkind (ih hword)

theorem mem_plus_of_forall (hne : word ≠ []) (h : ∀ kind ∈ word, [kind] ∈ l) : word ∈ l * l∗ := by
  obtain ⟨kind, word, rfl⟩ := List.exists_cons_of_ne_nil hne
  obtain ⟨hkind, hword⟩ := List.forall_mem_cons.1 h
  exact Language.append_mem_mul hkind (mem_kstar_of_forall hword)

/-- A repetition that is not empty has a first time. -/
theorem mem_plus_of_mem_kstar (hne : word ≠ []) (h : word ∈ l∗) : word ∈ l * l∗ := by
  rcases mem_kstar_iff_cons.1 h with rfl | ⟨front, hfront, back, hback, rfl⟩
  · exact absurd rfl hne
  · exact Language.append_mem_mul hfront hback

theorem mem_plus_anyBut_iff {kind : TokenKind} :
    word ∈ anyBut kind * (anyBut kind)∗ ↔ word ≠ [] ∧ ∀ other ∈ word, other ≠ kind := by
  constructor
  · intro h
    refine ⟨?_, ?_⟩
    · obtain ⟨_, ⟨other, -, rfl⟩, back, -, rfl⟩ := h
      simp
    · refine kstar_induction (motive := fun word => ∀ other ∈ word, other ≠ kind) (by simp)
        (fun front back hfront _ ih => ?_) ((mul_kstar_le_kstar : anyBut kind * _ ≤ _) h)
      obtain ⟨other, hother, rfl⟩ := hfront
      simpa using ⟨hother, ih⟩
  · exact fun ⟨hne, h⟩ => mem_plus_of_forall hne fun other hmem => ⟨other, h other hmem, rfl⟩

theorem mem_kstar_token_iff {kind : TokenKind} :
    word ∈ (token kind)∗ ↔ ∀ other ∈ word, other = kind := by
  constructor
  · intro h
    refine kstar_induction (motive := fun word => ∀ other ∈ word, other = kind) (by simp)
      (fun front back hfront _ ih => ?_) h
    obtain rfl := mem_token.1 hfront
    simpa using ih
  · exact fun h => mem_kstar_of_forall fun other hmem => by rw [h other hmem]; rfl

theorem mem_blanks_iff : word ∈ blanks ↔ ∀ kind ∈ word, kind = .whitespace :=
  mem_kstar_token_iff

end Star

/-! ### Commands in flat form -/

section Flat

variable {bodies : Bool → Kinds} {inBackticks : Bool}

/-- A blank, a segment, or a redirection to a segment. -/
def flat (bodies : Bool → Kinds) (inBackticks : Bool) : Kinds :=
  token .whitespace + segment bodies inBackticks +
    oneOf [.readRedirect, .writeRedirect, .appendRedirect] * blanks * segment bodies inBackticks

theorem mul_le_kstar {a b l : Kinds} (ha : a ≤ l∗) (hb : b ≤ l∗) : a * b ≤ l∗ :=
  (mul_le_mul' ha hb).trans_eq (kstar_mul_kstar l)

theorem kstar_le_kstar {a l : Kinds} (h : a ≤ l∗) : a∗ ≤ l∗ :=
  (kstar_mono h).trans_eq (kstar_idem l)

theorem whitespace_le_flat : token .whitespace ≤ flat bodies inBackticks :=
  le_add_right le_self_add

theorem segment_le_flat : segment bodies inBackticks ≤ flat bodies inBackticks :=
  le_add_right le_add_self

theorem blanks_le_flat : blanks ≤ (flat bodies inBackticks)∗ := kstar_mono whitespace_le_flat

theorem segments_le_flat : (segment bodies inBackticks)∗ ≤ (flat bodies inBackticks)∗ :=
  kstar_mono segment_le_flat

theorem argument_le_flat : argument bodies inBackticks ≤ (flat bodies inBackticks)∗ :=
  mul_kstar_le_kstar.trans segments_le_flat

theorem redirect_le_flat : redirect bodies inBackticks ≤ (flat bodies inBackticks)∗ := by
  rw [redirect, argument, ← mul_assoc]
  exact mul_le_kstar (le_add_self.trans le_kstar) segments_le_flat

theorem assignmentLhs_le_segment : token .assignmentLhs ≤ segment bodies inBackticks := by
  intro word hword
  exact .inl (.inr ⟨.assignmentLhs, by simp, hword⟩)

theorem assignment_le_flat : assignment bodies inBackticks ≤ (flat bodies inBackticks)∗ :=
  mul_le_kstar ((assignmentLhs_le_segment.trans segment_le_flat).trans le_kstar)
    (add_le one_le_kstar argument_le_flat)

theorem item_le_flat : item bodies inBackticks ≤ (flat bodies inBackticks)∗ :=
  mul_le_kstar blanks_le_flat (add_le argument_le_flat redirect_le_flat)

theorem command_le_flat : command bodies inBackticks ≤ (flat bodies inBackticks)∗ := by
  have hassignment : blanks * assignment bodies inBackticks ≤ (flat bodies inBackticks)∗ :=
    mul_le_kstar blanks_le_flat assignment_le_flat
  exact mul_le_kstar (add_le
    (mul_le_kstar (mul_le_kstar hassignment (kstar_le_kstar hassignment))
      (kstar_le_kstar item_le_flat))
    (mul_le_kstar item_le_flat (kstar_le_kstar item_le_flat))) blanks_le_flat

/-- The sequences with a token that is not whitespace. -/
def inked : Kinds := {word | ∃ kind ∈ word, kind ≠ .whitespace}

theorem mul_le_inked_left {a : Kinds} (b : Kinds) (ha : a ≤ inked) : a * b ≤ inked := by
  rintro _ ⟨front, hfront, back, -, rfl⟩
  obtain ⟨kind, hmem, hkind⟩ := ha hfront
  exact ⟨kind, List.mem_append_left _ hmem, hkind⟩

theorem mul_le_inked_right (a : Kinds) {b : Kinds} (hb : b ≤ inked) : a * b ≤ inked := by
  rintro _ ⟨front, -, back, hback, rfl⟩
  obtain ⟨kind, hmem, hkind⟩ := hb hback
  exact ⟨kind, List.mem_append_right _ hmem, hkind⟩

theorem token_le_inked {kind : TokenKind} (h : kind ≠ .whitespace) : token kind ≤ inked := by
  rintro _ rfl
  exact ⟨kind, by simp, h⟩

theorem oneOf_le_inked {kinds : List TokenKind} (h : .whitespace ∉ kinds) :
    oneOf kinds ≤ inked := by
  rintro _ ⟨kind, hmem, rfl⟩
  exact ⟨kind, by simp, fun hkind => h (hkind ▸ hmem)⟩

theorem segment_le_inked : segment bodies inBackticks ≤ inked := by
  have hsubstitution : substitution bodies inBackticks ≤ inked := by
    refine add_le (mul_le_inked_left _ (mul_le_inked_left _ (token_le_inked (by simp)))) ?_
    cases inBackticks
    · exact mul_le_inked_left _ (mul_le_inked_left _ (token_le_inked (by simp)))
    · exact zero_le
  have hexpansion : expansion ≤ inked :=
    mul_le_inked_left _ (mul_le_inked_left _ (token_le_inked (by simp)))
  exact add_le (add_le (add_le
    (add_le (add_le (token_le_inked (by simp)) hexpansion) hsubstitution)
    (oneOf_le_inked (by simp))) (oneOf_le_inked (by simp)))
    (mul_le_inked_left _ (mul_le_inked_left _ (token_le_inked (by simp))))

theorem item_le_inked : item bodies inBackticks ≤ inked :=
  mul_le_inked_right _ (add_le (mul_le_inked_left _ segment_le_inked)
    (mul_le_inked_left _ (mul_le_inked_left _ (oneOf_le_inked (by simp)))))

theorem command_le_inked : command bodies inBackticks ≤ inked := by
  refine mul_le_inked_left _ (add_le (mul_le_inked_left _ (mul_le_inked_left _ ?_))
    (mul_le_inked_left _ item_le_inked))
  exact mul_le_inked_right _ (mul_le_inked_left _ (token_le_inked (by simp)))

/-- Blanks, segments and redirections are items with blanks around them. -/
theorem flat_le_items :
    (flat bodies inBackticks)∗ ≤ (item bodies inBackticks)∗ * blanks := by
  have hblank : token .whitespace * blanks ≤ blanks := mul_kstar_le_kstar
  have hsegment : segment bodies inBackticks ≤ argument bodies inBackticks :=
    le_mul_of_one_le_right' one_le_kstar
  have hitem {a : Kinds} (ha : a ≤ argument bodies inBackticks + redirect bodies inBackticks) :
      a * ((item bodies inBackticks)∗ * blanks) ≤ (item bodies inBackticks)∗ * blanks := by
    rw [← mul_assoc]
    refine mul_le_mul_left ((mul_le_mul_left (ha.trans ?_) _).trans mul_kstar_le_kstar) _
    exact le_mul_of_one_le_left' one_le_kstar
  refine kstar_le_of_mul_le_right (one_le_mul one_le_kstar one_le_kstar) ?_
  rw [flat, add_mul, add_mul]
  refine add_le (add_le ?_ (hitem (hsegment.trans le_self_add))) (hitem ?_)
  · -- a blank before the first item is one of its blanks
    have hfirst : token .whitespace * item bodies inBackticks ≤ item bodies inBackticks := by
      rw [item, ← mul_assoc]
      exact mul_le_mul_left hblank _
    conv_lhs => rw [← Language.one_add_self_mul_kstar_eq_kstar (item bodies inBackticks)]
    rw [add_mul, one_mul, mul_add, ← mul_assoc, ← mul_assoc]
    refine add_le (hblank.trans (le_mul_of_one_le_left' one_le_kstar)) (mul_le_mul_left ?_ _)
    exact (mul_le_mul_left hfirst _).trans mul_kstar_le_kstar
  · exact (mul_le_mul_right hsegment _).trans le_add_self

/-- A command is a flat sequence that is not only whitespace. -/
theorem mem_command_iff {word : List TokenKind} :
    word ∈ command bodies inBackticks ↔
      word ∈ (flat bodies inBackticks)∗ ∧ ∃ kind ∈ word, kind ≠ .whitespace := by
  refine ⟨fun h => ⟨command_le_flat h, command_le_inked h⟩, ?_⟩
  intro h
  obtain ⟨hword, hinked⟩ := h
  obtain ⟨items, hitems, after, hafter, rfl⟩ := flat_le_items hword
  refine ⟨items, .inr ?_, after, hafter, rfl⟩
  rcases mem_kstar_iff_cons.1 hitems with rfl | ⟨first, hfirst, rest, hrest, rfl⟩
  · obtain ⟨kind, hmem, hkind⟩ := hinked
    exact absurd (mem_blanks_iff.1 hafter kind hmem) hkind
  · exact Language.append_mem_mul hfirst hrest

/-! ### Blanks around commands, pipelines and statements -/

theorem blanks_mul_blanks : blanks * blanks = blanks := kstar_mul_kstar _

theorem blanks_mul_command_le :
    blanks * command bodies inBackticks ≤ command bodies inBackticks := by
  rintro _ ⟨before, hbefore, word, hword, rfl⟩
  obtain ⟨hflat, hinked⟩ := mem_command_iff.1 hword
  exact mem_command_iff.2
    ⟨mul_le_kstar blanks_le_flat le_rfl (Language.append_mem_mul hbefore hflat),
      mul_le_inked_right _ le_rfl (Language.append_mem_mul hbefore hinked)⟩

theorem command_mul_blanks_le :
    command bodies inBackticks * blanks ≤ command bodies inBackticks := by
  rw [command, mul_assoc, blanks_mul_blanks]

theorem blanks_mul_pipeline_le :
    blanks * pipeline bodies inBackticks ≤ pipeline bodies inBackticks := by
  rw [pipeline, ← mul_assoc]
  exact mul_le_mul_left blanks_mul_command_le _

theorem pipeline_mul_blanks_le :
    pipeline bodies inBackticks * blanks ≤ pipeline bodies inBackticks := by
  have hstage : token .pipe * command bodies inBackticks * blanks ≤
      token .pipe * command bodies inBackticks := by
    rw [mul_assoc]
    exact mul_le_mul_right command_mul_blanks_le _
  have hstages : (token .pipe * command bodies inBackticks)∗ * blanks ≤
      blanks + (token .pipe * command bodies inBackticks)∗ := by
    rw [← Language.one_add_kstar_mul_self_eq_kstar, add_mul, one_mul, mul_assoc]
    exact add_le_add le_rfl ((mul_le_mul_right hstage _).trans le_add_self)
  calc pipeline bodies inBackticks * blanks
      ≤ command bodies inBackticks *
          (blanks + (token .pipe * command bodies inBackticks)∗) := by
        rw [pipeline, mul_assoc]
        exact mul_le_mul_right hstages _
    _ ≤ pipeline bodies inBackticks := by
        rw [mul_add]
        refine add_le (command_mul_blanks_le.trans ?_) le_rfl
        exact le_mul_of_one_le_right' one_le_kstar

theorem blanks_mul_statement_le :
    blanks * statement bodies inBackticks ≤ statement bodies inBackticks := by
  rw [statement, ← mul_assoc]
  exact mul_le_mul_left blanks_mul_pipeline_le _

theorem statement_mul_blanks_le :
    statement bodies inBackticks * blanks ≤ statement bodies inBackticks := by
  rw [statement, mul_assoc, add_mul, one_mul, mul_assoc, blanks_mul_blanks, mul_add, mul_add,
    mul_one]
  exact add_le_add pipeline_mul_blanks_le le_rfl

/-- A statement or blanks in its place, with blanks around it. -/
theorem blanks_mul_line_mul_blanks_le :
    blanks * (blanks + statement bodies inBackticks) * blanks ≤
      blanks + statement bodies inBackticks := by
  rw [mul_add, add_mul, blanks_mul_blanks, blanks_mul_blanks]
  exact add_le_add le_rfl
    ((mul_le_mul_left blanks_mul_statement_le _).trans statement_mul_blanks_le)

end Flat

/-! ### How deep lists are nested -/

section Nesting

/-- The number of tokens that may open a substitution. -/
def openers (word : List TokenKind) : Nat :=
  word.countP fun kind => kind = .startSubstitution ∨ kind = .backtick

@[simp] theorem openers_append (front back : List TokenKind) :
    openers (front ++ back) = openers front + openers back := by
  simp [openers]

/-- A language goes over into another one as long as there are only so many openers. -/
def CutTo (n : Nat) (a b : Kinds) : Prop := ∀ ⦃word⦄, word ∈ a → openers word ≤ n → word ∈ b

variable {n : Nat} {a a' b b' : Kinds}

theorem CutTo.refl (n : Nat) (a : Kinds) : CutTo n a a := fun _ hword _ => hword

theorem CutTo.add (ha : CutTo n a a') (hb : CutTo n b b') : CutTo n (a + b) (a' + b') := by
  rintro word (hword | hword) hle
  · exact .inl (ha hword hle)
  · exact .inr (hb hword hle)

theorem CutTo.mul (ha : CutTo n a a') (hb : CutTo n b b') : CutTo n (a * b) (a' * b') := by
  rintro _ ⟨front, hfront, back, hback, rfl⟩ hle
  have : openers front + openers back ≤ n := openers_append front back ▸ hle
  exact Language.append_mem_mul (ha hfront (by omega)) (hb hback (by omega))

theorem CutTo.kstar (ha : CutTo n a a') : CutTo n a∗ a'∗ := by
  intro word hword
  refine kstar_induction (motive := fun word => openers word ≤ n → word ∈ a'∗)
    (fun _ => Language.nil_mem_kstar _) (fun front back hfront _ ih hle => ?_) hword
  rw [openers_append] at hle
  exact append_mem_kstar (ha hfront (by omega)) (ih (by omega))

variable {bodies bodies' : Bool → Kinds} {inBackticks : Bool}

/-- Every symbol goes over when substitutions do. -/
theorem cutTo_list
    (h : ∀ inBackticks,
      CutTo n (substitution bodies inBackticks) (substitution bodies' inBackticks)) :
    CutTo n (list bodies inBackticks) (list bodies' inBackticks) := by
  have hreference : CutTo n (reference bodies inBackticks) (reference bodies' inBackticks) :=
    (CutTo.refl _ _).add (h inBackticks)
  have hquoted : CutTo n (quoted bodies inBackticks) (quoted bodies' inBackticks) :=
    hreference.add (.refl _ _)
  have hsegment : CutTo n (segment bodies inBackticks) (segment bodies' inBackticks) :=
    ((hreference.add (.refl _ _)).add (.refl _ _)).add
      (((CutTo.refl _ _).mul (hquoted.mul hquoted.kstar)).mul (.refl _ _))
  have hargument : CutTo n (argument bodies inBackticks) (argument bodies' inBackticks) :=
    hsegment.mul hsegment.kstar
  have hassignment : CutTo n (blanks * assignment bodies inBackticks)
      (blanks * assignment bodies' inBackticks) :=
    (CutTo.refl _ _).mul ((CutTo.refl _ _).mul ((CutTo.refl _ _).add hargument))
  have hitem : CutTo n (item bodies inBackticks) (item bodies' inBackticks) :=
    (CutTo.refl _ _).mul (hargument.add ((CutTo.refl _ _).mul hargument))
  have hcommand : CutTo n (command bodies inBackticks) (command bodies' inBackticks) :=
    (((hassignment.mul hassignment.kstar).mul hitem.kstar).add (hitem.mul hitem.kstar)).mul
      (.refl _ _)
  have hpipeline : CutTo n (pipeline bodies inBackticks) (pipeline bodies' inBackticks) :=
    hcommand.mul ((CutTo.refl _ _).mul hcommand).kstar
  have hstatement : CutTo n (blanks + statement bodies inBackticks)
      (blanks + statement bodies' inBackticks) :=
    (CutTo.refl _ _).add (hpipeline.mul (.refl _ _))
  exact (hstatement.mul (.refl _ _)).kstar.mul hstatement

/-- Between its opener and its closer a substitution has fewer openers. -/
theorem cutTo_substitution (h : ∀ inBackticks, CutTo n (bodies inBackticks) (bodies' inBackticks))
    (inBackticks : Bool) :
    CutTo (n + 1) (substitution bodies inBackticks) (substitution bodies' inBackticks) := by
  have hbetween {opener : TokenKind} (closer : TokenKind) (inBackticks : Bool)
      (hopener : openers [opener] = 1) :
      CutTo (n + 1) (token opener * bodies inBackticks * token closer)
        (token opener * bodies' inBackticks * token closer) := by
    rintro _ ⟨_, ⟨_, rfl, body, hbody, rfl⟩, _, rfl, rfl⟩ hle
    simp only [openers_append, hopener] at hle
    exact ⟨_, ⟨_, rfl, body, h inBackticks hbody (by omega), rfl⟩, _, rfl, rfl⟩
  refine (hbetween _ _ rfl).add ?_
  cases inBackticks
  · exact hbetween _ _ rfl
  · exact .refl _ _

theorem cutTo_substitution_zero (inBackticks : Bool) :
    CutTo 0 (substitution bodies inBackticks) (substitution bodies' inBackticks) := by
  have hbetween {opener closer : TokenKind} (inBackticks : Bool) (hopener : openers [opener] = 1) :
      CutTo 0 (token opener * bodies inBackticks * token closer)
        (token opener * bodies' inBackticks * token closer) := by
    rintro _ ⟨_, ⟨_, rfl, body, hbody, rfl⟩, _, rfl, rfl⟩ hle
    simp only [openers_append, hopener] at hle
    omega
  refine (hbetween _ rfl).add ?_
  cases inBackticks
  · exact hbetween _ rfl
  · exact .refl _ _

/-- A list is nested no deeper than it has openers. -/
theorem mem_scripts_of_openers_le {levels : Nat} {word : List TokenKind}
    (h : word ∈ scripts levels inBackticks) (hle : openers word ≤ n) :
    word ∈ scripts (n + 1) inBackticks := by
  induction levels generalizing n word inBackticks with
  | zero => exact absurd h (Language.notMem_zero word)
  | succ levels ih =>
    refine cutTo_list (fun inBackticks => ?_) h hle
    cases n with
    | zero => exact cutTo_substitution_zero inBackticks
    | succ n => exact cutTo_substitution (fun _ _ hbody hle => ih hbody hle) inBackticks

end Nesting

end CommandSyntax.Grammar
