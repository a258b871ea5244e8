import CommandSyntax.Proofs.Grammar.Framing
import CommandSyntax.Proofs.Script.Mentions

/-!
# CommandSyntax.Proofs.Grammar.WordMentioning

**Words are told by what they pass.** Between two cursors a production passes lexemes that mention
the nodes it gives (`Cursor.Tells`): a parameter is told by its own lexemes, a substitution by
those of its script, and a word by its parts (`tells_of_word?`). Quotes, text, blanks and operators
tell of nothing.

Which redirections stand in a command shows in the lexemes of the whole input, so a cursor is held
against these (`Cursor.Among`).
-/

namespace CommandSyntax

open Production

namespace Cursor

variable {c c' d : Cursor} {all lexemes : List Lexeme} {nodes nodes' : List Node} {node : Node}

/-- From a marked cursor only some lexemes can be passed, in their order. -/
structure Among (c : Cursor) (all : List Lexeme) : Prop where
  /-- The cursor is marked. -/
  marked : c.Marked
  /-- What can be passed. -/
  sublist : ∀ {lexemes : List Lexeme} {c' : Cursor}, c.Passes lexemes c' → lexemes.Sublist all

theorem Among.reaches (hc : c.Among all) (h : c.Reaches c') : c'.Among all where
  marked := hc.marked.reaches h
  sublist hpasses := by
    obtain ⟨front, hfront⟩ := h
    exact (List.sublist_append_right ..).trans (hc.sublist (hfront.trans hpasses))

theorem Among.placed (hc : c.Among all) : c.Placed := hc.marked.placed

/-- What is passed between two cursors mentions some nodes. -/
def Tells (c : Cursor) (all : List Lexeme) (nodes : List Node) (c' : Cursor) : Prop :=
  ∃ lexemes, c.Passes lexemes c' ∧ Mentions all lexemes nodes

namespace Tells

theorem of_isMute (hpasses : c.Passes lexemes c')
    (h : ∀ lexeme ∈ lexemes, Lexeme.IsMute lexeme.kind) : c.Tells all [] c' :=
  ⟨lexemes, hpasses, .of_isMute h⟩

theorem nil (c : Cursor) : c.Tells all [] c := .of_isMute (.nil c) (by simp)

theorem of_step (h : Lexeme.IsMute c.current.kind) (hpasses : c.Passes [c.current] c') :
    c.Tells all [] c' :=
  .of_isMute hpasses (by simpa using h)

theorem of_skips (h : c.Skips c') : c.Tells all [] c' := by
  obtain ⟨blanks, hblanks, hblank, -⟩ := h
  exact .of_isMute hblanks fun lexeme hmem => by simp [hblank lexeme hmem, Lexeme.IsMute]

theorem reaches (h : c.Tells all nodes c') : c.Reaches c' := by
  obtain ⟨lexemes, hpasses, -⟩ := h
  exact hpasses.reaches

theorem trans (h : c.Tells all nodes d) (h' : d.Tells all nodes' c') :
    c.Tells all (nodes ++ nodes') c' := by
  obtain ⟨lexemes, hpasses, hmentions⟩ := h
  obtain ⟨lexemes', hpasses', hmentions'⟩ := h'
  exact ⟨lexemes ++ lexemes', hpasses.trans hpasses', hmentions.append hmentions'⟩

theorem before (h : c.Tells all [] d) (h' : d.Tells all nodes c') : c.Tells all nodes c' :=
  h.trans h'

theorem after (h : c.Tells all nodes d) (h' : d.Tells all [] c') : c.Tells all nodes c' := by
  simpa using h.trans h'

/-- Whitespace around changes nothing. -/
theorem between {d' : Cursor} (hskip : c.Skips d) (h : d.Tells all nodes d')
    (hskip' : d'.Skips c') : c.Tells all nodes c' :=
  (of_skips hskip).before (h.after (of_skips hskip'))

theorem parent (h : c.Tells all node.childrenInSource c') (hparameter : node.parameter? = none) :
    c.Tells all [node] c' := by
  obtain ⟨lexemes, hpasses, hmentions⟩ := h
  exact ⟨lexemes, hpasses, hmentions.of_childrenInSource hparameter⟩

end Tells

end Cursor

namespace Production

open Cursor

variable {c c' : Cursor} {context : Context} {all : List Lexeme} {quoted : Bool}

/-- What is gathered is told when every round tells of what it adds. -/
theorem Gathers.tells {α : Type} {more last : Cursor → List α → Cursor → Prop} (node : α → Node)
    (hmore : ∀ {c c' : Cursor} {items : List α}, c.Among all → more c items c' →
      c.Tells all (items.map node) c')
    (hlast : ∀ {c c' : Cursor} {items : List α}, c.Among all → last c items c' →
      c.Tells all (items.map node) c') (hc : c.Among all) {items : List α}
    (h : Gathers more last c items c') : c.Tells all (items.map node) c' := by
  induction h with
  | done h => exact hlast hc h
  | yield h _ ih =>
    have hfirst := hmore hc h
    rw [List.map_append]
    exact hfirst.trans (ih (hc.reaches hfirst.reaches))

/-- The scripts of a context are told by what they pass. -/
def TellsBodies (context : Context) (all : List Lexeme) : Prop :=
  ∀ script, context.script? = some script → ∀ inBackticks c body c', c.Among all →
    script inBackticks c = .ok body c' → c.Tells all [.script body] c'

/-! ### Parts -/

theorem isMute_of_isText {kind : TokenKind} (h : isText quoted kind = true) :
    Lexeme.IsMute kind := by
  cases kind <;> simp_all [isText, Lexeme.IsMute]

theorem tells_of_glob (pattern : Glob) (hkind : Lexeme.IsMute c.current.kind)
    (hpasses : c.Passes [c.current] c') : c.Tells all [.part (.glob pattern)] c' := by
  have hglob : c.Tells all [.glob pattern] c' := .parent (.of_step hkind hpasses) rfl
  exact .parent hglob rfl

theorem tells_of_text? (hc : c.Placed) {part : Part} (h : text? quoted c = .ok (some part) c') :
    c.Tells all [.part part] c' := by
  obtain ⟨lexemes, hpasses, htext, -, hpart⟩ := (text?_eq_ok_iff hc).1 h
  have htold : c.Tells all [] c' :=
    .of_isMute hpasses fun lexeme hmem => isMute_of_isText (htext lexeme hmem)
  unfold Part.literal? at hpart
  split at hpart
  · simp at hpart
  · obtain rfl := Option.some.inj hpart
    exact .parent htold rfl

/-- At the end of a word only quotes and text are passed. -/
theorem tells_of_endsWord {inBackticks : Bool} (h : EndsWord inBackticks quoted c c') :
    c.Tells all [] c' := by
  obtain ⟨quotes, blanks, hpasses, hquotes, -, hblank, -⟩ := h.passes
  refine .of_isMute hpasses fun lexeme hmem => ?_
  rcases List.mem_append.1 hmem with hmem | hmem
  · simp [hquotes lexeme hmem, Lexeme.IsMute]
  · exact isMute_of_isText (hblank lexeme hmem).1

section

variable (hbodies : TellsBodies context all) (hc : c.Among all)
include hbodies hc

theorem tells_of_substitution {opening closing : TokenKind} (hopening : opening ≠ .stop)
    (hclosing : closing ≠ .stop) (hopener : Lexeme.IsMute opening)
    (hcloser : Lexeme.IsMute closing) {inBackticks : Bool} {part : Part}
    (h : substitution context opening closing inBackticks c = .ok part c') :
    c.Tells all [.part part] c' := by
  obtain ⟨script, c₁, body, c₂, hscript, hkind, hopens, hbody, hkind', hcloses, rfl⟩ :=
    (substitution_eq_ok_iff hopening hclosing).1 h
  have hinner := hbodies script hscript inBackticks c₁ body c₂ (hc.reaches hopens.reaches) hbody
  have hall : c.Tells all [.script body] c' :=
    (Tells.of_step (hkind ▸ hopener) hopens).before
      (hinner.after (.of_step (hkind' ▸ hcloser) hcloses))
  have hsubstitution : c.Tells all [.substitution body] c' := .parent hall rfl
  exact .parent hsubstitution rfl

/-- A part is told by what it passes. -/
theorem tells_of_part? {part : Part} (h : part? context quoted c = .ok (some part) c') :
    c.Tells all [.part part] c' := by
  cases (part?_eq_ok_iff hc.placed).1 h with
  | parameter hkind hpasses =>
    exact ⟨_, hpasses, .parameter (Lexeme.name_of_unbracedParameter hkind)⟩
  | braced _ h =>
    obtain ⟨opener, body, closer, hpasses, hopener, -, hbody, hcloser, rfl⟩ :=
      (bracedParameter_eq_ok_iff hc.placed).1 h
    exact ⟨_, hpasses, .parameter (Lexeme.name_of_braces hopener hbody hcloser)⟩
  | backticks _ _ h | parentheses _ h =>
    exact tells_of_substitution hbodies hc (by simp) (by simp) (by simp [Lexeme.IsMute])
      (by simp [Lexeme.IsMute]) h
  | star _ hkind hpasses | one _ hkind hpasses | charset _ hkind hpasses =>
    exact tells_of_glob _ (by simp [hkind, Lexeme.IsMute]) hpasses
  | text _ h => exact tells_of_text? hc.placed h

/-! ### Words -/

theorem PartsFrom.tells {parts : List Part} (h : PartsFrom context quoted c parts c') :
    c.Tells all (parts.map .part) c' := by
  induction h with
  | done hends => exact tells_of_endsWord hends
  | part htoggle hpart _ ih =>
    obtain ⟨quotes, hpasses, hquotes, -⟩ := (toggleQuotes_eq_ok_iff hc.placed).1 htoggle
    have hquoted : Tells _ all [] _ := .of_isMute hpasses fun lexeme hmem => by
      simp [hquotes lexeme hmem, Lexeme.IsMute]
    have hc₁ := hc.reaches hpasses.reaches
    have hfirst := tells_of_part? hbodies hc₁ hpart
    exact hquoted.before (hfirst.trans (ih (hc₁.reaches hfirst.reaches)))

theorem tells_of_word? (hcontext : ContextOrderly context) {word : Word}
    (h : word? context c = .ok (some word) c') : c.Tells all [.word word] c' :=
  .parent (((word?_eq_some_iff hcontext hc.placed).1 h).1.tells hbodies hc) rfl

theorem tells_of_words (hcontext : ContextOrderly context) {run : List Word}
    (h : words context c = .ok run c') : c.Tells all (run.map .word) c' := by
  refine Gathers.tells _ (fun hc hmore => ?_) (fun hc hlast => ?_) hc
    ((words_eq_ok_iff hcontext hc.placed).1 h)
  · obtain ⟨word, c₁, rfl, hword, -, hskip⟩ := hmore
    exact (tells_of_word? hbodies hc hcontext hword).after (.of_skips hskip)
  · rcases hlast with ⟨rfl, hword⟩ | ⟨word, rfl, hword, -⟩
    · exact tells_of_endsWord ((word?_eq_none_iff hcontext hc.placed).1 hword)
    · exact tells_of_word? hbodies hc hcontext hword

/-! ### Assignments -/

theorem tells_of_assignment (hcontext : ContextOrderly context) {result : Assignment}
    (h : assignment context c = .ok result c') : c.Tells all [.assignment result] c' := by
  obtain ⟨c₁, value, hkind, hname, hvalue, rfl⟩ := (assignment_eq_ok_iff hc.placed).1 h
  have hc₁ := hc.reaches hname.reaches
  have htold : c₁.Tells all (value.toList.map .word) c' := by
    cases value with
    | none => exact tells_of_endsWord ((word?_eq_none_iff hcontext hc₁.placed).1 hvalue)
    | some word => exact tells_of_word? hbodies hc₁ hcontext hvalue
  have hall : c.Tells all (value.toList.map .word) c' :=
    (Tells.of_step (by simp [hkind, Lexeme.IsMute]) hname).before htold
  exact .parent hall rfl

theorem tells_of_assignments (hcontext : ContextOrderly context) {assigned : List Assignment}
    (h : Gathers (MoreAssignments context) LastAssignments c assigned c') :
    c.Tells all (assigned.map .assignment) c' := by
  refine Gathers.tells _ (fun hc hmore => ?_) (fun hc hlast => ?_) hc h
  · obtain ⟨result, c₁, rfl, hskip, hresult⟩ := hmore
    exact (Tells.of_skips hskip).before
      (tells_of_assignment hbodies (hc.reaches hskip.reaches) hcontext hresult)
  · obtain ⟨rfl, hskip, -⟩ := hlast
    exact .of_skips hskip

end

end Production

end CommandSyntax
