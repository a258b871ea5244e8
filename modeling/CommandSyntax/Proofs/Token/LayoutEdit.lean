import CommandSyntax.Proofs.Token.Recutting
import CommandSyntax.Proofs.Token.Respacing

/-!
# CommandSyntax.Proofs.Token.LayoutEdit

**Edits of the layout of an input.** There are three (`LayoutEdit`): whitespace is replaced, it is
put at a border of the input or next to a separator, and a semicolon and a newline take each other's
place at the end of a statement. None of them is made in double quotes or between the braces of a
parameter.

An edit leaves the other lexemes as they are and adds at most one of whitespace, so the streams of
both inputs are `Respaced` (`LayoutEdit.respaced`). The lexemes behind the edit are cut off as
before. Those in front of it are cut off in front of another rest, one that begins with a blank or
with the end of a statement (`Lexeme.AllCut.of_startsAlike`). Where whitespace is put next to
whitespace the two become one lexeme, so that one is replaced instead.
-/

namespace CommandSyntax

variable {last : List Frame → Prop} {place : Place} {p q : Nat} {kind : TokenKind}
  {lexeme old : Lexeme} {front back lexemes : List Lexeme} {chars new text rest rest' : List Char}
  {stream : TokenStream} {input input' : String}

/-! ### Lexemes in front of a rest -/

namespace Lexeme

/-- Each of the lexemes is cut off in front of those behind it and the rest. -/
def AllCut : List Lexeme → List Char → Prop
  | [], _ => True
  | lexeme :: lexemes, rest =>
    Cuts lexeme.kind lexeme.text (lexemes.flatMap Lexeme.text ++ rest) ∧ AllCut lexemes rest

theorem allCut_append_iff :
    AllCut (front ++ back) rest ↔
      AllCut front (back.flatMap Lexeme.text ++ rest) ∧ AllCut back rest := by
  induction front with
  | nil => simp [AllCut]
  | cons lexeme front ih => simp [AllCut, ih, and_assoc]

theorem allCut_of_ofText (h : TokenStream.ofText p text = .prepend lexemes stream) :
    ∃ rest q, text = lexemes.flatMap Lexeme.text ++ rest ∧ stream = .ofText q rest ∧
      AllCut lexemes rest := by
  induction lexemes generalizing p text with
  | nil => exact ⟨text, p, rfl, h.symm, trivial⟩
  | cons lexeme lexemes ih =>
    obtain ⟨htext, hread, hnext⟩ := TokenStream.read_of_ofText_eq_next h
    obtain ⟨rest, q, hrest, hstream, hcut⟩ := ih hnext.symm
    refine ⟨rest, q, ?_, hstream, hrest ▸ cuts_of_read htext hread, hcut⟩
    rw [← text_append_drop_of_read hread, hrest, List.flatMap_cons, List.append_assoc]

/-- Texts that go on behind the same lexemes begin alike. -/
theorem AllCut.startsAlike (h : AllCut lexemes rest) (hne : lexemes ≠ []) (rest' : List Char) :
    StartsAlike (lexemes.flatMap Lexeme.text ++ rest) (lexemes.flatMap Lexeme.text ++ rest') := by
  obtain ⟨lexeme, lexemes, rfl⟩ := List.exists_cons_of_ne_nil hne
  obtain ⟨c, text, htext⟩ := List.exists_cons_of_ne_nil h.1.1
  exact fun d hd => .inl (by simpa [htext] using hd)

/-- Lexemes are cut off in front of any rest that begins like the one they are cut off from. -/
theorem AllCut.of_startsAlike (h : AllCut lexemes rest) (halike : StartsAlike rest rest')
    (hlast : rest ≠ [] ∨ (lexemes.flatMap Lexeme.text).getLast? ≠ some '\\')
    (hblank : Rule.blankRun rest' = 0 ∨
      ∀ lexeme, lexemes.getLast? = some lexeme → lexeme.kind ≠ .whitespace) :
    AllCut lexemes rest' := by
  induction lexemes with
  | nil => trivial
  | cons lexeme lexemes ih =>
    obtain ⟨hcut, hcuts⟩ := h
    cases lexemes with
    | nil =>
      refine ⟨hcut.of_startsAlike halike (by simpa using hlast) fun hkind => ?_, trivial⟩
      rcases hblank with hblank | hkinds
      · exact hblank
      · exact absurd hkind (hkinds lexeme rfl)
    | cons second lexemes =>
      have hsecond : (second :: lexemes).flatMap Lexeme.text ≠ [] := by simp [hcuts.1.1]
      have hlast' : rest ≠ [] ∨
          ((second :: lexemes).flatMap Lexeme.text).getLast? ≠ some '\\' := by
        rwa [List.flatMap_cons, List.getLast?_append_of_ne_nil _ hsecond] at hlast
      have hcuts' := ih hcuts hlast' (by simpa [List.getLast?_cons_cons] using hblank)
      refine ⟨hcut.of_startsAlike (hcuts.startsAlike (by simp) rest') ?_ fun hkind => ?_, hcuts'⟩
      · exact .inl (List.append_ne_nil_of_left_ne_nil hsecond rest)
      · -- the lexeme behind whitespace is none, in front of either rest
        have hblank := (hkind ▸ hcut).spacing.2
        rw [List.flatMap_cons, List.append_assoc] at hblank ⊢
        exact hcuts'.1.heads.blankRun_eq_zero (hcuts.1.kind_ne_whitespace hblank)

theorem AllCut.spacing (h : AllCut (front ++ old :: back) rest)
    (hold : old.kind = .whitespace) : Spacing old.text :=
  (hold ▸ (allCut_append_iff.1 h).2.1).spacing.1

/-- In front of whitespace there is no other. -/
theorem AllCut.kind_ne_whitespace (h : AllCut (front ++ old :: back) rest)
    (hold : old.kind = .whitespace) :
    ∀ lexeme, front.getLast? = some lexeme → lexeme.kind ≠ .whitespace := by
  intro lexeme hlast hkind
  obtain ⟨front, rfl⟩ := List.getLast?_eq_some_iff.1 hlast
  obtain ⟨hfront, hcutOld, -⟩ := allCut_append_iff.1 h
  obtain ⟨-, hcutLast, -⟩ := allCut_append_iff.1 hfront
  rw [hkind] at hcutLast
  have hblank := hcutLast.spacing.2
  exact hcutOld.kind_ne_whitespace (by simpa using hblank) hold

end Lexeme

/-! ### Places between lexemes -/

namespace Place

/-- The place behind some lexemes. -/
def passAll (place : Place) (lexemes : List Lexeme) : Place :=
  lexemes.foldl (fun place lexeme => place.pass lexeme.kind) place

/-- The place behind the first lexemes of an input. -/
def behind (lexemes : List Lexeme) : Place := start.passAll lexemes

/-- Whitespace opens and closes nothing. -/
theorem frames_behind_concat (hkind : lexeme.kind = .whitespace) :
    (behind (front ++ [lexeme])).frames = (behind front).frames := by
  have hpass := Frame.pass_of_notMem (by decide : .whitespace ∉ Frame.brackets)
  simp [behind, passAll, pass, hkind, hpass]

/-- At the borders of an input and next to separators there may be blanks. -/
theorem border_of_mem (h : front = [] ∨ back = [] ∨
      (∃ lexeme ∈ front.getLast?, lexeme.kind ∈ separators) ∨
      ∃ lexeme ∈ back.head?, lexeme.kind ∈ separators) :
    (behind front).loose = true ∨ isBorder ((back.map Lexeme.kind).headD .stop) = true := by
  rcases h with rfl | rfl | ⟨lexeme, hlast, hkind⟩ | ⟨lexeme, hhead, hkind⟩
  · exact .inl rfl
  · exact .inr rfl
  · obtain ⟨front, rfl⟩ := List.getLast?_eq_some_iff.1 hlast
    exact .inl (by simp [behind, passAll, pass, hkind])
  · obtain ⟨back, rfl⟩ := List.head?_eq_some_iff.1 hhead
    exact .inr (by simp [isBorder, hkind])

end Place

/-! ### Edits -/

/-- The lexemes of an input, up to its end. -/
def ReadsAs (input : String) (lexemes : List Lexeme) : Prop :=
  ∃ position, TokenStream.ofString input = .prepend lexemes (.finished position)

theorem ReadsAs.cut (h : ReadsAs input lexemes) :
    input.toList = lexemes.flatMap Lexeme.text ∧ Lexeme.AllCut lexemes [] := by
  obtain ⟨position, hstream⟩ := h
  obtain ⟨rest, q, hinput, hrest, hcut⟩ := Lexeme.allCut_of_ofText hstream
  have hnil : rest = [] := by
    by_contra hne
    cases hread : Lexeme.read q rest with
    | ok lexeme => simp [TokenStream.ofText_of_read_eq_ok hne hread] at hrest
    | error error => simp [TokenStream.ofText_of_read_eq_error hne hread] at hrest
  subst hnil
  exact ⟨by simpa using hinput, hcut⟩

/-- A text of blanks and escaped newlines that begins with a blank. -/
structure LayoutText (text : List Char) : Prop where
  /-- It is made of blanks and escaped newlines. -/
  spacing : Spacing text
  /-- It begins with a blank. -/
  exists_blank : ∃ c, text.head? = some c ∧ isBlank c = true

theorem LayoutText.ne_nil (h : LayoutText new) : new ≠ [] := by
  rintro rfl
  obtain ⟨c, hhead, -⟩ := h.exists_blank
  simp at hhead

/-- A text of the layout begins like anything. -/
theorem LayoutText.startsAlike (h : LayoutText new) (rest more : List Char) :
    StartsAlike rest (new ++ more) := by
  intro d hd
  obtain ⟨c, hhead, hblank⟩ := h.exists_blank
  obtain rfl : c = d := by
    rw [List.head?_append, hhead] at hd
    simpa using hd
  simp only [isBlank, Bool.or_eq_true, beq_iff_eq] at hblank
  refine .inr ?_
  simp only [layoutChars, List.mem_cons]
  tauto

/-- The input that is written with a text between lexemes. -/
def rewritten (front : List Lexeme) (new : List Char) (back : List Lexeme) : String :=
  String.ofList (front.flatMap Lexeme.text ++ (new ++ back.flatMap Lexeme.text))

theorem ofString_rewritten (front : List Lexeme) (new : List Char) (back : List Lexeme) :
    TokenStream.ofString (rewritten front new back) =
      .ofText 0 (front.flatMap Lexeme.text ++ (new ++ back.flatMap Lexeme.text)) := by
  rw [TokenStream.ofString, rewritten, String.toList_ofList]

/-- One edit of the layout of an input. Its place is open: what is opened last before it and not
closed is neither a double quote nor the brace of a parameter. -/
inductive LayoutEdit : String → String → Prop
  /-- Whitespace is replaced. -/
  | replace {input : String} {front back : List Lexeme} {old : Lexeme} {new : List Char}
      (hinput : ReadsAs input (front ++ old :: back)) (hold : old.kind = .whitespace)
      (hopen : Frame.isOpen (Place.behind front).frames = true) (hnew : LayoutText new) :
      LayoutEdit input (rewritten front new back)
  /-- Whitespace is put at the start, at the end, or next to a separator. -/
  | insert {input : String} {front back : List Lexeme} {new : List Char}
      (hinput : ReadsAs input (front ++ back))
      (hborder : front = [] ∨ back = [] ∨ (∃ lexeme ∈ front.getLast?, lexeme.kind ∈ separators) ∨
        ∃ lexeme ∈ back.head?, lexeme.kind ∈ separators)
      (hopen : back ≠ [] → Frame.isOpen (Place.behind front).frames = true)
      (hnew : LayoutText new) : LayoutEdit input (rewritten front new back)
  /-- A statement ends with a semicolon or with a newline. -/
  | exchange {input : String} {front back : List Lexeme} {old : Lexeme} {c : Char}
      (hinput : ReadsAs input (front ++ old :: back)) (hold : old.kind = .statementEnd)
      (hopen : Frame.isOpen (Place.behind front).frames = true) (hc : c = ';' ∨ c = '\n') :
      LayoutEdit input (rewritten front [c] back)

/-! ### Streams of edited inputs -/

namespace TokenStream.Respaced

open Lexeme

/-- Behind the same lexemes the streams differ where what is left of them does. -/
theorem append (h : AllCut lexemes rest) (h' : AllCut lexemes rest')
    (hrest : ∀ p q, Respaced last (place.passAll lexemes) (ofText p rest) (ofText q rest'))
    (p q : Nat) : Respaced last place (ofText p (lexemes.flatMap Lexeme.text ++ rest))
      (ofText q (lexemes.flatMap Lexeme.text ++ rest')) := by
  induction lexemes generalizing place p q with
  | nil => exact hrest p q
  | cons lexeme lexemes ih =>
    rw [List.flatMap_cons, List.append_assoc, List.append_assoc, h.1.ofText_eq, h'.1.ofText_eq]
    exact next_alike ⟨rfl, fun _ => rfl⟩ (ih h.2 h'.2 hrest _ _)

/-- The same lexemes have the same layout. -/
theorem refl (h : AllCut lexemes []) (hlast : last (place.passAll lexemes).frames) (p q : Nat) :
    Respaced last place (ofText p (lexemes.flatMap Lexeme.text))
      (ofText q (lexemes.flatMap Lexeme.text)) := by
  have hend (p q : Nat) : Respaced last (place.passAll lexemes) (ofText p []) (ofText q []) := by
    rw [ofText_nil, ofText_nil]
    exact finished_alike hlast p q
  simpa using append h h hend p q

/-- A lexeme of the layout that is written in another way. -/
theorem exchange (h : Cuts kind chars (back.flatMap Lexeme.text))
    (h' : Cuts kind new (back.flatMap Lexeme.text))
    (hback : AllCut back []) (hkind : kind ∈ [.whitespace, .statementEnd])
    (hopen : Frame.isOpen place.frames = true)
    (hlast : last ((place.pass kind).passAll back).frames) (p q : Nat) :
    Respaced last place (ofText p (chars ++ back.flatMap Lexeme.text))
      (ofText q (new ++ back.flatMap Lexeme.text)) := by
  rw [h.ofText_eq, h'.ofText_eq]
  exact next_alike ⟨rfl, fun hnot => absurd hkind (hnot hopen)⟩ (refl hback hlast _ _)

/-- Whitespace that is put somewhere. -/
theorem insert (h : Cuts .whitespace new (back.flatMap Lexeme.text)) (hback : AllCut back [])
    (hopen : Frame.isOpen place.frames = true)
    (hborder : place.loose = true ∨ isBorder ((back.map Lexeme.kind).headD .stop) = true)
    (hlast : last (place.passAll back).frames) (p q : Nat) :
    Respaced last place (ofText p (back.flatMap Lexeme.text))
      (ofText q (new ++ back.flatMap Lexeme.text)) := by
  rw [h.ofText_eq]
  have hblank := h.spacing.2
  cases back with
  | nil =>
    rw [List.flatMap_nil, ofText_nil, ofText_nil]
    exact @finished last place p _ [⟨.whitespace, q, new⟩] hlast
      (.inr ⟨hopen, by simp, by simp, hborder⟩)
  | cons lexeme back =>
    obtain ⟨hcut, hcuts⟩ := hback
    rw [List.append_nil] at hcut
    rw [List.flatMap_cons] at hblank ⊢
    rw [hcut.ofText_eq, hcut.ofText_eq]
    exact @next last place _ _ _ _ [⟨.whitespace, q, new⟩]
      (.inr ⟨hopen, by simp, hcut.kind_ne_whitespace hblank, hborder⟩) ⟨rfl, fun _ => rfl⟩
      (refl hcuts hlast _ _)

/-- A lexeme of the layout may be written in another way that is read as the same kind. -/
theorem around_exchange (hcut : AllCut (front ++ old :: back) [])
    (hkind : old.kind ∈ [.whitespace, .statementEnd])
    (hopen : Frame.isOpen (Place.behind front).frames = true)
    (hnew : Cuts old.kind new (back.flatMap Lexeme.text)) (halike : StartsAlike old.text new)
    (hblank : Rule.blankRun (new ++ back.flatMap Lexeme.text) = 0 ∨
      ∀ lexeme, front.getLast? = some lexeme → lexeme.kind ≠ .whitespace) (p q : Nat) :
    Respaced (fun _ => True) .start (.ofText p ((front ++ old :: back).flatMap Lexeme.text))
      (.ofText q (front.flatMap Lexeme.text ++ (new ++ back.flatMap Lexeme.text))) := by
  obtain ⟨hfront, hcutOld, hback⟩ := allCut_append_iff.1 hcut
  simp only [List.flatMap_cons, List.append_nil] at hfront hcutOld
  have hfront' : AllCut front (new ++ back.flatMap Lexeme.text) :=
    hfront.of_startsAlike (halike.append hcutOld.1 hnew.1 _)
      (.inl (List.append_ne_nil_of_left_ne_nil hcutOld.1 _)) hblank
  rw [List.flatMap_append, List.flatMap_cons]
  exact append hfront hfront' (exchange hcutOld hnew hback hkind hopen trivial) p q

/-- Whitespace may be replaced by other spacing that begins like it or with a blank. -/
theorem around_replace (hcut : AllCut (front ++ old :: back) [])
    (hold : old.kind = .whitespace)
    (hopen : Frame.isOpen (Place.behind front).frames = true) (hnew : Spacing new)
    (hne : new ≠ []) (halike : StartsAlike old.text new) (p q : Nat) :
    Respaced (fun _ => True) .start (.ofText p ((front ++ old :: back).flatMap Lexeme.text))
      (.ofText q (front.flatMap Lexeme.text ++ (new ++ back.flatMap Lexeme.text))) := by
  have hcutOld := (allCut_append_iff.1 hcut).2.1
  rw [hold, List.append_nil] at hcutOld
  exact around_exchange hcut (by simp [hold]) hopen
    (hold ▸ cuts_spacing hnew hne hcutOld.spacing.2) halike
    (.inr (hcut.kind_ne_whitespace hold)) p q

/-- Whitespace may be put next to what is no whitespace. -/
theorem around_insert (hcut : AllCut (front ++ back) [])
    (hopen : Frame.isOpen (Place.behind front).frames = true)
    (hborder : (Place.behind front).loose = true ∨
      isBorder ((back.map Lexeme.kind).headD .stop) = true) (hnew : LayoutText new)
    (hlast : back ≠ [] ∨ (front.flatMap Lexeme.text).getLast? ≠ some '\\')
    (hfront : ∀ lexeme, front.getLast? = some lexeme → lexeme.kind ≠ .whitespace)
    (hback : ∀ lexeme, back.head? = some lexeme → lexeme.kind ≠ .whitespace) (p q : Nat) :
    Respaced (fun _ => True) .start (.ofText p ((front ++ back).flatMap Lexeme.text))
      (.ofText q (front.flatMap Lexeme.text ++ (new ++ back.flatMap Lexeme.text))) := by
  obtain ⟨hfrontCut, hbackCut⟩ := allCut_append_iff.1 hcut
  rw [List.append_nil] at hfrontCut
  have hblank : Rule.blankRun (back.flatMap Lexeme.text) = 0 := by
    cases back with
    | nil => rfl
    | cons lexeme back =>
      have := hbackCut.1.heads.blankRun_eq_zero (hback lexeme rfl)
      simpa using this
  have hfront' : AllCut front (new ++ back.flatMap Lexeme.text) := by
    refine hfrontCut.of_startsAlike (hnew.startsAlike _ _) (hlast.imp_left fun hne => ?_)
      (.inr hfront)
    obtain ⟨lexeme, back, rfl⟩ := List.exists_cons_of_ne_nil hne
    exact List.append_ne_nil_of_left_ne_nil hbackCut.1.1 _
  rw [List.flatMap_append]
  exact append hfrontCut hfront'
    (insert (cuts_spacing hnew.spacing hnew.ne_nil hblank) hbackCut hopen hborder trivial) p q

end TokenStream.Respaced

/-! ### What an edit changes -/

namespace LayoutEdit

/-- An edit changes nothing but the layout of what is read. -/
theorem respaced (h : LayoutEdit input input') (hlast : input.toList.getLast? ≠ some '\\')
    (hend : ∀ lexemes, ReadsAs input lexemes → Frame.isOpen (Place.behind lexemes).frames = true) :
    TokenStream.Respaced (fun _ => True) .start (.ofString input) (.ofString input') := by
  cases h with
  | @replace front back old new hinput hold hopen hnew =>
    obtain ⟨htext, hcut⟩ := hinput.cut
    rw [ofString_rewritten, TokenStream.ofString, htext]
    exact .around_replace hcut hold hopen hnew.spacing hnew.ne_nil
      (by simpa using hnew.startsAlike old.text []) 0 0
  | @exchange front back old c hinput hold hopen hc =>
    obtain ⟨htext, hcut⟩ := hinput.cut
    rw [ofString_rewritten, TokenStream.ofString, htext]
    have hmem : c ∈ layoutChars := by rcases hc with rfl | rfl <;> decide
    have hsingle : (TokenKind.statementEnd, c) ∈ singles := by
      rcases hc with rfl | rfl <;> simp [singles]
    have hblank : Rule.blankRun ([c] ++ back.flatMap Lexeme.text) = 0 := by
      rcases hc with rfl | rfl <;> rfl
    exact .around_exchange hcut (by simp [hold]) hopen (hold ▸ cuts_of_mem_singles hsingle)
      (fun d hd => .inr (by simp_all)) (.inl hblank) 0 0
  | @insert front back new hinput hborder hopen hnew =>
    obtain ⟨htext, hcut⟩ := hinput.cut
    have hopen' : Frame.isOpen (Place.behind front).frames = true := by
      by_cases hnil : back = []
      · exact hend front (by simpa [hnil] using hinput)
      · exact hopen hnil
    rw [ofString_rewritten, TokenStream.ofString, htext]
    by_cases hback : ∃ blank ∈ back.head?, blank.kind = .whitespace
    · -- the text becomes one lexeme with the whitespace behind it
      obtain ⟨blank, hhead, hblank⟩ := hback
      obtain ⟨back, rfl⟩ := List.head?_eq_some_iff.1 hhead
      rw [List.flatMap_cons, ← List.append_assoc new]
      exact .around_replace hcut hblank hopen'
        (hnew.spacing.append (hcut.spacing hblank))
        (List.append_ne_nil_of_left_ne_nil hnew.ne_nil _) (hnew.startsAlike _ _) 0 0
    by_cases hfront : ∃ blank ∈ front.getLast?, blank.kind = .whitespace
    · -- or with the whitespace in front of it
      obtain ⟨blank, hblanks, hblank⟩ := hfront
      obtain ⟨front, rfl⟩ := List.getLast?_eq_some_iff.1 hblanks
      rw [List.append_assoc, List.singleton_append] at hcut
      have hne := (Lexeme.allCut_append_iff.1 hcut).2.1.1
      have halike : StartsAlike blank.text (blank.text ++ new) := fun c hc => by
        obtain ⟨d, text, htext⟩ := List.exists_cons_of_ne_nil hne
        exact .inl (by simpa [htext] using hc)
      have := TokenStream.Respaced.around_replace hcut hblank
        (Place.frames_behind_concat hblank ▸ hopen')
        ((hcut.spacing hblank).append hnew.spacing)
        (List.append_ne_nil_of_left_ne_nil hne _) halike 0 0
      simpa using this
    · push Not at hback hfront
      refine .around_insert hcut hopen' (Place.border_of_mem hborder) hnew ?_ hfront hback 0 0
      by_cases hnil : back = []
      · rw [htext, hnil, List.append_nil] at hlast
        exact .inr hlast
      · exact .inl hnil

/-- An edit puts no backslash at the end. -/
theorem getLast?_ne (h : LayoutEdit input input') (hlast : input.toList.getLast? ≠ some '\\') :
    input'.toList.getLast? ≠ some '\\' := by
  have hrewritten {front back : List Lexeme} {new : List Char} (old : List Char)
      (htext : input.toList = old ++ back.flatMap Lexeme.text) (hne : new ≠ [])
      (hnew : new.getLast? ≠ some '\\') :
      (rewritten front new back).toList.getLast? ≠ some '\\' := by
    rw [htext, List.getLast?_append] at hlast
    rw [rewritten, String.toList_ofList, List.getLast?_append, List.getLast?_append]
    cases hback : (back.flatMap Lexeme.text).getLast? with
    | some c => simpa [hback] using hlast
    | none =>
      cases hend : new.getLast? with
      | some c => simpa [hend] using hnew
      | none => exact absurd (List.getLast?_eq_none_iff.1 hend) hne
  cases h with
  | @replace front back old new hinput hold hopen hnew =>
    refine hrewritten (front.flatMap Lexeme.text ++ old.text) ?_ hnew.ne_nil
      hnew.spacing.getLast?_ne
    rw [hinput.cut.1, List.flatMap_append, List.flatMap_cons, List.append_assoc]
  | @exchange front back old c hinput hold hopen hc =>
    refine hrewritten (front.flatMap Lexeme.text ++ old.text) ?_ (by simp) ?_
    · rw [hinput.cut.1, List.flatMap_append, List.flatMap_cons, List.append_assoc]
    · rcases hc with rfl | rfl <;> simp
  | @insert front back new hinput hborder hopen hnew =>
    refine hrewritten (front.flatMap Lexeme.text) ?_ hnew.ne_nil hnew.spacing.getLast?_ne
    rw [hinput.cut.1, List.flatMap_append]

end LayoutEdit

end CommandSyntax
