import CommandSyntax.Proofs.Token.Layout
import CommandSyntax.Proofs.Token.Shape

/-!
# CommandSyntax.Proofs.Token.Pairing

**No escape of double quotes is cut in two.** A text is closed when what it means in double quotes
does not depend on what comes behind it (`Quoting.Closed`): it does not end in a backslash that
could escape the next character. Every lexeme that is text in double quotes is closed, unless it is
the last of its input (`Lexeme.closed_of_read`), so the meaning of a run of such lexemes is the
meaning of their joined text.

Not every lexeme stands for its meaning, though: whitespace and sets of characters are taken as they
are written (`Production.textOf_true`).
-/

namespace CommandSyntax

namespace Quoting

variable {text rest : List Char}

/-- What a text means in double quotes does not depend on what comes behind it. -/
def Closed (text : List Char) : Prop :=
  ∀ rest, double (text ++ rest) = double text ++ double rest

theorem closed_nil : Closed [] := fun _ => rfl

/-- A character that no backslash escapes stands for itself. -/
theorem double_cons {c : Char} (hc : c ≠ '\\') (text : List Char) :
    double (c :: text) = c :: double text := by
  rw [double] <;> simp_all

theorem Closed.cons {c : Char} (h : Closed text) (hc : c ≠ '\\') : Closed (c :: text) := by
  intro rest
  rw [List.cons_append, double_cons hc, double_cons hc, h rest, List.cons_append]

/-- A backslash takes the next character with it, whether it escapes that one or not. -/
theorem Closed.escape (h : Closed text) (c : Char) : Closed ('\\' :: c :: text) := by
  intro rest
  rw [List.cons_append, List.cons_append]
  by_cases hc : c = '"' ∨ c = '$' ∨ c = '\n' ∨ c = '\\'
  · rcases hc with rfl | rfl | rfl | rfl <;> simp [double, h rest]
  · simp only [not_or] at hc
    obtain ⟨hquote, hdollar, hnewline, hbackslash⟩ := hc
    have hstep (more : List Char) : double ('\\' :: c :: more) = '\\' :: c :: double more := by
      rw [double, double_cons hbackslash] <;> simp_all
    rw [hstep, hstep, h rest]
    rfl

/-- A text that does not end in a backslash is closed. -/
theorem closed_of_getLast? (h : text.getLast? ≠ some '\\') : Closed text := by
  induction hn : text.length using Nat.strongRecOn generalizing text with
  | ind n ih =>
    subst hn
    match text with
    | [] => exact closed_nil
    | [c] => exact closed_nil.cons fun hc => h (by rw [hc]; rfl)
    | c :: d :: more =>
      have hmore : more.getLast? ≠ some '\\' := by
        intro hlast
        rw [List.getLast?_cons_cons, List.getLast?_cons, hlast] at h
        exact h rfl
      by_cases hc : c = '\\'
      · subst hc
        exact (ih _ (by simp only [List.length_cons]; omega) hmore rfl).escape d
      · refine (ih _ (by simp) ?_ rfl).cons hc
        rwa [List.getLast?_cons_cons] at h

/-- Plain text in front of something is closed, since it pairs every backslash. -/
theorem closed_take_rawRun (text : List Char) (h : text.drop (Rule.rawRun text) ≠ []) :
    Closed (text.take (Rule.rawRun text)) := by
  fun_induction Rule.rawRun text with
  | case1 c text ih => exact (ih (by simpa using h)).escape c
  | case2 c text hescape hdelimiter => exact closed_nil
  | case3 c text hescape hdelimiter ih =>
    have hc : c ≠ '\\' := by
      rintro rfl
      cases text with
      | nil => simp [Rule.rawRun] at h
      | cons d text => exact hescape d text rfl rfl
    exact (ih (by simpa using h)).cons hc
  | case4 => exact closed_nil

/-- A run of blanks does not end in a backslash. -/
theorem closed_take_blankRun (text : List Char) : Closed (text.take (Rule.blankRun text)) := by
  fun_induction Rule.blankRun text with
  | case1 text ih => exact ih.escape '\n'
  | case2 c text hescape hblank ih =>
    refine ih.cons ?_
    rintro rfl
    simp [isBlank] at hblank
  | case3 c text hescape hblank => exact closed_nil
  | case4 => exact closed_nil

/-- Closed pieces can be resolved one by one. -/
theorem double_flatMap {α : Type} {pieces : List α} {piece : α → List Char}
    (h : ∀ item ∈ pieces, Closed (piece item)) :
    double (pieces.flatMap piece) = pieces.flatMap fun item => double (piece item) := by
  induction pieces with
  | nil => rfl
  | cons item pieces ih =>
    obtain ⟨hitem, hpieces⟩ := List.forall_mem_cons.1 h
    rw [List.flatMap_cons, List.flatMap_cons, hitem, ih hpieces]

/-- No text means more characters than it has. -/
theorem length_double_le (text : List Char) : (double text).length ≤ text.length := by
  fun_induction double text <;> simp_all <;> omega

end Quoting

/-! ### Texts that are joined from pieces -/

section

variable {α : Type} {items : List α} {short long : α → List Char}

theorem length_flatMap_le (h : ∀ item ∈ items, (short item).length ≤ (long item).length) :
    (items.flatMap short).length ≤ (items.flatMap long).length := by
  induction items with
  | nil => exact Nat.le_refl 0
  | cons item items ih =>
    obtain ⟨hitem, hitems⟩ := List.forall_mem_cons.1 h
    have := ih hitems
    simp only [List.flatMap_cons, List.length_append]
    omega

/-- Pieces that are no longer than others make up the same text only if they are the same. -/
theorem flatMap_eq_iff_of_length_le
    (h : ∀ item ∈ items, (short item).length ≤ (long item).length) :
    items.flatMap short = items.flatMap long ↔ ∀ item ∈ items, short item = long item := by
  constructor
  · intro heq
    induction items with
    | nil => simp
    | cons item items ih =>
      obtain ⟨hitem, hitems⟩ := List.forall_mem_cons.1 h
      rw [List.flatMap_cons, List.flatMap_cons] at heq
      have hlength := congrArg List.length heq
      have hrest := length_flatMap_le hitems
      simp only [List.length_append] at hlength
      obtain ⟨hfirst, hmore⟩ := List.append_inj heq (by omega)
      exact List.forall_mem_cons.2 ⟨hfirst, ih hitems hmore⟩
  · intro heq
    rw [List.flatMap_congr heq]

end

/-! ### Lexemes -/

open Production

namespace Lexeme

variable {lexeme : Lexeme} {position : Nat} {text : List Char}

/-- Text in double quotes that does not end the input leaves no escape unfinished. -/
theorem closed_of_read (h : read position text = .ok lexeme)
    (hrest : text.drop lexeme.text.length ≠ []) (hkind : isText true lexeme.kind = true) :
    Quoting.Closed lexeme.text := by
  have hne : text ≠ [] := by
    rintro rfl
    simp at hrest
  have hscanned := scanned_of_read hne h
  cases hlexeme : lexeme.kind
  case raw =>
    obtain ⟨n, hscan, htext, -⟩ := accept_of_read h Rule.raw (by simp [Rule.table]) hlexeme
    obtain ⟨rfl, -⟩ := Verdict.ofRun_eq_accept_iff.1 hscan
    rw [htext, List.length_take, Nat.min_eq_left (Rule.rawRun_le text)] at hrest
    exact htext ▸ Quoting.closed_take_rawRun text hrest
  case whitespace =>
    obtain ⟨n, hscan, htext, -⟩ := accept_of_read h Rule.whitespace (by simp [Rule.table]) hlexeme
    obtain ⟨rfl, -⟩ := Verdict.ofRun_eq_accept_iff.1 hscan
    exact htext ▸ Quoting.closed_take_blankRun text
  case singleQuoted =>
    obtain ⟨inner, htext⟩ := hscanned.text_of_singleQuoted hlexeme
    refine Quoting.closed_of_getLast? ?_
    rw [htext, ← List.cons_append, List.getLast?_concat]
    decide
  case globCharset =>
    obtain ⟨inner, -, htext⟩ := hscanned.text_of_globCharset hlexeme
    refine Quoting.closed_of_getLast? ?_
    rw [htext, ← List.cons_append, List.getLast?_concat]
    decide
  case assignmentLhs | globStar | globOne | and | or | background =>
    exact Quoting.closed_of_getLast? fun hlast =>
      hscanned.backslash_notMem (by simp [hlexeme]) (List.mem_of_getLast? hlast)
  -- lexemes of the other kinds are not text
  all_goals simp [hlexeme, isText] at hkind

/-- What a stream cuts off in front of another lexeme leaves no escape unfinished. -/
theorem closed_of_ofText {lexemes back : List Lexeme} {next : Lexeme} {stream : TokenStream}
    (h : TokenStream.ofText position text =
      TokenStream.prepend (lexemes ++ next :: back) stream)
    (htext : ∀ lexeme ∈ lexemes, isText true lexeme.kind = true) :
    ∀ lexeme ∈ lexemes, Quoting.Closed lexeme.text := by
  induction lexemes generalizing position text with
  | nil => simp
  | cons lexeme lexemes ih =>
    obtain ⟨hkind, htext⟩ := List.forall_mem_cons.1 htext
    obtain ⟨-, hread, hnext⟩ := TokenStream.read_of_ofText_eq_next h
    refine List.forall_mem_cons.2 ⟨closed_of_read hread (fun hnil => ?_) hkind, ih hnext.symm htext⟩
    rw [hnil, TokenStream.ofText_nil] at hnext
    cases lexemes <;> simp at hnext

end Lexeme

/-! ### What lexemes are taken for -/

/-- Whether a token of a kind is text in double quotes whose escapes are kept as written. -/
def keepsEscapes (kind : TokenKind) : Bool := kind == .whitespace || kind == .globCharset

/-- In double quotes whitespace and sets of characters are taken as they are written, and all
other text with its escapes resolved. -/
theorem Production.textOf_true {lexeme : Lexeme} (hscanned : lexeme.Scanned)
    (hkind : isText true lexeme.kind = true) :
    textOf true lexeme =
      if keepsEscapes lexeme.kind then lexeme.text else Quoting.double lexeme.text := by
  have hliteral (hmem : lexeme.kind ∈ [.globStar, .globOne, .and, .or, .background]) :
      Quoting.double lexeme.text = lexeme.text :=
    Quoting.double_eq_self (hscanned.backslash_notMem (List.mem_cons_of_mem _ hmem))
  cases hlexeme : lexeme.kind <;> simp_all [textOf, textOf?, isText, keepsEscapes]

end CommandSyntax
