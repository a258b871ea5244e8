/-!
# CommandSyntax.Quoting

The **escapes** of the three ways to write text: in single quotes, in double
quotes and without quotes.

* In single quotes a backslash escapes a single quote and a backslash.
* In double quotes it escapes a double quote, a dollar sign and a backslash, and
  an escaped newline disappears.
* Without quotes it escapes whatever follows it, and an escaped newline
  disappears, as does a backslash at the end.

Each way is a list of escapes in the order in which they are tried, and one
function gives the text that is meant by the text that is written
(`unescape`). A backslash that escapes nothing stands for itself.

For the three lists the same is written out by patterns (`single`, `double`,
`plain`); that form is the one to reason with.
-/

namespace CommandSyntax.Quoting

/-- Some characters that together mean something else. -/
structure Escape where
  /-- The characters. -/
  written : List Char
  /-- What they mean. -/
  meant : List Char

/-- The escapes between single quotes. -/
def inSingleQuotes : List Escape := [⟨['\\', '\''], ['\'']⟩, ⟨['\\', '\\'], ['\\']⟩]

/-- The escapes between double quotes. -/
def inDoubleQuotes : List Escape :=
  [⟨['\\', '"'], ['"']⟩, ⟨['\\', '$'], ['$']⟩, ⟨['\\', '\n'], []⟩, ⟨['\\', '\\'], ['\\']⟩]

/-- The escapes without quotes. -/
def unquoted : List Escape := [⟨['\\', '\n'], []⟩, ⟨['\\', '\\'], ['\\']⟩, ⟨['\\'], []⟩]

/-- The first escape that stands at the front of a text. -/
def escapeAt? (escapes : List Escape) (text : List Char) : Option Escape :=
  escapes.find? fun escape => escape.written.isPrefixOf text

/-- What a text means from behind the first characters of it, which belong to an escape before. -/
def unescapeFrom (escapes : List Escape) : Nat → List Char → List Char
  | _, [] => []
  -- an escape is passed one character at a time, so that the recursion is on the text
  | before + 1, _ :: text => unescapeFrom escapes before text
  | 0, c :: text =>
    match escapeAt? escapes (c :: text) with
    | some escape => escape.meant ++ unescapeFrom escapes (escape.written.length - 1) text
    | none => c :: unescapeFrom escapes 0 text

/-- What a text means: at each place the first escape that stands there is replaced, and where
there is none the character stands for itself. -/
def unescape (escapes : List Escape) (text : List Char) : List Char := unescapeFrom escapes 0 text

/-! ### The three ways written out -/

/-- The text meant between single quotes. -/
def single : List Char → List Char
  | '\\' :: '\'' :: text => '\'' :: single text
  | '\\' :: '\\' :: text => '\\' :: single text
  | c :: text => c :: single text
  | [] => []

/-- The text meant between double quotes. -/
def double : List Char → List Char
  | '\\' :: '"' :: text => '"' :: double text
  | '\\' :: '$' :: text => '$' :: double text
  | '\\' :: '\n' :: text => double text
  | '\\' :: '\\' :: text => '\\' :: double text
  | c :: text => c :: double text
  | [] => []

/-- The text meant without quotes. -/
def plain : List Char → List Char
  | '\\' :: '\n' :: text => plain text
  | '\\' :: '\\' :: text => '\\' :: plain text
  | '\\' :: text => plain text
  | c :: text => c :: plain text
  | [] => []

/-! ### Each table means what is written out -/

section Escapes

variable {escapes : List Escape} {text : List Char} {c : Char}

theorem unescapeFrom_eq (before : Nat) (text : List Char) :
    unescapeFrom escapes before text = unescape escapes (text.drop before) := by
  induction text generalizing before with
  | nil => cases before <;> rfl
  | cons c text ih =>
    cases before with
    | zero => rfl
    | succ before => rw [unescapeFrom, ih, List.drop_succ_cons]

/-- An escape is replaced, and the text goes on behind it. -/
theorem unescape_of_escapeAt?_eq_some {escape : Escape}
    (h : escapeAt? escapes (c :: text) = some escape) :
    unescape escapes (c :: text) =
      escape.meant ++ unescape escapes (text.drop (escape.written.length - 1)) := by
  rw [unescape, unescapeFrom, h]
  show escape.meant ++ unescapeFrom escapes (escape.written.length - 1) text = _
  rw [unescapeFrom_eq]

theorem unescape_of_escapeAt?_eq_none (h : escapeAt? escapes (c :: text) = none) :
    unescape escapes (c :: text) = c :: unescape escapes text := by
  rw [unescape, unescapeFrom, h]
  rfl

/-- Without escapes a text means itself. -/
@[simp] theorem unescape_nil (text : List Char) : unescape [] text = text := by
  induction text with
  | nil => rfl
  | cons c text ih => rw [unescape_of_escapeAt?_eq_none rfl, ih]

theorem escapeAt?_eq_none_iff :
    escapeAt? escapes text = none ↔ ∀ escape ∈ escapes, ¬ escape.written <+: text := by
  simp only [escapeAt?, List.find?_eq_none, List.isPrefixOf_iff_prefix]

@[simp] theorem unescape_inSingleQuotes (text : List Char) :
    unescape inSingleQuotes text = single text := by
  fun_induction single text with
  | case1 text ih | case2 text ih =>
    rw [unescape_of_escapeAt?_eq_some rfl]
    exact congrArg _ ih
  | case3 c text hquote hbackslash ih =>
    have hnone : escapeAt? inSingleQuotes (c :: text) = none := by
      refine escapeAt?_eq_none_iff.2 fun escape hmem hprefix => ?_
      obtain ⟨rest, hrest⟩ := hprefix
      simp only [inSingleQuotes, List.mem_cons, List.not_mem_nil, or_false] at hmem
      obtain rfl | rfl := hmem
      · cases hrest
        exact hquote rest rfl rfl
      · cases hrest
        exact hbackslash rest rfl rfl
    rw [unescape_of_escapeAt?_eq_none hnone, ih]
  | case4 => rfl

@[simp] theorem unescape_inDoubleQuotes (text : List Char) :
    unescape inDoubleQuotes text = double text := by
  fun_induction double text with
  | case1 text ih | case2 text ih | case3 text ih | case4 text ih =>
    rw [unescape_of_escapeAt?_eq_some rfl]
    exact congrArg _ ih
  | case5 c text hquote hdollar hnewline hbackslash ih =>
    have hnone : escapeAt? inDoubleQuotes (c :: text) = none := by
      refine escapeAt?_eq_none_iff.2 fun escape hmem hprefix => ?_
      obtain ⟨rest, hrest⟩ := hprefix
      simp only [inDoubleQuotes, List.mem_cons, List.not_mem_nil, or_false] at hmem
      obtain rfl | rfl | rfl | rfl := hmem
      · cases hrest
        exact hquote rest rfl rfl
      · cases hrest
        exact hdollar rest rfl rfl
      · cases hrest
        exact hnewline rest rfl rfl
      · cases hrest
        exact hbackslash rest rfl rfl
    rw [unescape_of_escapeAt?_eq_none hnone, ih]
  | case6 => rfl

@[simp] theorem unescape_unquoted (text : List Char) : unescape unquoted text = plain text := by
  fun_induction plain text with
  | case1 text ih | case2 text ih =>
    rw [unescape_of_escapeAt?_eq_some rfl]
    exact congrArg _ ih
  | case3 text hnewline hbackslash ih =>
    -- neither of the longer escapes stands there
    have hescape : escapeAt? unquoted ('\\' :: text) = some ⟨['\\'], []⟩ := by
      cases text with
      | nil => rfl
      | cons c text =>
        have hnewline' : '\n' ≠ c := fun h => hnewline text (h ▸ rfl)
        have hbackslash' : '\\' ≠ c := fun h => hbackslash text (h ▸ rfl)
        simp [escapeAt?, unquoted, hnewline', hbackslash']
    rw [unescape_of_escapeAt?_eq_some hescape]
    exact ih
  | case4 c text _ _ hbackslash ih =>
    have hnone : escapeAt? unquoted (c :: text) = none := by
      refine escapeAt?_eq_none_iff.2 fun escape hmem hprefix => ?_
      obtain ⟨rest, hrest⟩ := hprefix
      simp only [unquoted, List.mem_cons, List.not_mem_nil, or_false] at hmem
      obtain rfl | rfl | rfl := hmem <;> cases hrest <;> exact hbackslash rfl
    rw [unescape_of_escapeAt?_eq_none hnone, ih]
  | case5 => rfl

/-! ### Text without backslashes means itself -/

/-- Where every escape starts with a backslash, a text without one means itself. -/
theorem unescape_eq_self (hescapes : ∀ escape ∈ escapes, escape.written.head? = some '\\')
    (h : '\\' ∉ text) : unescape escapes text = text := by
  induction text with
  | nil => rfl
  | cons c text ih =>
    have hc : '\\' ≠ c := fun heq => h (heq ▸ List.mem_cons_self)
    have hnone : escapeAt? escapes (c :: text) = none := by
      refine escapeAt?_eq_none_iff.2 fun escape hmem hprefix => ?_
      have hhead := hescapes escape hmem
      obtain ⟨written, meant⟩ := escape
      cases written with
      | nil => simp at hhead
      | cons first written =>
        obtain rfl : first = '\\' := Option.some.inj hhead
        exact hc (List.cons_prefix_cons.1 hprefix).1
    rw [unescape_of_escapeAt?_eq_none hnone, ih fun hmem => h (List.mem_cons_of_mem c hmem)]

theorem double_eq_self (h : '\\' ∉ text) : double text = text := by
  rw [← unescape_inDoubleQuotes, unescape_eq_self (by simp [inDoubleQuotes]) h]

theorem plain_eq_self (h : '\\' ∉ text) : plain text = text := by
  rw [← unescape_unquoted, unescape_eq_self (by simp [unquoted]) h]

end Escapes

end CommandSyntax.Quoting
