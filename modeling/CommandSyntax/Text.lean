/-!
# CommandSyntax.Text

The **byte measure of text**: every offset in this library counts UTF-8 bytes,
while text itself is handled as a list of characters.

Design points:

* `width` is the number of bytes a text takes; it is additive over `++`, so
  offsets of adjacent pieces add up without any encoding argument.
* `splitAt?` cuts a text at a byte offset and refuses an offset that lies past
  the end or inside a character. Every other cut (`slice?`, `strip?`) goes through it.
* `lastLine` is the part of a text after its last newline, the only line
  boundary that diagnostics know.
-/

namespace CommandSyntax.Text

/-- The number of UTF-8 bytes of a text. -/
def width : List Char → Nat
  | [] => 0
  | c :: text => c.utf8Size + width text

@[simp] theorem width_nil : width [] = 0 := rfl

@[simp] theorem width_cons (c : Char) (text : List Char) :
    width (c :: text) = c.utf8Size + width text := rfl

@[simp] theorem width_append (left right : List Char) :
    width (left ++ right) = width left + width right := by
  induction left with
  | nil => simp
  | cons c left ih => simp [ih, Nat.add_assoc]

theorem length_le_width (text : List Char) : text.length ≤ width text := by
  induction text with
  | nil => simp
  | cons c text ih =>
    have := c.utf8Size_pos
    simp only [List.length_cons, width_cons]
    omega

theorem width_take_add_drop (n : Nat) (text : List Char) :
    width (text.take n) + width (text.drop n) = width text := by
  rw [← width_append, List.take_append_drop]

/-! ### Cutting at a byte offset -/

/-- The text before and after a byte offset, or `none` when the offset lies past
the end of the text or inside one of its characters. -/
def splitAt? : Nat → List Char → Option (List Char × List Char)
  | 0, text => some ([], text)
  | _ + 1, [] => none
  | offset + 1, c :: text =>
    if c.utf8Size ≤ offset + 1 then
      (splitAt? (offset + 1 - c.utf8Size) text).map fun (before, after) => (c :: before, after)
    else
      none

/-- A text can be cut after any of its prefixes. -/
theorem splitAt?_append (before after : List Char) :
    splitAt? (width before) (before ++ after) = some (before, after) := by
  induction before with
  | nil => simp [splitAt?]
  | cons c before ih =>
    have := c.utf8Size_pos
    obtain ⟨n, hn⟩ : ∃ n, width (c :: before) = n + 1 :=
      ⟨c.utf8Size + width before - 1, by simp only [width_cons]; omega⟩
    have hrest : n + 1 - c.utf8Size = width before := by
      rw [← hn, width_cons]; omega
    have hle : c.utf8Size ≤ n + 1 := by
      rw [← hn, width_cons]; omega
    simp only [hn, List.cons_append, splitAt?, if_pos hle, hrest, ih, Option.map_some]

/-- The two halves of a cut are the text, and the first is as wide as the offset. -/
theorem splitAt?_eq_some_iff {offset : Nat} {text before after : List Char} :
    splitAt? offset text = some (before, after) ↔
      before ++ after = text ∧ width before = offset := by
  constructor
  · intro h
    fun_induction splitAt? offset text generalizing before after with
    | case1 text => simp_all
    | case2 => simp at h
    | case3 offset c text hle ih =>
      obtain ⟨⟨before', after'⟩, hcut, heq⟩ := Option.map_eq_some_iff.1 h
      obtain ⟨rfl, rfl⟩ := Prod.mk.inj heq
      obtain ⟨rfl, hwidth⟩ := ih hcut
      exact ⟨rfl, by rw [width_cons, hwidth]; omega⟩
    | case4 => simp at h
  · rintro ⟨rfl, rfl⟩
    exact splitAt?_append before after

/-- The text between two byte offsets, or `none` unless both are cuts of the
text and stand in order. -/
def slice? (start stop : Nat) (text : List Char) : Option (List Char) :=
  if start ≤ stop then do
    let (_, after) ← splitAt? start text
    let (inside, _) ← splitAt? (stop - start) after
    return inside
  else
    none

/-- A piece of a text is the slice between the widths of what comes before. -/
theorem slice?_append (before inside after : List Char) :
    slice? (width before) (width before + width inside) (before ++ inside ++ after) =
      some inside := by
  simp [slice?, List.append_assoc, splitAt?_append]

/-- A text without its first `left` and its last `right` bytes, or `none` when it has fewer bytes
or a cut would fall inside a character. -/
def strip? (left right : Nat) (text : List Char) : Option (List Char) :=
  if right ≤ width text then slice? left (width text - right) text else none

/-- Stripped of what stands around it, a text is what is inside. -/
theorem strip?_append {before inside after : List Char} {left right : Nat}
    (hleft : width before = left) (hright : width after = right) :
    strip? left right (before ++ inside ++ after) = some inside := by
  subst hleft hright
  have hle : width after ≤ width (before ++ inside ++ after) := by
    rw [width_append]
    omega
  have hstop : width (before ++ inside ++ after) - width after = width before + width inside := by
    rw [width_append, width_append]
    omega
  rw [strip?, if_pos hle, hstop, slice?_append]

/-- Nothing is stripped of a text that has nothing around it. -/
theorem strip?_zero (text : List Char) : strip? 0 0 text = some text := by
  have hstrip : strip? 0 0 ([] ++ text ++ []) = some text := strip?_append rfl rfl
  rwa [List.nil_append, List.append_nil] at hstrip

/-! ### Quotes around a text -/

/-- A character as it stands in a text that is quoted in a message. -/
def quoteChar (c : Char) : List Char :=
  if c = '"' ∨ c = '\\' then ['\\', c]
  else if c = '\x00' then ['\\', '0']
  else if c = '\t' then ['\\', 't']
  else if c = '\r' then ['\\', 'r']
  else if c = '\n' then ['\\', 'n']
  else if c.toNat < 32 ∨ c.toNat = 127 then
    ['\\', 'u', '\x7b'] ++ Nat.toDigits 16 c.toNat ++ ['\x7d']
  else [c]

/-- A text in double quotes, with escapes for what cannot be printed. -/
def quote (text : List Char) : String := String.ofList ('"' :: (text.flatMap quoteChar ++ ['"']))

/-! ### Lines -/

/-- The end of a text, after its last newline; all of it when it has none. -/
def lastLine (text : List Char) : List Char :=
  (text.reverse.takeWhile (· ≠ '\n')).reverse

theorem newline_not_mem_lastLine (text : List Char) : '\n' ∉ lastLine text := by
  intro h
  have := List.all_takeWhile (p := fun c => decide (c ≠ '\n')) (l := text.reverse)
  rw [List.all_eq_true] at this
  simpa using this '\n' (by simpa [lastLine] using h)

end CommandSyntax.Text
