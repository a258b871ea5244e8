import CommandSyntax.Proofs.Token.Settling

/-!
# CommandSyntax.Proofs.Token.Bytes

**Scanning bytes is scanning characters.** The rules speak of characters, but each of them only
asks whether a character is one of some that take a single byte. So a rule may be asked about
the bytes of a text, one at a time, and makes of them what it makes of the text
(`Rule.scansBytes_of_mem_table`): it accepts the bytes of the characters that it accepts.

The point is the backslash, which takes one byte with it, even the first of several that encode
a character. No rule knows the bytes that are then left of the character, so the token goes on
over them and ends where the character does.
-/

namespace CommandSyntax

namespace Text

variable {c d : Char} {text : List Char}

/-! ### The bytes of a text -/

/-- The bytes that encode a character, each as the character of its number. -/
def encode (c : Char) : List Char := (String.utf8EncodeChar c).map Char.ofUInt8

/-- The bytes of a text, each as the character of its number. -/
def bytes (text : List Char) : List Char := text.flatMap encode

@[simp] theorem bytes_nil : bytes [] = [] := rfl

@[simp] theorem bytes_cons (c : Char) (text : List Char) :
    bytes (c :: text) = encode c ++ bytes text := rfl

@[simp] theorem bytes_append (front back : List Char) :
    bytes (front ++ back) = bytes front ++ bytes back := List.flatMap_append

/-- The bytes of a string, each as the character of its number. -/
def ofBytes (input : String) : List Char := input.toByteArray.data.toList.map Char.ofUInt8

theorem ofBytes_eq (input : String) : ofBytes input = bytes input.toList := by
  rw [ofBytes, ← String.utf8Encode_toList, List.utf8Encode, List.data_toByteArray]
  simp only [List.map_flatMap]
  rfl

@[simp] theorem length_encode (c : Char) : (encode c).length = c.utf8Size := by
  rw [encode, List.length_map, String.length_utf8EncodeChar]

@[simp] theorem length_bytes (text : List Char) : (bytes text).length = width text := by
  induction text with
  | nil => rfl
  | cons c text ih => rw [bytes_cons, List.length_append, length_encode, ih, width_cons]

theorem val_ofUInt8 (byte : UInt8) : (Char.ofUInt8 byte).val = byte.toUInt32 := rfl

/-- A character of one byte is encoded by itself. -/
theorem encode_of_utf8Size (h : c.utf8Size = 1) : encode c = [c] := by
  have hval : c.val.toNat ≤ 127 := UInt32.le_iff_toNat_le.1 (Char.utf8Size_eq_one_iff.1 h)
  rw [encode, String.utf8EncodeChar_eq_singleton h, List.map_singleton, List.singleton_inj,
    Char.ext_iff, ← UInt32.toNat_inj]
  rw [val_ofUInt8, UInt8.toNat_toUInt32, UInt32.toNat_toUInt8]
  exact Nat.mod_eq_of_lt (by omega)

/-- A byte with its highest bit set is no character of one byte. -/
theorem utf8Size_ofUInt8_ne (byte mask : UInt8) (h : 128 ≤ mask.toNat) :
    (Char.ofUInt8 (byte ||| mask)).utf8Size ≠ 1 := by
  rw [Ne, Char.utf8Size_eq_one_iff, UInt32.le_iff_toNat_le]
  have hbyte : (Char.ofUInt8 (byte ||| mask)).val.toNat = byte.toNat ||| mask.toNat := by
    rw [val_ofUInt8, UInt8.toNat_toUInt32, UInt8.toNat_or]
  have hor : mask.toNat ≤ byte.toNat ||| mask.toNat := Nat.right_le_or
  have hlimit : (127 : UInt32).toNat = 127 := rfl
  omega

/-- Where several bytes encode a character, none of them encodes one by itself. -/
theorem utf8Size_of_mem_encode (h : c.utf8Size ≠ 1) : ∀ d ∈ encode c, d.utf8Size ≠ 1 := by
  have hmask (byte mask : UInt8) (h : 128 ≤ mask.toNat) := utf8Size_ofUInt8_ne byte mask h
  rcases Char.utf8Size_eq c with h₁ | h₂ | h₃ | h₄
  · exact absurd h₁ h
  · simp [encode, String.utf8EncodeChar_eq_cons_cons h₂, hmask]
  · simp [encode, String.utf8EncodeChar_eq_cons_cons_cons h₃, hmask]
  · simp [encode, String.utf8EncodeChar_eq_cons_cons_cons_cons h₄, hmask]

/-- A character is encoded by itself or by bytes none of which encodes a character. -/
theorem encode_cases (c : Char) :
    (c.utf8Size = 1 ∧ encode c = [c]) ∨
      c.utf8Size ≠ 1 ∧ ∃ b front, encode c = b :: front ∧ b.utf8Size ≠ 1 ∧
        ∀ d ∈ front, d.utf8Size ≠ 1 := by
  by_cases h : c.utf8Size = 1
  · exact .inl ⟨h, encode_of_utf8Size h⟩
  · have hne : encode c ≠ [] := List.length_pos_iff.1 (by simpa using c.utf8Size_pos)
    obtain ⟨b, front, hencode⟩ := List.exists_cons_of_ne_nil hne
    have hforeign := utf8Size_of_mem_encode h
    rw [hencode, List.forall_mem_cons] at hforeign
    exact .inr ⟨h, b, front, hencode, hforeign⟩

theorem head?_bytes (h : d.utf8Size = 1) : (bytes text).head? = some d ↔ text.head? = some d := by
  cases text with
  | nil => simp
  | cons c text =>
    rcases encode_cases c with ⟨-, hencode⟩ | ⟨hc, b, front, hencode, hb, -⟩
    · simp [hencode]
    · have hbd : b ≠ d := fun heq => hb (heq ▸ h)
      have hcd : c ≠ d := fun heq => hc (heq ▸ h)
      simp [hencode, hbd, hcd]

/-- What is left of the bytes behind some text are the bytes of what is left. -/
theorem drop_bytes_append (front back : List Char) :
    (bytes (front ++ back)).drop (width front) = bytes back := by
  rw [bytes_append, ← length_bytes, List.drop_left]

theorem drop_bytes (n : Nat) (text : List Char) :
    (bytes text).drop (width (text.take n)) = bytes (text.drop n) := by
  have hdrop := drop_bytes_append (text.take n) (text.drop n)
  rwa [List.take_append_drop] at hdrop

theorem width_of_utf8Size (h : ∀ c ∈ text, c.utf8Size = 1) : width text = text.length := by
  induction text with
  | nil => rfl
  | cons c text ih =>
    obtain ⟨hc, htext⟩ := List.forall_mem_cons.1 h
    rw [width_cons, hc, ih htext, List.length_cons, Nat.add_comm]

end Text

open Text

/-! ### What rules know takes one byte -/

theorem utf8Size_of_isNameChar {c : Char} (h : isNameChar c = true) : c.utf8Size = 1 := by
  rw [Char.utf8Size_eq_one_iff]
  have hclass : (c.isUpper || c.isLower || c.isDigit || c == '_') = true := h
  simp only [Bool.or_eq_true, beq_iff_eq] at hclass
  rcases hclass with ((hupper | hlower) | hdigit) | rfl
  · exact UInt32.le_trans (of_decide_eq_true hupper).2 (by decide)
  · exact UInt32.le_trans (of_decide_eq_true (Bool.and_eq_true_iff.1 hlower).2) (by decide)
  · exact UInt32.le_trans (of_decide_eq_true (Bool.and_eq_true_iff.1 hdigit).2) (by decide)
  · decide

theorem utf8Size_of_isDelimiter {c : Char} (h : isDelimiter c = true) : c.utf8Size = 1 := by
  have hall : ∀ d ∈ delimiters, d.utf8Size = 1 := by
    simp [delimiters, Char.utf8Size_eq_one_iff]
  exact hall c (by simpa [isDelimiter] using h)

namespace Rule

variable {c : Char} {text front : List Char} {n : Nat}

/-! ### Runs of bytes -/

theorem rawRun_cons (hplain : isDelimiter c = false) (hc : c ≠ '\\') (text : List Char) :
    rawRun (c :: text) = rawRun text + 1 := by
  rw [rawRun]
  · simp [hplain]
  · exact fun _ _ heq => absurd heq hc

theorem quotedRun_cons (hquote : c ≠ '\'') (hc : c ≠ '\\') (text : List Char) :
    quotedRun (c :: text) = (quotedRun text).map (· + 1) := by
  rw [quotedRun]
  · exact fun heq => absurd heq hquote
  · exact fun _ _ heq => absurd heq hc

/-- A run of plain text goes on over bytes that no rule knows. -/
theorem rawRun_foreign (h : ∀ d ∈ front, d.utf8Size ≠ 1) (text : List Char) :
    rawRun (front ++ text) = front.length + rawRun text := by
  induction front with
  | nil => simp
  | cons d front ih =>
    obtain ⟨hd, hfront⟩ := List.forall_mem_cons.1 h
    have hplain : isDelimiter d = false :=
      Bool.eq_false_iff.2 fun hdelimiter => hd (utf8Size_of_isDelimiter hdelimiter)
    have hbackslash : d ≠ '\\' := by
      rintro rfl
      exact hd rfl
    rw [List.cons_append, rawRun_cons hplain hbackslash, ih hfront, List.length_cons]
    omega

/-- So does a text in single quotes. -/
theorem quotedRun_foreign (h : ∀ d ∈ front, d.utf8Size ≠ 1) (text : List Char) :
    quotedRun (front ++ text) = (quotedRun text).map (front.length + ·) := by
  induction front with
  | nil => simp
  | cons d front ih =>
    obtain ⟨hd, hfront⟩ := List.forall_mem_cons.1 h
    have hquote : d ≠ '\'' := by
      rintro rfl
      exact hd rfl
    have hbackslash : d ≠ '\\' := by
      rintro rfl
      exact hd rfl
    rw [List.cons_append, quotedRun_cons hquote hbackslash, ih hfront, Option.map_map]
    congr 1
    funext run
    simp only [Function.comp_apply, List.length_cons]
    omega

theorem rawRun_bytes (text : List Char) :
    rawRun (bytes text) = width (text.take (rawRun text)) := by
  fun_induction rawRun text with
  | case1 d text ih =>
    have hbackslash : encode '\\' = ['\\'] := encode_of_utf8Size rfl
    have hwidth : Char.utf8Size '\\' = 1 := rfl
    rw [bytes_cons, bytes_cons, hbackslash, List.take_succ_cons, List.take_succ_cons, width_cons,
      width_cons, ← ih, hwidth]
    rcases encode_cases d with ⟨hd, hencode⟩ | ⟨-, b, front, hencode, -, hfront⟩
    · rw [hencode, hd]
      simp only [List.cons_append, List.nil_append, rawRun]
      omega
    · -- the first byte is escaped, and the others are plain text
      have hsize : front.length + 1 = d.utf8Size := by rw [← length_encode, hencode]; rfl
      rw [hencode]
      simp only [List.cons_append, List.nil_append, rawRun, rawRun_foreign hfront]
      omega
  | case2 c text hescape hdelimiter =>
    have hc : c ≠ '\\' := by
      rintro rfl
      simp [isDelimiter, delimiters] at hdelimiter
    rw [bytes_cons, encode_of_utf8Size (utf8Size_of_isDelimiter hdelimiter), List.singleton_append,
      rawRun]
    · simp [hdelimiter]
    · exact fun _ _ heq => absurd heq hc
  | case3 c text hescape hdelimiter ih =>
    rw [List.take_succ_cons, width_cons, ← ih, bytes_cons]
    rcases encode_cases c with ⟨hc, hencode⟩ | ⟨hc, -⟩
    · rw [hencode, hc, List.singleton_append]
      by_cases hbackslash : c = '\\'
      · -- a backslash that escapes nothing is the last character
        subst hbackslash
        cases text with
        | nil => rfl
        | cons d text => exact absurd rfl (hescape d text rfl)
      · rw [rawRun_cons (by simpa using hdelimiter) hbackslash, Nat.add_comm]
    · rw [rawRun_foreign (utf8Size_of_mem_encode hc), length_encode]
  | case4 => rfl

theorem quotedRun_bytes (text : List Char) :
    quotedRun (bytes text) = (quotedRun text).map fun n => width (text.take n) := by
  fun_induction quotedRun text with
  | case1 text =>
    rw [bytes_cons, encode_of_utf8Size rfl]
    rfl
  | case2 d text ih =>
    have hbackslash : encode '\\' = ['\\'] := encode_of_utf8Size rfl
    have hwidth : Char.utf8Size '\\' = 1 := rfl
    rw [bytes_cons, bytes_cons, hbackslash, Option.map_map]
    rcases encode_cases d with ⟨hd, hencode⟩ | ⟨-, b, front, hencode, -, hfront⟩
    · simp only [hencode, List.cons_append, List.nil_append, quotedRun, ih, Option.map_map]
      congr 1
      funext n
      simp only [Function.comp_apply, List.take_succ_cons, width_cons, hd, hwidth]
      omega
    · -- the first byte is escaped, and the others close nothing
      have hsize : front.length + 1 = d.utf8Size := by rw [← length_encode, hencode]; rfl
      simp only [hencode, List.cons_append, List.nil_append, quotedRun, ih, Option.map_map,
        quotedRun_foreign hfront]
      congr 1
      funext n
      simp only [Function.comp_apply, List.take_succ_cons, width_cons, hwidth]
      omega
  | case3 c text hquote hescape ih =>
    rw [bytes_cons, Option.map_map]
    rcases encode_cases c with ⟨hc, hencode⟩ | ⟨hc, -⟩
    · rw [hencode, List.singleton_append]
      by_cases hbackslash : c = '\\'
      · -- a backslash that escapes nothing is the last character
        subst hbackslash
        cases text with
        | nil => rfl
        | cons d text => exact absurd rfl (hescape d text rfl)
      · rw [quotedRun_cons (fun heq => hquote heq) hbackslash, ih, Option.map_map]
        congr 1
        funext n
        simp only [Function.comp_apply, List.take_succ_cons, width_cons, hc]
        omega
    · rw [quotedRun_foreign (utf8Size_of_mem_encode hc), ih, length_encode, Option.map_map]
      rfl
  | case4 => rfl

theorem blankRun_bytes (text : List Char) :
    blankRun (bytes text) = width (text.take (blankRun text)) := by
  fun_induction blankRun text with
  | case1 text ih =>
    have hbackslash : encode '\\' = ['\\'] := encode_of_utf8Size rfl
    have hnewline : encode '\n' = ['\n'] := encode_of_utf8Size rfl
    have hwidth : Char.utf8Size '\\' = 1 ∧ Char.utf8Size '\n' = 1 := ⟨rfl, rfl⟩
    rw [List.take_succ_cons, List.take_succ_cons, width_cons, width_cons, ← ih, bytes_cons,
      bytes_cons, hbackslash, hnewline, hwidth.1, hwidth.2]
    simp only [List.cons_append, List.nil_append, blankRun]
    omega
  | case2 c text hescape hblank ih =>
    have hsize := utf8Size_of_isBlank hblank
    have hc : c ≠ '\\' := by
      rintro rfl
      simp [isBlank] at hblank
    rw [List.take_succ_cons, width_cons, ← ih, bytes_cons, encode_of_utf8Size hsize, hsize,
      List.singleton_append, blankRun]
    · rw [if_pos hblank, Nat.add_comm]
    · exact fun _ heq => absurd heq hc
  | case3 c text hescape hblank =>
    rw [List.take_zero, width_nil, bytes_cons]
    rcases encode_cases c with ⟨-, hencode⟩ | ⟨-, b, front, hencode, hb, -⟩
    · rw [hencode, List.singleton_append, blankRun]
      · rw [if_neg hblank]
      · -- no newline stands behind a backslash, so none of its bytes does
        rintro rest rfl hrest
        have hhead : (bytes text).head? = some '\n' := by rw [hrest]; rfl
        obtain ⟨rest, rfl⟩ := List.head?_eq_some_iff.1 ((head?_bytes rfl).1 hhead)
        exact hescape rest rfl rfl
    · rw [hencode, List.cons_append, blankRun]
      · exact if_neg fun hblank => hb (utf8Size_of_isBlank hblank)
      · rintro rest rfl
        exact absurd rfl hb
  | case4 => rfl

theorem nameRun_bytes (text : List Char) :
    nameRun (bytes text) = width (text.take (nameRun text)) := by
  induction text with
  | nil => rfl
  | cons c text ih =>
    rw [nameRun_cons, bytes_cons]
    by_cases hname : isNameChar c = true
    · have hc := utf8Size_of_isNameChar hname
      rw [if_pos hname, List.take_succ_cons, width_cons, ← ih, encode_of_utf8Size hc, hc,
        List.singleton_append, nameRun_cons, if_pos hname, Nat.add_comm]
    · rw [if_neg hname, List.take_zero, width_nil]
      rcases encode_cases c with ⟨-, hencode⟩ | ⟨-, b, front, hencode, hb, -⟩
      · rw [hencode, List.singleton_append, nameRun_cons, if_neg hname]
      · rw [hencode, List.cons_append, nameRun_cons,
          if_neg fun hname => hb (utf8Size_of_isNameChar hname)]

theorem findIdx?_bytes {d : Char} (hd : d.utf8Size = 1) (text : List Char) :
    (bytes text).findIdx? (· == d) =
      (text.findIdx? (· == d)).map fun n => width (text.take n) := by
  induction text with
  | nil => rfl
  | cons c text ih =>
    rw [bytes_cons, List.findIdx?_append, ih, List.findIdx?_cons]
    by_cases heq : c = d
    · subst heq
      simp [encode_of_utf8Size hd]
    · have hnone : (encode c).findIdx? (· == d) = none := by
        rw [List.findIdx?_eq_none_iff]
        rcases encode_cases c with ⟨-, hencode⟩ | ⟨hc, -⟩
        · simpa [hencode] using heq
        · exact fun e he => beq_eq_false_iff_ne.2 fun hed =>
            utf8Size_of_mem_encode hc e he (hed ▸ hd)
      rw [hnone, Option.none_or, if_neg (by simpa using heq), Option.map_map, Option.map_map,
        length_encode]
      congr 1
      funext n
      simp [Nat.add_comm]

/-! ### Rules -/

end Rule

/-- What is made of the bytes of a text, when that is made of the text. -/
def Verdict.inBytes (text : List Char) : Verdict → Verdict
  | accept n => accept (width (text.take n))
  | pass => pass
  | reject opening => reject opening

namespace Rule

/-- A rule makes of the bytes of any text what it makes of the text. -/
def ScansBytes (rule : Rule) : Prop :=
  ∀ text, rule.scan (bytes text) = (rule.scan text).inBytes text

theorem stop_scansBytes : stop.ScansBytes := by
  intro text
  cases text with
  | nil => rfl
  | cons c text =>
    rcases encode_cases c with ⟨-, hencode⟩ | ⟨-, b, front, hencode, -⟩ <;>
      simp [stop, hencode, Verdict.inBytes]

/-- A rule that accepts runs scans bytes when the runs have the bytes of the characters. -/
theorem ofRun_scansBytes {kind : TokenKind} {run : List Char → Nat}
    (hle : ∀ text, run text ≤ text.length)
    (h : ∀ text, run (bytes text) = width (text.take (run text))) :
    ScansBytes ⟨kind, fun text => .ofRun (run text)⟩ := by
  intro text
  simp only [h]
  have hlength := length_le_width (text.take (run text))
  rw [List.length_take, Nat.min_eq_left (hle text)] at hlength
  cases hrun : run text with
  | zero => rfl
  | succ n =>
    rw [hrun] at hlength
    obtain ⟨size, hsize⟩ := Nat.exists_eq_add_of_lt (Nat.lt_of_lt_of_le (Nat.succ_pos n) hlength)
    rw [Nat.zero_add] at hsize
    simp only [Verdict.ofRun, Verdict.inBytes, hsize]

theorem isPrefixOf_bytes {characters : List Char} (h : ∀ c ∈ characters, c.utf8Size = 1)
    (text : List Char) : characters.isPrefixOf (bytes text) = characters.isPrefixOf text := by
  induction characters generalizing text with
  | nil => rfl
  | cons d characters ih =>
    obtain ⟨hd, hcharacters⟩ := List.forall_mem_cons.1 h
    cases text with
    | nil => rfl
    | cons c text =>
      rw [bytes_cons, List.isPrefixOf]
      rcases encode_cases c with ⟨-, hencode⟩ | ⟨hc, b, front, hencode, hb, -⟩
      · rw [hencode, List.singleton_append, List.isPrefixOf, ih hcharacters]
      · have hdb : d ≠ b := fun heq => hb (heq ▸ hd)
        have hdc : d ≠ c := fun heq => hc (heq ▸ hd)
        rw [hencode, List.cons_append, List.isPrefixOf, beq_eq_false_iff_ne.2 hdb,
          beq_eq_false_iff_ne.2 hdc, Bool.false_and, Bool.false_and]

theorem literal_scansBytes (kind : TokenKind) {characters : List Char}
    (h : ∀ c ∈ characters, c.utf8Size = 1) : (literal kind characters).ScansBytes := by
  intro text
  simp only [literal, isPrefixOf_bytes h]
  split
  · rename_i hpre
    have htake := List.prefix_iff_eq_take.1 (List.isPrefixOf_iff_prefix.1 hpre)
    cases hlength : characters.length with
    | zero => rfl
    | succ n =>
      rw [hlength] at htake
      simp only [Verdict.ofRun, Verdict.inBytes, ← htake, width_of_utf8Size h, hlength]
  · rfl

/-- A rule that passes unless the text starts with a certain character. -/
theorem scansBytes_of_opener {rule : Rule} (opener : Char) (hopener : opener.utf8Size = 1)
    (hpass : ∀ text, text.head? ≠ some opener → rule.scan text = .pass)
    (h : ∀ text, rule.scan (opener :: bytes text) =
      (rule.scan (opener :: text)).inBytes (opener :: text)) : rule.ScansBytes := by
  intro text
  by_cases hhead : text.head? = some opener
  · obtain ⟨rest, rfl⟩ := List.head?_eq_some_iff.1 hhead
    rw [bytes_cons, encode_of_utf8Size hopener, List.singleton_append, h]
  · rw [hpass text hhead, hpass _ (mt (head?_bytes hopener).1 hhead), Verdict.inBytes]

theorem unbracedParameter_scansBytes : unbracedParameter.ScansBytes := by
  refine scansBytes_of_opener '$' rfl ?_ ?_
  · intro text hhead
    simp only [unbracedParameter]
    split
    · simp at hhead
    · rfl
  · intro text
    have hdollar : Char.utf8Size '$' = 1 := rfl
    cases text with
    | nil => rfl
    | cons c text =>
      rw [bytes_cons]
      rcases encode_cases c with ⟨hc, hencode⟩ | ⟨hc, b, front, hencode, hb, -⟩
      · simp only [hencode, List.singleton_append, unbracedParameter, nameRun_bytes]
        split
        · simp [Verdict.inBytes, hdollar, hc]
        · split
          · simp only [Verdict.inBytes, List.take_succ_cons, width_cons, hdollar, hc]
            congr 1
            omega
          · rfl
      · have hname {d : Char} (hd : d.utf8Size ≠ 1) : isNameChar d = false :=
          Bool.eq_false_iff.2 fun hname => hd (utf8Size_of_isNameChar hname)
        have hdigit {d : Char} (hd : d.utf8Size ≠ 1) : ¬ (d = '?' ∨ d.isDigit = true) := by
          rintro (rfl | hdigit)
          · exact hd rfl
          · exact hd (utf8Size_of_isNameChar (by simp [isNameChar, Char.isAlphanum, hdigit]))
        simp [hencode, unbracedParameter, hname hc, hname hb, hdigit hc, hdigit hb,
          Verdict.inBytes]

theorem statementEnd_scansBytes : statementEnd.ScansBytes := by
  intro text
  cases text with
  | nil => rfl
  | cons c text =>
    rw [bytes_cons]
    rcases encode_cases c with ⟨hc, hencode⟩ | ⟨hc, b, front, hencode, hb, -⟩
    · simp only [hencode, List.singleton_append, statementEnd]
      split
      · simp [Verdict.inBytes, hc]
      · rfl
    · have hend {d : Char} (hd : d.utf8Size ≠ 1) : ¬ (d = ';' ∨ d = '\n') := by
        rintro (rfl | rfl) <;> exact hd rfl
      simp [hencode, statementEnd, hend hc, hend hb, Verdict.inBytes]

theorem globCharset_scansBytes : globCharset.ScansBytes := by
  refine scansBytes_of_opener '[' rfl ?_ ?_
  · intro text hhead
    simp only [globCharset]
    split
    · simp at hhead
    · rfl
  · intro text
    simp only [globCharset, findIdx?_bytes (d := ']') rfl]
    cases hfind : text.findIdx? (· == ']') with
    | none => rfl
    | some n =>
      obtain ⟨hlt, hclose, -⟩ := List.findIdx?_eq_some_iff_getElem.1 hfind
      have htake : text.take (n + 1) = text.take n ++ [']'] := by
        rw [List.take_add_one, List.getElem?_eq_getElem hlt, beq_iff_eq.1 hclose,
          Option.toList_some]
      have hwidth : Char.utf8Size '[' = 1 ∧ Char.utf8Size ']' = 1 := ⟨rfl, rfl⟩
      simp only [Option.map_some, Verdict.inBytes, List.take_succ_cons, htake, width_cons,
        width_append, width_nil, hwidth]
      congr 1
      omega

theorem singleQuoted_scansBytes : singleQuoted.ScansBytes := by
  refine scansBytes_of_opener '\'' rfl ?_ ?_
  · intro text hhead
    simp only [singleQuoted]
    split
    · simp at hhead
    · rfl
  · intro text
    simp only [singleQuoted, quotedRun_bytes]
    cases quotedRun text with
    | none => rfl
    | some n =>
      have hwidth : Char.utf8Size '\'' = 1 := rfl
      simp only [Option.map_some, Verdict.inBytes, List.take_succ_cons, width_cons, hwidth,
        Nat.add_comm]

theorem assignmentLhs_scansBytes : assignmentLhs.ScansBytes := by
  intro text
  have hpos : 0 < width (text.take (nameRun text)) ↔ 0 < nameRun text := by
    have hle := length_le_width (text.take (nameRun text))
    rw [List.length_take, Nat.min_eq_left (nameRun_le text)] at hle
    refine ⟨fun h => Nat.pos_of_ne_zero fun hzero => ?_, fun h => Nat.lt_of_lt_of_le h hle⟩
    simp [hzero] at h
  simp only [assignmentLhs, nameRun_bytes, drop_bytes, hpos, head?_bytes (d := '=') rfl]
  split
  · rename_i hname
    rw [List.head?_drop] at hname
    have hequals : Char.utf8Size '=' = 1 := rfl
    rw [Verdict.inBytes, List.take_add_one, hname.2, Option.toList_some, width_append, width_cons,
      hequals, width_nil]
  · rfl

/-! ### The table -/

theorem scansBytes_of_mem_table : ∀ rule ∈ table, rule.ScansBytes := by
  have hwhitespace : whitespace.ScansBytes := ofRun_scansBytes blankRun_le blankRun_bytes
  have hraw : raw.ScansBytes := ofRun_scansBytes rawRun_le rawRun_bytes
  simp only [table, List.forall_mem_cons]
  refine ⟨stop_scansBytes, hwhitespace, unbracedParameter_scansBytes, ?_, ?_, ?_,
    statementEnd_scansBytes, ?_, ?_, ?_, ?_, ?_, ?_, ?_, ?_, ?_, ?_, ?_, ?_, ?_, ?_, ?_,
    globCharset_scansBytes, singleQuoted_scansBytes, assignmentLhs_scansBytes, hraw,
    fun _ hmem => absurd hmem List.not_mem_nil⟩ <;>
    exact literal_scansBytes _ (by simp [Char.utf8Size_eq_one_iff])

/-- Asked about bytes, rules that scan them decide as they do about characters. -/
theorem firstToken_bytes {rules : List Rule} (hrules : ∀ rule ∈ rules, rule.ScansBytes)
    (position position' : Nat) (text : List Char) :
    match firstToken rules position text with
    | .ok (kind, n) => firstToken rules position' (bytes text) = .ok (kind, width (text.take n))
    | .error _ => ∃ error, firstToken rules position' (bytes text) = .error error := by
  induction rules with
  | nil => exact ⟨_, rfl⟩
  | cons rule rules ih =>
    obtain ⟨hrule, hrules⟩ := List.forall_mem_cons.1 hrules
    simp only [firstToken, hrule text]
    cases rule.scan text with
    | pass => exact ih hrules
    | accept n => rfl
    | reject opening => exact ⟨_, rfl⟩

end Rule

/-- The token at the head of the bytes of a text has the kind and the bytes of the lexeme at the
head of the text. -/
theorem Lexeme.firstToken_bytes (position position' : Nat) (text : List Char) :
    match read position text with
    | .ok lexeme =>
      Rule.firstToken Rule.table position' (bytes text) = .ok (lexeme.kind, width lexeme.text)
    | .error _ => ∃ error, Rule.firstToken Rule.table position' (bytes text) = .error error := by
  have h := Rule.firstToken_bytes Rule.scansBytes_of_mem_table position position' text
  rw [read]
  cases hfirst : Rule.firstToken Rule.table position text with
  | ok token => rwa [hfirst] at h
  | error error => rwa [hfirst] at h

end CommandSyntax
