import CommandSyntax.Proofs.Token.Boundary
import CommandSyntax.Proofs.Token.Bytes
import CommandSyntax.Proofs.Token.Scanning
import CommandSyntax.Proofs.Token.Shape

/-!
# CommandSyntax.Proofs.Token.Runs

**A run of the scanner tiles the input and cuts no character** (`tiled_of_reads`). However often
the scanner advances, the tokens follow each other without a gap, their texts are the text of
the input that has been read, and no token but the end marker is empty.

The step is `Scanner.Splits.advance`: a scanner divides the text of its input, and advancing
moves the lexeme that is read from one side to the other. So whatever holds of a lexeme that is
read behind some text (`Lexeme.ReadBehind`) holds of each token of a run: its delimiters can be
cut off (`Token.Delimited`), as the grammar does, and it is what the rules find when they go over
the bytes of the input and know of no characters.
-/

namespace CommandSyntax

variable {input : String} {before : List Char} {lexeme : Lexeme}

/-! ### Well cut tokens -/

/-- The text of a token stands between delimiters, and both can be cut off. -/
def Token.Delimited (token : Token) (input : String) (opening closing : List Char) : Prop :=
  2 ≤ token.length ∧ ∃ inner, (token.text input).toList = opening ++ (inner ++ closing) ∧
    Text.slice? (token.start + opening.length) (token.stop - closing.length) input.toList =
      some inner

/-- A token that cuts no character of its input, and has the delimiters of its kind. -/
structure Token.WellCut (token : Token) (input : String) : Prop where
  /-- Only the end marker has no bytes. -/
  pos : token.kind ≠ .stop → 0 < token.length
  /-- The end marker stands at the end. -/
  endMarker : token.kind = .stop → token = .endMarker input.utf8ByteSize
  /-- The token does not start inside of a character. -/
  start : IsBoundary input token.start
  /-- Nor does it stop there. -/
  stop : IsBoundary input token.stop
  /-- The rules find it, too, when they are asked about the bytes of the input one by one. -/
  bytes : Rule.firstToken Rule.table token.start ((Text.ofBytes input).drop token.start) =
    .ok (token.kind, token.length)
  /-- A set of characters stands between brackets. -/
  charset : token.kind = .globCharset → token.Delimited input ['['] [']']
  /-- A text in single quotes stands between these. -/
  singleQuoted : token.kind = .singleQuoted → token.Delimited input ['\''] ['\'']
  /-- The name of an assignment stands before an equals sign. -/
  assignmentLhs : token.kind = .assignmentLhs → token.Delimited input [] ['=']
  /-- The name of a parameter stands behind a dollar sign. -/
  unbracedParameter : token.kind = .unbracedParameter → token.Delimited input ['$'] []

namespace Lexeme

/-- A lexeme that is read from what is left of an input behind some of its text. -/
def ReadBehind (lexeme : Lexeme) (input : String) (before : List Char) : Prop :=
  ∃ rest, input.toList = before ++ rest ∧ read (Text.width before) rest = .ok lexeme

namespace ReadBehind

theorem start_eq (h : lexeme.ReadBehind input before) : lexeme.start = Text.width before := by
  obtain ⟨rest, -, hread⟩ := h
  exact read_start hread

theorem eq_append (h : lexeme.ReadBehind input before) :
    ∃ after, input.toList = before ++ (lexeme.text ++ after) := by
  obtain ⟨rest, hinput, hread⟩ := h
  exact ⟨_, by rw [hinput, text_append_drop_of_read hread]⟩

/-- Before the end of the input a lexeme is scanned, and there the end marker is read. -/
theorem scanned_or_endMarker (h : lexeme.ReadBehind input before) :
    lexeme.Scanned ∨ lexeme = endMarker input.utf8ByteSize := by
  obtain ⟨rest, hinput, hread⟩ := h
  by_cases hrest : rest = []
  · rw [hrest, List.append_nil] at hinput
    rw [hrest, read_nil, ← hinput, Text.width_toList] at hread
    exact .inr (Except.ok.inj hread).symm
  · exact .inl (scanned_of_read hrest hread)

theorem scanned_of_kind (h : lexeme.ReadBehind input before) {kind : TokenKind}
    (hkind : lexeme.kind = kind) (hne : kind ≠ .stop) : lexeme.Scanned := by
  rcases h.scanned_or_endMarker with hscanned | rfl
  · exact hscanned
  · exact absurd hkind.symm hne

theorem pointsInto (h : lexeme.ReadBehind input before) : lexeme.span.PointsInto input := by
  obtain ⟨after, hinput⟩ := h.eq_append
  exact Lexeme.pointsInto hinput h.start_eq

theorem text_token (h : lexeme.ReadBehind input before) :
    (lexeme.token.text input).toList = lexeme.text := by
  obtain ⟨after, hinput⟩ := h.eq_append
  rw [Lexeme.text_token hinput h.start_eq, String.toList_ofList]

/-- Delimiters of one byte each can be cut off. -/
theorem delimited (h : lexeme.ReadBehind input before) {opening inner closing : List Char}
    (htext : lexeme.text = opening ++ (inner ++ closing))
    (hopening : Text.width opening = opening.length)
    (hclosing : Text.width closing = closing.length) (hlength : 2 ≤ lexeme.text.length) :
    lexeme.token.Delimited input opening closing := by
  refine ⟨Nat.le_trans hlength (Text.length_le_width _), inner, by rw [h.text_token, htext], ?_⟩
  obtain ⟨after, hinput⟩ := h.eq_append
  have hstart : lexeme.token.start = Text.width before := h.start_eq
  have hslice := Text.slice?_append (before ++ opening) inner (closing ++ after)
  have hstop : lexeme.token.stop - closing.length =
      Text.width before + opening.length + Text.width inner := by
    rw [stop_token, stop, h.start_eq, htext, Text.width_append, Text.width_append, hopening,
      hclosing]
    omega
  rw [Text.width_append, hopening] at hslice
  rw [hstop, hstart, hinput, htext]
  simpa only [List.append_assoc] using hslice

/-- The rules find a lexeme also in the bytes of the input. -/
theorem bytes (h : lexeme.ReadBehind input before) :
    Rule.firstToken Rule.table lexeme.start ((Text.ofBytes input).drop lexeme.start) =
      .ok (lexeme.kind, Text.width lexeme.text) := by
  obtain ⟨rest, hinput, hread⟩ := id h
  have hbytes := firstToken_bytes (Text.width before) lexeme.start rest
  rw [hread] at hbytes
  rwa [h.start_eq, Text.ofBytes_eq, hinput, Text.drop_bytes_append, ← h.start_eq]

theorem wellCut (h : lexeme.ReadBehind input before) : lexeme.token.WellCut input where
  pos hkind := by
    have hne := (h.scanned_of_kind rfl hkind).text_ne_nil
    exact Nat.lt_of_lt_of_le (List.length_pos_iff.2 hne) (Text.length_le_width _)
  endMarker hkind := by
    rcases h.scanned_or_endMarker with hscanned | rfl
    · exact absurd hkind hscanned.kind_ne_stop
    · rfl
  start := h.pointsInto.start
  stop := h.pointsInto.stop
  bytes := h.bytes
  charset hkind := by
    obtain ⟨inner, -, htext⟩ := (h.scanned_of_kind hkind (by decide)).text_of_globCharset hkind
    exact h.delimited htext rfl rfl (by simp [htext])
  singleQuoted hkind := by
    obtain ⟨inner, htext⟩ := (h.scanned_of_kind hkind (by decide)).text_of_singleQuoted hkind
    exact h.delimited htext rfl rfl (by simp [htext])
  assignmentLhs hkind := by
    obtain ⟨name, hne, -, htext⟩ :=
      (h.scanned_of_kind hkind (by decide)).text_of_assignmentLhs hkind
    have := List.length_pos_iff.2 hne
    have htext' : lexeme.text = [] ++ (name ++ ['=']) := htext
    exact h.delimited htext' rfl rfl (by simp [htext]; omega)
  unbracedParameter hkind := by
    obtain ⟨name, hne, htext⟩ :=
      (h.scanned_of_kind hkind (by decide)).text_of_unbracedParameter hkind
    have := List.length_pos_iff.2 hne
    have htext' : lexeme.text = ['$'] ++ (name ++ []) := by simp [htext]
    exact h.delimited htext' rfl rfl (by simp [htext]; omega)

end ReadBehind

end Lexeme

/-! ### Runs -/

namespace Scanner

variable {s s₁ last : Scanner} {tokens : List Token}

/-- A scanner has read some text of its input, and the rest is what it has left. -/
structure Splits (s : Scanner) (input : String) (before : List Char) : Prop where
  /-- The scanner works on the input. -/
  input_eq : s.input = input
  /-- What is read and what is left are the input. -/
  toList_eq : input.toList = before ++ s.rest
  /-- The token of the scanner stops where the rest starts. -/
  stop_eq : s.token.stop = Text.width before

theorem splits_ofString (input : String) : (ofString input).Splits input [] := ⟨rfl, rfl, rfl⟩

/-- Advancing moves a lexeme from the rest to what is read. -/
theorem Splits.advance (hs : s.Splits input before) (h : s.advance = .ok s₁) :
    ∃ lexeme : Lexeme, lexeme.ReadBehind input before ∧ s₁.token = lexeme.token ∧
      s₁.Splits input (before ++ lexeme.text) := by
  cases hread : Lexeme.read s.token.stop s.rest with
  | error error => simp [advance_of_read_eq_error hread] at h
  | ok lexeme =>
    obtain rfl := Except.ok.inj ((advance_of_read_eq_ok hread).symm.trans h)
    have hbehind : lexeme.ReadBehind input before := ⟨s.rest, hs.toList_eq, hs.stop_eq ▸ hread⟩
    refine ⟨lexeme, hbehind, rfl, hs.input_eq, ?_, ?_⟩
    · rw [List.append_assoc, Lexeme.text_append_drop_of_read hread, hs.toList_eq]
    · rw [Lexeme.stop_token, Lexeme.stop, hbehind.start_eq, Text.width_append]

/-- Where a scanner cannot advance, the rules find no token in the bytes of the input either. -/
theorem Splits.bytes_of_error (hs : s.Splits input before) {error : ScanError}
    (h : s.advance = .error error) :
    ∃ error', Rule.firstToken Rule.table s.token.stop ((Text.ofBytes input).drop s.token.stop) =
      .error error' := by
  cases hread : Lexeme.read s.token.stop s.rest with
  | ok lexeme => simp [advance_of_read_eq_ok hread] at h
  | error scanError =>
    have hbytes := Lexeme.firstToken_bytes s.token.stop s.token.stop s.rest
    rw [hread] at hbytes
    rwa [hs.stop_eq, Text.ofBytes_eq, hs.toList_eq, Text.drop_bytes_append, ← hs.stop_eq]

/-- The tokens of a run tile what the run reads of an input. -/
structure Tiled (input : String) (tokens : List Token) (last : Scanner) : Prop where
  /-- Each token starts where the one before stops, and the first one at the start. -/
  chain : (Token.endMarker 0 :: tokens).IsChain fun token next => next.start = token.stop
  /-- No token cuts a character. -/
  wellCut : ∀ token ∈ tokens, token.WellCut input
  /-- The texts of the tokens are the input up to where the scanner stands. -/
  text : ∃ rest, input.toList = tokens.flatMap (fun token => (token.text input).toList) ++ rest ∧
    Text.width (tokens.flatMap fun token => (token.text input).toList) = last.token.stop
  /-- Where the scanner fails, nothing can be found in the bytes of the input either. -/
  failed : ∀ error, last.advance = .error error → ∃ error', Rule.firstToken Rule.table
    last.token.stop ((Text.ofBytes input).drop last.token.stop) = .error error'

/-- What one step adds, a run adds up. -/
theorem Splits.reads (hs : s.Splits input before) (h : s.Reads tokens last) :
    (s.token :: tokens).IsChain (fun token next => next.start = token.stop) ∧
      (∀ token ∈ tokens, token.WellCut input) ∧
      last.Splits input (before ++ tokens.flatMap fun token => (token.text input).toList) := by
  induction h generalizing before with
  | nil => exact ⟨.singleton _, by simp, by simpa using hs⟩
  | @cons s s₁ last tokens hadvance _ ih =>
    obtain ⟨lexeme, hbehind, htoken, hs₁⟩ := hs.advance hadvance
    obtain ⟨hchain, hcut, hlast⟩ := ih hs₁
    refine ⟨.cons_cons ?_ hchain, List.forall_mem_cons.2 ⟨htoken ▸ hbehind.wellCut, hcut⟩, ?_⟩
    · rw [htoken, hs.stop_eq]
      exact hbehind.start_eq
    · rwa [List.flatMap_cons, htoken, hbehind.text_token, ← List.append_assoc]

/-- All tokens of an input are read by a run, and of these only the last is an end marker. -/
theorem reads_of_tokenize {all : List Token} (h : tokenize input = .ok all) :
    ∃ front position last, all = front ++ [.endMarker position] ∧
      (∀ token ∈ front, token.kind ≠ .stop) ∧ (ofString input).Reads all last := by
  obtain ⟨position, hstream, rfl⟩ := TokenStream.eq_prepend_finished h
  have hfollows := follows_ofString input
  have htiles := TokenStream.tiles_ofText 0 input.toList
  rw [hstream] at hfollows
  rw [← TokenStream.ofString, hstream] at htiles
  obtain ⟨s, hreads, hs⟩ := hfollows.reads
  obtain ⟨last, hadvance, hlast⟩ := hs.advance_finished
  refine ⟨_, position, last, rfl, fun token hmem => ?_, hreads.trans ?_⟩
  · obtain ⟨lexeme, hlexeme, rfl⟩ := List.mem_map.1 hmem
    exact (htiles.scanned lexeme hlexeme).kind_ne_stop
  · exact hlast ▸ .cons hadvance (.nil last)

end Scanner

/-- **Tokens tile every input and cut no character.** However often the scanner advances, its
tokens are well cut and follow each other from the start of the input, and their texts are what
has been read. When the whole input can be cut into tokens, these are such a run, and the only
end marker is the last of them, at the end of the input. -/
theorem tiled_of_reads (input : String) :
    (∀ tokens last, (Scanner.ofString input).Reads tokens last →
      Scanner.Tiled input tokens last) ∧
    ∀ all, tokenize input = .ok all →
      (∃ last, (Scanner.ofString input).Reads all last) ∧
      ∃ front, all = front ++ [.endMarker input.utf8ByteSize] ∧
        ∀ token ∈ front, token.kind ≠ .stop := by
  have hrun {tokens : List Token} {last : Scanner}
      (h : (Scanner.ofString input).Reads tokens last) : Scanner.Tiled input tokens last := by
    obtain ⟨hchain, hcut, hlast⟩ := (Scanner.splits_ofString input).reads h
    exact ⟨hchain, hcut, ⟨last.rest, hlast.toList_eq, hlast.stop_eq.symm⟩,
      fun error herror => hlast.bytes_of_error herror⟩
  refine ⟨fun tokens last h => hrun h, fun all h => ?_⟩
  obtain ⟨front, position, last, rfl, hfront, hreads⟩ := Scanner.reads_of_tokenize h
  have hend := ((hrun hreads).wellCut _ (List.mem_append_right _ List.mem_cons_self)).endMarker rfl
  exact ⟨⟨last, hreads⟩, front, by rw [hend], hfront⟩

/-- The tokens of ``\é'ü'[ö]x=$y``, where a character of two bytes is escaped. -/
def escapedTokens : List Token :=
  [⟨.raw, 0, 3⟩, ⟨.singleQuoted, 3, 4⟩, ⟨.globCharset, 7, 4⟩, ⟨.assignmentLhs, 11, 2⟩,
    ⟨.unbracedParameter, 13, 2⟩, .endMarker 15]

theorem tiled_escapedTokens :
    tokenize "\\é'ü'[ö]x=$y" = .ok escapedTokens ∧
      ∃ last, (Scanner.ofString "\\é'ü'[ö]x=$y").Reads escapedTokens last ∧
        Scanner.Tiled "\\é'ü'[ö]x=$y" escapedTokens last := by
  have htokens : tokenize "\\é'ü'[ö]x=$y" = .ok escapedTokens := by decide +kernel
  obtain ⟨hrun, hall⟩ := tiled_of_reads "\\é'ü'[ö]x=$y"
  obtain ⟨⟨last, hreads⟩, -⟩ := hall _ htokens
  exact ⟨htokens, last, hreads, hrun _ _ hreads⟩

end CommandSyntax
