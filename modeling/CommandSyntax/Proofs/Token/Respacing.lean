import CommandSyntax.Proofs.Token.Layout

/-!
# CommandSyntax.Proofs.Token.Respacing

**The same lexemes with another layout.** What is opened in front of a place and not closed there
(`Frame`) tells whether the place is open to blanks, and the lexeme in front of it whether blanks
matter (`Place`). Next to a separator and at the borders of an input they do not.

Streams are `Respaced` when their lexemes are the same, but for blanks that only the second one has
in such places, and for the text of whitespace and of the ends of statements wherever the layout is
open. Behind its blanks the second stream goes on with a lexeme of the same kind
(`exists_aligned`), so that whoever skips blanks meets the same lexemes in both.
-/

namespace CommandSyntax

variable {last : List Frame → Prop} {place : Place} {frames : List Frame}
  {loose quoted inBackticks : Bool} {kind : TokenKind} {lexeme : Lexeme}
  {stream stream' rest : TokenStream}

/-! ### What stands around a lexeme -/

/-- What lexemes can stand inside of. -/
inductive Frame where
  /-- Double quotes. -/
  | quotes
  /-- The braces of a parameter. -/
  | braces
  /-- The parentheses of a substitution. -/
  | parentheses
  /-- The backticks of a substitution. -/
  | backticks
deriving DecidableEq, Repr

namespace Frame

/-- The kind of the lexeme that ends a frame. -/
def closer : Frame → TokenKind
  | quotes => .doubleQuote
  | braces => .rightBrace
  | parentheses => .rightParen
  | backticks => .backtick

/-- The frame that a lexeme of a kind begins. -/
def ofOpener? : TokenKind → Option Frame
  | .doubleQuote => some quotes
  | .startExpansion => some braces
  | .startSubstitution => some parentheses
  | .backtick => some backticks
  | _ => none

/-- The frames behind a lexeme of a kind by those in front of it, the innermost first. Between
the braces of a parameter only the closing one counts. -/
def pass (frames : List Frame) (kind : TokenKind) : List Frame :=
  match frames with
  | [] => (ofOpener? kind).toList
  | frame :: outer =>
    if kind = frame.closer then outer
    else if frame = braces then frames
    else (ofOpener? kind).toList ++ frames

/-- Whether the innermost frame leaves the layout open: it is no double quotes and no braces. -/
def isOpen : List Frame → Bool
  | .quotes :: _ | .braces :: _ => false
  | _ => true

/-- The frames of a place inside or outside double quotes. -/
def within (quoted : Bool) (frames : List Frame) : List Frame :=
  if quoted then .quotes :: frames else frames

/-- A script goes on in an open place, and outside of backticks a backtick opens one more. -/
structure Suits (inBackticks : Bool) (frames : List Frame) : Prop where
  /-- The innermost frame is no double quotes and no braces. -/
  isOpen_eq : isOpen frames = true
  /-- Only a script in backticks has backticks around it. -/
  notMem : inBackticks = false → .backticks ∉ frames

/-- A whole input goes on where nothing is open. -/
theorem Suits.nil : Suits false [] := ⟨rfl, by simp⟩

/-- A script in parentheses goes on in an open place too. -/
theorem Suits.parentheses (h : Suits inBackticks frames) :
    Suits inBackticks (.parentheses :: within quoted frames) where
  isOpen_eq := rfl
  notMem hticks := by
    have := h.notMem hticks
    cases quoted <;> simpa [within] using this

/-- The kinds of lexemes that open or close something. -/
def brackets : List TokenKind :=
  [.doubleQuote, .startExpansion, .rightBrace, .startSubstitution, .rightParen, .backtick]

theorem pass_of_notMem (h : kind ∉ brackets) (frames : List Frame) : pass frames kind = frames := by
  have hopener : ofOpener? kind = none := by
    cases kind <;> simp_all [brackets, ofOpener?]
  have hcloser (frame : Frame) : kind ≠ frame.closer := by
    rintro rfl
    cases frame <;> simp [brackets, closer] at h
  cases frames with
  | nil => simp [pass, hopener]
  | cons frame outer => simp [pass, hopener, hcloser]

/-- Between braces only the closing one counts. -/
theorem pass_braces (h : kind ≠ .rightBrace) (outer : List Frame) :
    pass (.braces :: outer) kind = .braces :: outer := by
  simp [pass, closer, h]

theorem pass_closer (frame : Frame) (outer : List Frame) :
    pass (frame :: outer) frame.closer = outer :=
  if_pos rfl

/-- Double quotes lead into a quotation and out of it. -/
theorem pass_doubleQuote (h : isOpen frames = true) (quoted : Bool) :
    pass (within quoted frames) .doubleQuote = within (!quoted) frames := by
  cases quoted with
  | true => rfl
  | false =>
    cases frames with
    | nil => rfl
    | cons frame outer => cases frame <;> simp_all [isOpen, pass, within, closer, ofOpener?]

/-- Other opening lexemes lead further in, wherever a word can stand. -/
theorem pass_opener {frame : Frame} (h : isOpen frames = true)
    (hframe : ofOpener? kind = some frame) (hquote : kind ≠ .doubleQuote)
    (htick : kind = .backtick → .backticks ∉ frames) (quoted : Bool) :
    pass (within quoted frames) kind = frame :: within quoted frames := by
  cases quoted with
  | true => simp [within, pass, closer, hframe, hquote]
  | false =>
    cases frames with
    | nil => simp [within, pass, hframe]
    | cons outermost outer =>
      have hcloser : kind ≠ outermost.closer := by
        rintro rfl
        cases outermost <;> simp [isOpen, closer, ofOpener?] at h hframe htick
      have hbraces : outermost ≠ .braces := by
        rintro rfl
        simp [isOpen] at h
      simp [within, pass, hframe, hcloser, hbraces]

theorem eq_false_of_isOpen_within (h : isOpen (within quoted frames) = true) : quoted = false := by
  cases quoted with
  | true => simp [within, isOpen] at h
  | false => rfl

end Frame

/-- The kinds of lexemes around which there may be blanks or none. -/
def separators : List TokenKind :=
  [.pipe, .background, .readRedirect, .writeRedirect, .appendRedirect, .statementEnd]

/-- Whether a kind is that of a separator, or of the end of the input. -/
def isBorder (kind : TokenKind) : Bool := kind == .stop || separators.contains kind

/-- What is known of a place between two lexemes by those in front of it. -/
structure Place where
  /-- The frames around it, the innermost first. -/
  frames : List Frame
  /-- Whether it is the start of the input or stands right behind a separator. -/
  loose : Bool
deriving DecidableEq, Repr

namespace Place

/-- The start of an input. -/
def start : Place := ⟨[], true⟩

/-- The place behind a lexeme of a kind. -/
def pass (place : Place) (kind : TokenKind) : Place :=
  ⟨Frame.pass place.frames kind, separators.contains kind⟩

/-- Blanks that are put in front of a lexeme of a kind, or none. -/
def Spaces (place : Place) (kind : TokenKind) (blanks : List Lexeme) : Prop :=
  blanks = [] ∨
    Frame.isOpen place.frames = true ∧ (∀ blank ∈ blanks, blank.kind = .whitespace) ∧
      kind ≠ .whitespace ∧ (place.loose = true ∨ isBorder kind = true)

end Place

/-! ### Streams -/

/-- Lexemes that are written in the same way, unless they belong to the layout. -/
structure Lexeme.Alike (lexeme : Lexeme) (frames : List Frame) (lexeme' : Lexeme) : Prop where
  /-- They are of the same kind. -/
  kind_eq : lexeme'.kind = lexeme.kind
  /-- They have the same text, but for blanks and the ends of statements in an open place. -/
  text_eq : (Frame.isOpen frames = true → lexeme.kind ∉ [.whitespace, .statementEnd]) →
    lexeme'.text = lexeme.text

namespace TokenStream

/-- The lexemes of the second stream are those of the first with another layout. What holds at
the end of the streams is left open. -/
inductive Respaced (last : List Frame → Prop) : Place → TokenStream → TokenStream → Prop
  /-- Both streams end. -/
  | finished {place : Place} {p q : Nat} {blanks : List Lexeme} (hlast : last place.frames)
      (hblanks : place.Spaces .stop blanks) :
      Respaced last place (.finished p) (prepend blanks (.finished q))
  /-- A lexeme comes next in both. -/
  | next {place : Place} {lexeme lexeme' : Lexeme} {rest rest' : TokenStream}
      {blanks : List Lexeme} (hblanks : place.Spaces lexeme.kind blanks)
      (halike : lexeme.Alike place.frames lexeme')
      (hrest : Respaced last (place.pass lexeme.kind) rest rest') :
      Respaced last place (.next lexeme rest) (prepend blanks (.next lexeme' rest'))

/-- The kind of the first lexeme of a stream, or that of the end. -/
def headKind : TokenStream → TokenKind
  | next lexeme _ => lexeme.kind
  | _ => .stop

namespace Respaced

/-- Streams that end with no blanks between. -/
theorem finished_alike (hlast : last frames) (p q : Nat) :
    Respaced last ⟨frames, loose⟩ (.finished p) (.finished q) :=
  @finished last ⟨frames, loose⟩ p q [] hlast (.inl rfl)

/-- Streams that go on with no blanks between. -/
theorem next_alike {lexeme' : Lexeme} {rest' : TokenStream}
    (halike : lexeme.Alike place.frames lexeme')
    (hrest : Respaced last (place.pass lexeme.kind) rest rest') :
    Respaced last place (.next lexeme rest) (.next lexeme' rest') :=
  @next last place lexeme lexeme' rest rest' [] (.inl rfl) halike hrest

theorem ne_failed (h : Respaced last place stream stream') (error : ScanError) :
    stream' ≠ .failed error := by
  rintro rfl
  generalize hstream' : TokenStream.failed error = stream' at h
  cases h with
  | @finished _ _ _ blanks | @next _ _ _ _ _ blanks => cases blanks <;> simp at hstream'

/-- Behind its blanks the second stream begins with a lexeme of the same kind. -/
theorem exists_aligned (h : Respaced last place stream stream') :
    ∃ blanks stream₁, stream' = prepend blanks stream₁ ∧ place.Spaces stream.headKind blanks ∧
      Respaced last ⟨place.frames, false⟩ stream stream₁ ∧
      stream₁.headKind = stream.headKind := by
  cases h with
  | @finished _ p q blanks hlast hblanks =>
    exact ⟨blanks, .finished q, rfl, hblanks, finished_alike hlast p q, rfl⟩
  | @next _ lexeme lexeme' rest rest' blanks hblanks halike hrest =>
    exact ⟨blanks, .next lexeme' rest', rfl, hblanks, next_alike halike hrest, halike.kind_eq⟩

theorem of_finished {p : Nat} (h : Respaced last place (.finished p) stream')
    (hkind : stream'.headKind = .stop) : last place.frames := by
  cases h with
  | finished hlast => exact hlast

theorem of_next (h : Respaced last place (.next lexeme rest) stream')
    (hkind : stream'.headKind = lexeme.kind) :
    ∃ lexeme' rest', stream' = .next lexeme' rest' ∧ lexeme.Alike place.frames lexeme' ∧
      Respaced last (place.pass lexeme.kind) rest rest' := by
  cases h with
  | @next _ _ lexeme' _ rest' blanks hblanks halike hrest =>
    cases blanks with
    | nil => exact ⟨lexeme', rest', rfl, halike, hrest⟩
    | cons blank blanks =>
      rcases hblanks with hnil | ⟨-, hblank, hne, -⟩
      · simp at hnil
      · exact absurd (hkind.symm.trans (hblank blank (by simp))) hne

/-- It matters only in an open place whether it is right behind a separator. -/
theorem mono (h : Respaced last ⟨frames, loose⟩ stream stream') {loose' : Bool}
    (hloose : Frame.isOpen frames = true → loose = true → loose' = true) :
    Respaced last ⟨frames, loose'⟩ stream stream' := by
  have hspaces {kind : TokenKind} {blanks : List Lexeme}
      (h : Place.Spaces ⟨frames, loose⟩ kind blanks) : Place.Spaces ⟨frames, loose'⟩ kind blanks :=
    h.imp_right fun ⟨hopen, hblank, hne, hborder⟩ =>
      ⟨hopen, hblank, hne, hborder.imp_left (hloose hopen)⟩
  cases h with
  | finished hlast hblanks => exact .finished hlast (hspaces hblanks)
  | next hblanks halike hrest =>
    exact .next (hspaces hblanks) halike hrest

end Respaced

end TokenStream

end CommandSyntax
