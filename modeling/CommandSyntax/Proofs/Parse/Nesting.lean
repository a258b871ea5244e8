import CommandSyntax.Proofs.Parse.Finality
import CommandSyntax.Proofs.Parse.Reporting

/-!
# CommandSyntax.Proofs.Parse.Nesting

**The limit on nesting only cuts** (`parse_of_nesting_le`). A tree that is parsed under a limit
is parsed under every larger one, and it is no deeper than the limit, so that validation with
the same limit has nothing to say against its nesting. Any other error than that of the limit
stays as it is, and that one is told with what opens the substitution.

The parse under the larger limit follows the parse under the smaller one on the same stream
(`deepening`); only where the levels of the smaller one run out nobody follows. The depth is
counted along the nodes of the tree: a level is used up below a substitution, and there only
(`Node.GivenBy.child`).
-/

namespace CommandSyntax

open Production Cursor

variable {n m : Nat} {s : String}

/-! ### A larger limit -/

/-- The parse under a larger limit follows the parse under a limit. -/
def deepening (limit : Nat) : Simulation where
  shift := 0
  extra := 0
  last := .stop
  ticks := true
  Along stream stream' := stream' = stream
  Astray _ := False
  Lost error := ∃ span, error = .nestingTooDeep limit span
  stops_last := stops_stop
  along_next := by
    rintro lexeme rest _ rfl
    refine ⟨rest, rfl, fun error hfailed => .inr ?_, fun hrest => ⟨hrest, .inl rfl⟩⟩
    rw [hfailed, ScanError.shift_zero]
  along_finished := fun h => .inl ⟨rfl, h⟩
  astray_next := False.elim
  lost_of_astray_next := fun h => h.elim
  lost_of_astray_finished := fun h => h.elim
  lost_of_last := fun h => absurd rfl h
  ticks_of_backtick := fun _ _ => rfl

theorem inStep_deepening {c : Cursor} (hc : c.Placed) : (deepening n).InStep c c where
  placed := hc
  placed' := hc
  lastEnd_eq := rfl
  size_eq := rfl
  along := rfl

/-- Under a larger limit a parse goes as before, unless the limit ended it. -/
theorem parse_of_le (hle : n ≤ m) (s : String) :
    parse ⟨m⟩ s = parse ⟨n⟩ s ∨ ∃ span, parse ⟨n⟩ s = .error (.nestingTooDeep n span) := by
  rcases opens_or_failed s with ⟨c, hopens⟩ | ⟨error, hfailed, -⟩
  · have hfollows : (deepening n).Follows _ (scriptToEnd n) (scriptToEnd m) :=
      Simulation.follows_scriptToEnd rfl (.inr ⟨hle, fun span => ⟨span, rfl⟩⟩)
    have hstep : (deepening n).InStep c c := inStep_deepening hopens.placed
    rw [parse_of_opens hopens, parse_of_opens hopens]
    cases hscript : scriptToEnd n c with
    | ok body last =>
      rcases hfollows.eq_ok hstep hscript with hstrays | ⟨last', hscript', -⟩
      · exact hstrays.astray.elim
      · have hmove : Script.mapSpans (deepening n).move body = body := body.mapSpans_id
        rw [hmove] at hscript'
        simp only [hscript', true_or]
    | error error last =>
      rcases hfollows.eq_error hstep hscript with ⟨span, rfl⟩ | ⟨last', hscript'⟩
      · exact .inr ⟨span, rfl⟩
      · left
        simp only [hscript', deepening, SyntaxError.shift_zero]
  · exact .inl (by rw [parse_of_failed hfailed, parse_of_failed hfailed])

/-! ### The depth of a parsed tree -/

/-- A node that is given with some levels left is no deeper than these. -/
theorem Node.GivenBy.substitutionDepth_le {limit levels : Nat} {inBackticks : Bool}
    {c c' : Cursor} {node : Node} (hc : c.Placed)
    (h : node.GivenBy (levelContext limit inBackticks levels) c c') :
    node.substitutionDepth ≤ levels := by
  induction node using Node.induction generalizing levels inBackticks c c' with
  | step node ih =>
    refine Node.substitutionDepth_le_iff.2 ⟨?_, fun child hchild => ?_⟩
    · cases node with
      | substitution body =>
        obtain ⟨quoted, hpart⟩ := h
        obtain ⟨levels', -, -, -, hlevels, -⟩ := scriptIn_of_part?_eq_some hc hpart
        simp only [kind, if_true]
        omega
      | _ => simp [kind]
    · obtain ⟨levels', inBackticks', d, d', hlevels, hd, -, hgiven⟩ := h.child hc child hchild
      have := ih child hchild (hd.placed hc) hgiven
      omega

theorem substitutionDepth_le_of_parse {limits : ParseLimits} {body : Script}
    (h : parse limits s = .ok body) : body.substitutionDepth ≤ limits.nesting := by
  obtain ⟨c, last, hopens, hscript, -⟩ := parse_eq_ok_iff.1 h
  rw [script_eq_scriptIn] at hscript
  have hgiven : (Node.script body).GivenBy
      (levelContext limits.nesting false limits.nesting) c last := hscript
  exact hgiven.substitutionDepth_le hopens.placed

/-! ### The error of the limit -/

/-- A token with which a substitution starts. -/
def Token.OpensSubstitution (token : Token) (input : String) : Prop :=
  token.kind = .startSubstitution ∧ token.text input = "$(" ∨
    token.kind = .backtick ∧ token.text input = "\x60"

/-- A lexeme that has been passed opens a substitution if it is of a kind that does. -/
theorem Cursor.Opens.opensSubstitution {c last : Cursor} {lexemes : List Lexeme}
    (hopens : c.Opens s) (hpasses : c.Passes lexemes last) {opener : Lexeme}
    (hmem : opener ∈ lexemes)
    (hkind : opener.kind = .startSubstitution ∨ opener.kind = .backtick) :
    opener.token.OpensSubstitution s := by
  have hscanned := hpasses.scanned hopens.placed opener hmem
  obtain ⟨front, back, rfl⟩ := List.append_of_mem hmem
  have htext := TokenStream.text_token_of_ofString (hopens.stream_of_passes hpasses)
  rcases hkind with hkind | hkind
  · exact .inl ⟨hkind, by rw [htext, hscanned.text_of_startSubstitution hkind]⟩
  · exact .inr ⟨hkind, by rw [htext, hscanned.text_of_backtick hkind]⟩

/-- The limit ends a parse at a token that the scanner reads and that opens a substitution. -/
theorem opener_of_nestingTooDeep {limits : ParseLimits} {limit : Nat} {span : Span}
    (h : parse limits s = .error (.nestingTooDeep limit span)) :
    limit = limits.nesting ∧ ∃ tokens scanner, (Scanner.ofString s).Reads tokens scanner ∧
      ∃ token ∈ tokens, token.OpensSubstitution s ∧ token.span = span := by
  rcases notices_of_parse h with ⟨_, -, hscan⟩ | ⟨c, lexemes, last, hopens, hpasses, hnotices⟩
  · simp at hscan
  · obtain ⟨scanner, hreads, -⟩ := reads_of_passes hopens hpasses
    cases hnotices with
    | @nestingTooDeep opener hmem hkind =>
      exact ⟨rfl, _, scanner, hreads, opener.token,
        List.mem_append_left _ (List.mem_map_of_mem hmem),
        hopens.opensSubstitution hpasses hmem hkind, rfl⟩

/-! ### The limit only cuts -/

/-- **The limit on nesting only cuts.** -/
theorem parse_of_nesting_le (hle : n ≤ m) (s : String) :
    match parse ⟨n⟩ s with
    | .ok body =>
      parse ⟨m⟩ s = .ok body ∧ body.substitutionDepth ≤ n ∧
        ∀ rules : Rules, rules.nesting = n → ∀ depth limit span,
          .excessiveNesting depth limit span ∉ body.violations rules
    | .error (.nestingTooDeep limit span) =>
      limit = n ∧ ∃ tokens scanner, (Scanner.ofString s).Reads tokens scanner ∧
        ∃ token ∈ tokens, token.OpensSubstitution s ∧ token.span = span
    | .error error => parse ⟨m⟩ s = .error error := by
  have hdeeper := parse_of_le hle s
  cases h : parse ⟨n⟩ s with
  | ok body =>
    have hdepth : body.substitutionDepth ≤ n := substitutionDepth_le_of_parse h
    refine ⟨by simpa [h] using hdeeper, hdepth, fun rules hrules depth limit span => ?_⟩
    refine Node.excessiveNesting_not_mem ?_ depth limit span
    rw [hrules]
    exact Nat.le_trans (Nat.le_of_eq (Nat.zero_add _)) hdepth
  | error error =>
    cases error with
    | nestingTooDeep limit span => exact opener_of_nestingTooDeep h
    | _ => simpa [h] using hdeeper

/-- The script of ``$(a)`b` ``, in which two substitutions stand side by side. -/
def siblingsScript : Script :=
  ⟨[⟨⟨[⟨[], [⟨[.substitution ⟨[⟨⟨[⟨[], [⟨[.literal "a"], ⟨2, 3⟩⟩], none, none, none, ⟨2, 3⟩⟩],
          ⟨2, 3⟩⟩, false, ⟨2, 3⟩⟩], ⟨2, 3⟩⟩,
        .substitution ⟨[⟨⟨[⟨[], [⟨[.literal "b"], ⟨5, 6⟩⟩], none, none, none, ⟨5, 6⟩⟩],
          ⟨5, 6⟩⟩, false, ⟨5, 6⟩⟩], ⟨5, 6⟩⟩], ⟨0, 7⟩⟩], none, none, none, ⟨0, 7⟩⟩],
      ⟨0, 7⟩⟩, false, ⟨0, 7⟩⟩], ⟨0, 7⟩⟩

/-- One level is enough for both, and more levels change nothing; inside each other they need
two. -/
theorem parse_siblingsScript :
    (1 ≤ 3 ∧ parse ⟨1⟩ "$(a)\x60b\x60" = .ok siblingsScript ∧
      parse ⟨3⟩ "$(a)\x60b\x60" = .ok siblingsScript ∧ siblingsScript.substitutionDepth ≤ 1 ∧
        ∀ depth limit span,
          .excessiveNesting depth limit span ∉ siblingsScript.violations ⟨1, true, true⟩) ∧
      parse ⟨1⟩ "$(a\x60b\x60)" = .error (.nestingTooDeep 1 ⟨3, 4⟩) ∧
        ∃ tokens scanner, (Scanner.ofString "$(a\x60b\x60)").Reads tokens scanner ∧
          ∃ token ∈ tokens, token.OpensSubstitution "$(a\x60b\x60)" ∧ token.span = ⟨3, 4⟩ := by
  have hbeside : parse ⟨1⟩ "$(a)\x60b\x60" = .ok siblingsScript := by decide +kernel
  have hinside : parse ⟨1⟩ "$(a\x60b\x60)" = .error (.nestingTooDeep 1 ⟨3, 4⟩) := by decide +kernel
  have hcuts := parse_of_nesting_le (show 1 ≤ 3 by decide) "$(a)\x60b\x60"
  have hends := parse_of_nesting_le (show 1 ≤ 3 by decide) "$(a\x60b\x60)"
  rw [hbeside] at hcuts
  rw [hinside] at hends
  obtain ⟨hdeeper, hdepth, hvalid⟩ := hcuts
  exact ⟨⟨by decide, hbeside, hdeeper, hdepth, hvalid _ rfl⟩, hinside, hends.2⟩

end CommandSyntax
