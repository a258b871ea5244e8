import CommandSyntax.Proofs.Grammar.Framing
import CommandSyntax.Proofs.Parse.Trace
import CommandSyntax.Script.Equality

/-!
# CommandSyntax.Proofs.Parse.Placement

**Parsed trees are placed well.** In every tree that a parse gives, spans start and end with
tokens, nodes are inside of those above them, and what stands side by side is in order and does
not overlap (`wellPlaced_of_parse`).

Every node comes from a production that is run between two cursors (`given_of_mem_nodes`), so
each fact is one case for each type of node, from the framing of its production.
-/

namespace CommandSyntax

open Production Cursor

/-! ### The nodes of a tree -/

section

variable {limit levels : Nat} {inBackticks : Bool} {c c' : Cursor} {node : Node}

/-- The script of a substitution is inside of the part that holds it. -/
theorem within_of_substitution (hc : c.Marked) {quoted : Bool} {body : Script}
    (h : part? (levelContext limit inBackticks levels) quoted c =
      .ok (some (.substitution body)) c') :
    body.span.Within ⟨c.current.start, c'.lastEnd⟩ := by
  obtain ⟨levels, inBackticks, d, d', -, hopener, hbody, hkind, hcloser⟩ :=
    scriptIn_of_part?_eq_some hc.placed h
  have hcontext := levelContext_orderly limit levels inBackticks
  have hd := hc.reaches hopener.reaches
  have hd' : d.Reaches d' := (orderly_scriptIn hcontext hd.placed).passes hbody
  have hmarked := hd.reaches hd'
  have hstart := hc.start_mono hopener.reaches
  -- the closing bracket is noted
  have hclosed : d'.current.start ≤ c'.lastEnd := by
    have hlast : d'.Passes ([] ++ [d'.current]) c' := hcloser
    rw [hlast.lastEnd_eq hmarked.placed hkind]
    exact hmarked.start_mono hcloser.reaches
  have hframed := (framed_of_scriptIn hcontext hd hbody).1
  cases hempty : body.isEmpty with
  | true =>
    rw [hempty, if_pos rfl] at hframed
    rw [hframed]
    exact ⟨hstart, Nat.le_trans (hd.start_mono hd') hclosed⟩
  | false =>
    rw [hempty, if_neg (by simp)] at hframed
    refine ⟨Nat.le_trans hstart (hframed.start_le hd), Nat.le_trans (hframed.stop_le hd) ?_⟩
    exact Nat.le_trans hmarked.lastEnd_le hclosed

/-- A script without statements has no bytes and stands inside the input, and any other is
framed. -/
theorem framed_of_script (hc : c.Marked) {body : Script}
    (h : scriptIn (levelContext limit inBackticks levels) c = .ok body c') :
    if body.isEmpty then body.span.isEmpty ∧ body.span.stop ≤ c.size
      else c.Frames c' body.span := by
  have hframed := (framed_of_scriptIn (levelContext_orderly limit levels inBackticks) hc h).1
  cases hempty : body.isEmpty with
  | true =>
    rw [hempty, if_pos rfl] at hframed
    rw [if_pos rfl, hframed]
    exact ⟨by simp, hc.placed.start_le_size⟩
  | false => simpa [hempty] using hframed

theorem Node.GivenBy.framed (hc : c.Marked)
    (h : node.GivenBy (levelContext limit inBackticks levels) c c') :
    ∀ span ∈ node.span?, if node.isBlank then span.isEmpty ∧ span.stop ≤ c.size
      else c.Frames c' span := by
  have hcontext := levelContext_orderly limit levels inBackticks
  intro span hspan
  cases node with
  | part | glob => simp [span?] at hspan
  | script body =>
    obtain rfl := Option.some.inj hspan
    exact framed_of_script hc h
  | substitution body =>
    obtain rfl := Option.some.inj hspan
    obtain ⟨quoted, hpart⟩ := h
    obtain ⟨levels, inBackticks, d, d', -, hopener, hbody, -, hcloser⟩ :=
      scriptIn_of_part?_eq_some hc.placed hpart
    have hframed := framed_of_script (hc.reaches hopener.reaches) hbody
    rw [hopener.size_eq hc.placed] at hframed
    change if body.isEmpty then _ else _
    cases hempty : body.isEmpty with
    | true =>
      rw [hempty, if_pos rfl] at hframed
      rw [if_pos rfl]
      exact hframed
    | false =>
      rw [hempty, if_neg (by simp)] at hframed
      rw [if_neg (by simp)]
      exact hframed.reaches hopener.reaches hcloser.reaches
  | statement =>
    obtain rfl := Option.some.inj hspan
    exact (framed_of_statement? hcontext hc h).1
  | pipeline =>
    obtain rfl := Option.some.inj hspan
    exact (framed_of_pipeline? hcontext hc h).2.1
  | command =>
    obtain rfl := Option.some.inj hspan
    obtain ⟨c₁, hskip, -, -, hframes⟩ := framed_of_command? hcontext hc h
    exact hframes.reaches hskip.reaches (.refl c')
  | assignment =>
    obtain rfl := Option.some.inj hspan
    exact frames_of_assignment hcontext hc h
  | word =>
    obtain rfl := Option.some.inj hspan
    exact frames_of_word? hcontext hc h

theorem Node.GivenBy.nests (hc : c.Marked)
    (h : node.GivenBy (levelContext limit inBackticks levels) c c') : node.Nests := by
  have hcontext := levelContext_orderly limit levels inBackticks
  intro child hchild outer houter inner hinner
  cases node with
  | glob => simp [children] at hchild
  | script body =>
    obtain ⟨statement, hbelow, rfl⟩ := List.mem_map.1 hchild
    obtain rfl := Option.some.inj houter
    obtain rfl := Option.some.inj hinner
    exact (framed_of_scriptIn hcontext hc h).2 statement hbelow
  | statement =>
    obtain rfl := List.mem_singleton.1 hchild
    obtain rfl := Option.some.inj houter
    obtain rfl := Option.some.inj hinner
    exact (framed_of_statement? hcontext hc h).2
  | pipeline =>
    obtain ⟨command, hbelow, rfl⟩ := List.mem_map.1 hchild
    obtain rfl := Option.some.inj houter
    obtain rfl := Option.some.inj hinner
    exact (framed_of_pipeline? hcontext hc h).2.2 command hbelow
  | command command =>
    obtain rfl := Option.some.inj houter
    obtain ⟨c₁, hskip, hframed, hspan, -⟩ := framed_of_command? hcontext hc h
    have hc₁ := hc.reaches hskip.reaches
    have hmem : inner ∈ command.pieces ++ command.targets.map Word.span := by
      rw [Command.pieces, List.append_assoc, ← List.map_append]
      rcases List.mem_append.1 hchild with hchild | hchild
      · obtain ⟨assignment, hbelow, rfl⟩ := List.mem_map.1 hchild
        obtain rfl := Option.some.inj hinner
        exact List.mem_append_left _ (List.mem_map_of_mem hbelow)
      · obtain ⟨word, hbelow, rfl⟩ := List.mem_map.1 hchild
        obtain rfl := Option.some.inj hinner
        exact List.mem_append_right _ (List.mem_map_of_mem hbelow)
    rw [hspan]
    have hframes := hframed.frames inner hmem
    exact ⟨hframes.start_le hc₁, hframes.stop_le hc₁⟩
  | assignment =>
    obtain ⟨word, hbelow, rfl⟩ := List.mem_map.1 hchild
    obtain rfl := Option.some.inj houter
    obtain rfl := Option.some.inj hinner
    exact within_of_assignment hcontext hc h word (by simpa using hbelow)
  | word word =>
    obtain ⟨part, hbelow, rfl⟩ := List.mem_map.1 hchild
    obtain rfl := Option.some.inj houter
    cases part with
    | literal | parameter | glob => simp [outline?, span?] at hinner
    | substitution body =>
      obtain rfl := Option.some.inj hinner
      obtain ⟨quoted, d, d', hd, hd', hpart⟩ :=
        part_of_word? hcontext hc.placed h _ hbelow
      have hmarked := hc.reaches hd
      have hreaches : d.Reaches d' := (orderly_part? hcontext quoted hmarked.placed).passes hpart
      rw [((word?_eq_some_iff hcontext hc.placed).1 h).2.2]
      refine (within_of_substitution hmarked hpart).trans ⟨hc.start_mono hd, ?_⟩
      exact (hmarked.reaches hreaches).lastEnd_mono hd'
  | part part =>
    cases part with
    | literal | parameter => simp [children] at hchild
    | glob => simp [outline?, span?] at houter
    | substitution =>
      obtain rfl := List.mem_singleton.1 hchild
      obtain rfl := Option.mem_unique houter hinner
      exact .refl _
  | substitution =>
    obtain rfl := List.mem_singleton.1 hchild
    obtain rfl := Option.mem_unique houter hinner
    exact .refl _

theorem Node.GivenBy.ordered (hc : c.Marked)
    (h : node.GivenBy (levelContext limit inBackticks levels) c c') : node.Ordered := by
  have hcontext := levelContext_orderly limit levels inBackticks
  cases node with
  | script => exact (framesInOrder_of_scriptIn hcontext hc h).pairwise
  | pipeline => exact (framed_of_pipeline? hcontext hc h).1.pairwise
  | command =>
    obtain ⟨_, -, hframed, -, -⟩ := framed_of_command? hcontext hc h
    exact ⟨hframed.pieces.pairwise, hframed.disjoint⟩
  | _ => trivial

end

/-! ### Parsed trees -/

/-- What is framed in the course of a whole parse reaches from a token to a token. -/
theorem Cursor.Frames.aligned {c last : Cursor} {lexemes : List Lexeme} {tokens : List Token}
    {span : Span} (h : c.Frames last span) (hc : c.Marked) (hpasses : c.Passes lexemes last)
    (htokens : ∀ lexeme ∈ lexemes, lexeme.token ∈ tokens) : span.Aligned tokens := by
  obtain ⟨lexemes', hpasses', ⟨first, hfirst, hstart⟩, final, hfinal, hstop⟩ := h.exists_passes
  obtain rfl := hpasses.unique hpasses' hc.placed
  have hne := hpasses.kind_ne_stop
  exact ⟨⟨_, htokens first hfirst, hstart.1, hne first hfirst, hstart.2⟩,
    ⟨_, htokens final hfinal, hstop.1, hne final hfinal, hstop.2⟩, h.start_lt⟩

/-- **Parsed trees are placed well.** -/
theorem wellPlaced_of_parse {limits : ParseLimits} {input : String} {body : Script}
    (h : parse limits input = .ok body) :
    ∃ tokens, tokenize input = .ok tokens ∧
      ∀ node ∈ body.nodes, node.WellPlaced tokens (Text.width input.toList) := by
  obtain ⟨c, last, hopens, hscript, hkind⟩ := parse_eq_ok_iff.1 h
  obtain ⟨lexemes, hpasses⟩ := (orderly_script _ _ _ hopens.placed).passes hscript
  have hc : c.Marked := ⟨hopens.placed, by rw [hopens.lastEnd_eq]; exact Nat.zero_le _⟩
  have hgiven := given_of_mem_nodes hopens.placed hscript
  have hnests : ∀ node ∈ body.nodes, node.Nests := fun node hmem => by
    obtain ⟨levels, inBackticks, d, d', hd, -, hgiven⟩ := hgiven node hmem
    exact hgiven.nests (hc.reaches hd)
  have hbelow : ∀ node ∈ body.nodes, ∀ below ∈ node.all, below.Nests :=
    Node.forall_mem_all (fun node hnode child hchild below hmem =>
      hnode below (Node.mem_all_of_child hchild hmem)) (.script body) hnests
  refine ⟨_, (tokens_of_passes_stop hopens hpasses hkind).1, fun node hnode => ?_⟩
  obtain ⟨levels, inBackticks, d, d', hd, hd', hgiven⟩ := hgiven node hnode
  have hmarked := hc.reaches hd
  refine ⟨fun span hspan => ?_, fun below hmem outer houter inner hinner => ?_,
    hgiven.ordered hmarked⟩
  · have hframed := hgiven.framed hmarked span hspan
    obtain ⟨front, hfront⟩ := hd
    rw [hopens.size_of_passes hfront] at hframed
    split at hframed
    · rw [if_pos ‹_›]
      exact hframed
    · rw [if_neg ‹_›]
      exact (hframed.reaches hfront.reaches hd').aligned hc hpasses fun lexeme hmem =>
        List.mem_append_left _ (List.mem_map_of_mem hmem)
  · exact node.within_of_nests (hbelow node hnode) below hmem outer (Node.outline?_of_span? houter)
      inner (Node.outline?_of_span? hinner)

/-! ### A tree with everything in it -/

/-- The script of `x=1 a$() >c|d&`. -/
def placedScript : Script :=
  ⟨[⟨⟨[⟨[⟨"x", some ⟨[.literal "1"], ⟨2, 3⟩⟩, ⟨0, 3⟩⟩],
      [⟨[.literal "a", .substitution ⟨[], ⟨7, 7⟩⟩], ⟨4, 8⟩⟩], none,
      some ⟨[.literal "c"], ⟨10, 11⟩⟩, none, ⟨0, 11⟩⟩,
    ⟨[], [⟨[.literal "d"], ⟨12, 13⟩⟩], none, none, none, ⟨12, 13⟩⟩], ⟨0, 13⟩⟩, true, ⟨0, 14⟩⟩],
    ⟨0, 14⟩⟩

theorem wellPlaced_placedScript :
    parse {} "x=1 a$() >c|d&" = .ok placedScript ∧
      ∃ tokens, tokenize "x=1 a$() >c|d&" = .ok tokens ∧
        ∀ node ∈ placedScript.nodes, node.WellPlaced tokens 14 := by
  have hparse : parse {} "x=1 a$() >c|d&" = .ok placedScript := by decide +kernel
  exact ⟨hparse, wellPlaced_of_parse hparse⟩

end CommandSyntax
