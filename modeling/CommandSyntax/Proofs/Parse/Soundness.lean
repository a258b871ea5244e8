import CommandSyntax.Proofs.Grammar.Origin
import CommandSyntax.Proofs.Parse.Trace
import CommandSyntax.Proofs.Token.Cutting
import CommandSyntax.Script.Equality

/-!
# CommandSyntax.Proofs.Parse.Soundness

**Parsed trees are sound.** The types of a tree allow a pipeline without commands, a word
without parts or a literal without text; a runner of scripts need not expect any of these
in a tree that a parse gives (`sound_of_parse`).

A node is sound because the production of its type gives only such nodes
(`Node.GivenBy.sound`). Where a production may find nothing, as in front of a pair of quotes
with nothing inside, it gives no node at all.
-/

namespace CommandSyntax

open Production Cursor

/-- What a node of a parsed tree keeps beyond its type. -/
def Node.Sound : Node → Prop
  | .pipeline p => p.commands ≠ []
  | .command c => c.isEmpty = false
  | .assignment a => IsName a.name.toList
  | .word w => w.parts ≠ []
  | .part (.literal text) => text ≠ ""
  | .part (.parameter name) => name ≠ ""
  | .glob (.charset set) => ']' ∉ set.toList
  | _ => True

variable {context : Context} {c c' : Cursor} {quoted : Bool}

namespace Production

/-! ### What the productions give -/

/-- Without braces a parameter has a name behind the dollar sign. -/
theorem name_of_unbracedParameter {lexeme : Lexeme} (h : lexeme.Scanned)
    (hkind : lexeme.kind = .unbracedParameter) : String.ofList lexeme.text.tail ≠ "" := by
  obtain ⟨name, hname, htext⟩ := h.text_of_unbracedParameter hkind
  simpa [htext] using hname

/-- In braces a parameter has at least one lexeme for its name. -/
theorem name_of_bracedParameter (hc : c.Placed) {name : String}
    (h : bracedParameter c = .ok (.parameter name) c') : name ≠ "" := by
  obtain ⟨opener, body, closer, hpasses, -, hbody, -, -, hpart⟩ :=
    (bracedParameter_eq_ok_iff hc).1 h
  obtain rfl := Part.parameter.inj hpart
  obtain ⟨first, body, rfl⟩ := List.exists_cons_of_ne_nil hbody
  have hfirst := (hpasses.scanned hc first (by simp)).text_ne_nil
  simp [hfirst]

/-- Neither a literal nor the name of a parameter is empty. -/
theorem sound_of_part? (hc : c.Placed) {part : Part}
    (h : part? context quoted c = .ok (some part) c') : (Node.part part).Sound := by
  cases (part?_eq_ok_iff hc).1 h with
  | parameter hkind => exact name_of_unbracedParameter (hc.scanned (by simp [hkind])) hkind
  | braced _ h =>
    obtain ⟨opener, body, closer, -, -, -, -, -, rfl⟩ := (bracedParameter_eq_ok_iff hc).1 h
    exact name_of_bracedParameter hc h
  | backticks _ _ h | parentheses _ h =>
    obtain ⟨script, c₁, body, c₂, -, -, -, -, -, -, rfl⟩ :=
      (substitution_eq_ok_iff (by simp) (by simp)).1 h
    trivial
  | star | one | charset => trivial
  | text _ h =>
    obtain ⟨lexemes, -, -, -, hpart⟩ := (text?_eq_ok_iff hc).1 h
    unfold Part.literal? at hpart
    split at hpart
    · simp at hpart
    · rename_i htext
      obtain rfl := Option.some.inj hpart
      exact htext

/-- A set of characters ends at the first closing bracket. -/
theorem sound_of_glob (hc : c.Placed) {glob : Glob}
    (h : part? context quoted c = .ok (some (.glob glob)) c') : (Node.glob glob).Sound := by
  cases (part?_eq_ok_iff hc).1 h with
  | star | one => trivial
  | charset _ hkind =>
    obtain ⟨inner, hinner, htext⟩ := (hc.scanned (by simp [hkind])).text_of_globCharset hkind
    simpa [Node.Sound, htext, inside] using hinner
  | braced _ h =>
    obtain ⟨opener, body, closer, -, -, -, -, -, hpart⟩ := (bracedParameter_eq_ok_iff hc).1 h
    simp at hpart
  | backticks _ _ h | parentheses _ h =>
    obtain ⟨script, c₁, body, c₂, -, -, -, -, -, -, hpart⟩ :=
      (substitution_eq_ok_iff (by simp) (by simp)).1 h
    simp at hpart
  | text _ h =>
    obtain ⟨lexemes, -, -, -, hpart⟩ := (text?_eq_ok_iff hc).1 h
    simp [Part.literal?] at hpart

/-- The name of an assignment is its lexeme without the equals sign. -/
theorem isName_of_assignment (hc : c.Placed) {result : Assignment}
    (h : assignment context c = .ok result c') : IsName result.name.toList := by
  obtain ⟨c₁, value, hkind, -, -, rfl⟩ := (assignment_eq_ok_iff hc).1 h
  obtain ⟨name, hne, hname, htext⟩ :=
    (hc.scanned (by simp [hkind])).text_of_assignmentLhs hkind
  simpa [htext] using ⟨hne, hname⟩

/-- A command without content is none. -/
theorem isEmpty_of_command? (hcontext : ContextOrderly context) (hc : c.Placed)
    {command : Command} (h : command? context c = .ok (some command) c') :
    command.isEmpty = false := by
  obtain ⟨c₁, content, -, -, hresult⟩ := (command?_eq_ok_iff hcontext hc).1 h
  split at hresult
  · simp at hresult
  · rename_i hcontent
    obtain rfl := Option.some.inj hresult
    simpa [Command.isEmpty, Command.targets] using hcontent

end Production

/-! ### Parsed trees -/

theorem Node.GivenBy.sound {node : Node} (hcontext : ContextOrderly context) (hc : c.Placed)
    (h : node.GivenBy context c c') : node.Sound := by
  cases node with
  | script | statement | substitution => trivial
  | pipeline pipeline =>
    obtain ⟨first, commands, c₁, -, -, rfl⟩ := (pipeline?_eq_some_iff hcontext hc).1 h
    exact List.cons_ne_nil first commands
  | command => exact isEmpty_of_command? hcontext hc h
  | assignment => exact isName_of_assignment hc h
  | word => exact ((word?_eq_some_iff hcontext hc).1 h).2.1
  | part =>
    obtain ⟨quoted, hpart⟩ := h
    exact sound_of_part? hc hpart
  | glob =>
    obtain ⟨quoted, hglob⟩ := h
    exact sound_of_glob hc hglob

/-- **Parsed trees are sound.** -/
theorem sound_of_parse {limits : ParseLimits} {input : String} {body : Script}
    (h : parse limits input = .ok body) : ∀ node ∈ body.nodes, node.Sound := by
  obtain ⟨c, last, hopens, hscript, -⟩ := parse_eq_ok_iff.1 h
  intro node hnode
  obtain ⟨levels, inBackticks, d, d', hd, -, hgiven⟩ :=
    given_of_mem_nodes hopens.placed hscript node hnode
  exact hgiven.sound (levelContext_orderly _ levels inBackticks) (hd.placed hopens.placed)

/-- The script of `x= $(a ''|b>[c]${d})`, in which the pair of quotes leaves nothing behind. -/
def sparseScript : Script :=
  ⟨[⟨⟨[⟨[⟨"x", none, ⟨0, 2⟩⟩],
      [⟨[.substitution ⟨[⟨⟨[
        ⟨[], [⟨[.literal "a"], ⟨5, 6⟩⟩], none, none, none, ⟨5, 9⟩⟩,
        ⟨[], [⟨[.literal "b"], ⟨10, 11⟩⟩], none,
          some ⟨[.glob (.charset "c"), .parameter "d"], ⟨12, 19⟩⟩, none, ⟨10, 19⟩⟩],
          ⟨5, 19⟩⟩, false, ⟨5, 19⟩⟩], ⟨5, 19⟩⟩], ⟨3, 20⟩⟩], none, none, none, ⟨0, 20⟩⟩],
      ⟨0, 20⟩⟩, false, ⟨0, 20⟩⟩], ⟨0, 20⟩⟩

theorem sound_sparseScript :
    parse {} "x= $(a ''|b>[c]${d})" = .ok sparseScript ∧
      ∀ node ∈ sparseScript.nodes, node.Sound := by
  have hparse : parse {} "x= $(a ''|b>[c]${d})" = .ok sparseScript := by decide +kernel
  exact ⟨hparse, sound_of_parse hparse⟩

end CommandSyntax
