import CommandSyntax.Script.Node

/-!
# CommandSyntax.Proofs.Script.Nodes

**The nodes of a tree**: the root, and the nodes of the trees below its children
(`Node.mem_all_iff`). What the root has and a node hands on to its children, all
nodes of the tree have (`Node.forall_mem_all`).
-/

namespace CommandSyntax

namespace Node

/-- A node and all nodes below it. -/
def all (node : Node) : List Node := node.visits fun _ => false

theorem all_eq (node : Node) : node.all = node :: node.children.flatMap all := by
  rw [all, visits, fold_eq, List.flatMap_def]
  rfl

theorem mem_all_iff {node other : Node} :
    other ∈ node.all ↔ other = node ∨ ∃ child ∈ node.children, other ∈ child.all := by
  rw [all_eq, List.mem_cons, List.mem_flatMap]

theorem mem_all_of_child {node child other : Node} (h : child ∈ node.children)
    (hother : other ∈ child.all) : other ∈ node.all :=
  mem_all_iff.2 (.inr ⟨child, h, hother⟩)

theorem mem_all_self (node : Node) : node ∈ node.all := mem_all_iff.2 (.inl rfl)

/-- A fact that passes from a node to its children holds of all nodes if it holds of the root. -/
theorem forall_mem_all {motive : Node → Prop}
    (step : ∀ node, motive node → ∀ child ∈ node.children, motive child) (root : Node)
    (hroot : motive root) : ∀ node ∈ root.all, motive node := by
  induction root using Node.induction with
  | step root ih =>
    intro node hnode
    rcases mem_all_iff.1 hnode with rfl | ⟨child, hchild, hnode⟩
    · exact hroot
    · exact ih child hchild (step root hroot child hchild) node hnode

end Node

/-! ### Pieces of commands -/

/-- The spans of the assignments and the words of a command, in order. -/
def Command.pieces (command : Command) : List Span :=
  command.assignments.map Assignment.span ++ command.arguments.map Word.span

theorem Script.nodes_eq_all (script : Script) : script.nodes = (Node.script script).all := rfl

end CommandSyntax
