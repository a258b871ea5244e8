import CommandSyntax.Proofs.Script.Nodes
import CommandSyntax.Script.Query
import Mathlib.Data.List.Perm.Basic

/-!
# CommandSyntax.Proofs.Script.SourceOrder

**Trees in the order of the source.** A walk comes to the arguments of a command and then to the
files of its redirections, wherever these stand in the text. The words of a command in the order
of the source are the same words, sorted by where they start (`Command.wordsInSource`), and a walk
that takes them in this order meets the same names (`Node.namesInSource_perm`). It meets them in
the same order where the words of every command are in order already
(`Node.namesInSource_eq_names`).
-/

namespace CommandSyntax

/-! ### Words of commands -/

/-- Whether a word does not start behind another one. -/
def Word.startsBy (left right : Word) : Bool := left.span.start ≤ right.span.start

namespace Command

/-- The words of a command and the files of its redirections, in the order of a walk. -/
def words (command : Command) : List Word := command.arguments ++ command.targets

/-- The words of a command and the files of its redirections, in the order of the source. -/
def wordsInSource (command : Command) : List Word := command.words.mergeSort Word.startsBy

/-- The words of a command start in the order of a walk. -/
def InSourceOrder (command : Command) : Prop :=
  command.words.Pairwise fun left right => left.span.start < right.span.start

variable {command : Command}

theorem wordsInSource_perm : command.wordsInSource.Perm command.words := List.mergeSort_perm ..

/-- Words that start one after the other are in the order of the source. -/
theorem wordsInSource_eq {words : List Word} (hperm : command.words.Perm words)
    (h : words.Pairwise fun left right => left.span.start < right.span.start) :
    command.wordsInSource = words := by
  have hsorted : command.wordsInSource.Pairwise fun left right => left.startsBy right :=
    List.pairwise_mergeSort (fun _ _ _ => by simpa [Word.startsBy] using Nat.le_trans)
      (fun _ _ => by simpa [Word.startsBy] using Nat.le_total ..) _
  have hperm := wordsInSource_perm.trans hperm
  have hne : command.wordsInSource.Pairwise fun left right =>
      left.span.start ≠ right.span.start :=
    (hperm.pairwise_iff Ne.symm).2 (h.imp Nat.ne_of_lt)
  refine List.Perm.eq_of_pairwise (fun left right _ _ h h' => absurd h (Nat.lt_asymm h'))
    ((hsorted.and hne).imp fun h => Nat.lt_of_le_of_ne (of_decide_eq_true h.1) h.2) h hperm

end Command

/-! ### Trees -/

namespace Node

/-- The nodes directly below a node, in the order of the source. -/
def childrenInSource : Node → List Node
  | command c => c.assignments.map assignment ++ c.wordsInSource.map word
  | node => node.children

theorem childrenInSource_perm (node : Node) : node.childrenInSource.Perm node.children := by
  cases node with
  | command c => exact (Command.wordsInSource_perm.map word).append_left _
  | _ => exact .refl _

/-- The names of the parameters of a tree, node by node. -/
def names (node : Node) : List String := node.all.filterMap parameter?

theorem names_eq (node : Node) :
    node.names = node.parameter?.toList ++ node.children.flatMap names := by
  rw [names, all_eq, List.filterMap_cons, List.filterMap_flatMap]
  cases node.parameter? <;> rfl

/-- The names of the parameters of a tree, in the order of the source. -/
def namesInSource (node : Node) : List String :=
  node.parameter?.toList ++
    node.childrenInSource.attach.flatMap fun ⟨child, _⟩ => namesInSource child
termination_by node.weight
decreasing_by exact weight_lt_of_mem_children (node.childrenInSource_perm.mem_iff.1 ‹_›)

theorem namesInSource_eq (node : Node) :
    node.namesInSource = node.parameter?.toList ++ node.childrenInSource.flatMap namesInSource := by
  rw [namesInSource, List.flatMap_def, List.flatMap_def, List.attach_map_val]

/-- Every command of a tree has its words in the order of the source. -/
def InSourceOrder (node : Node) : Prop :=
  ∀ command, .command command ∈ node.all → command.InSourceOrder

variable {node child : Node}

theorem InSourceOrder.of_mem_children (h : node.InSourceOrder) (hchild : child ∈ node.children) :
    child.InSourceOrder :=
  fun command hmem => h command (mem_all_of_child hchild hmem)

theorem InSourceOrder.childrenInSource_eq (h : node.InSourceOrder) :
    node.childrenInSource = node.children := by
  cases node with
  | command c =>
    rw [childrenInSource, Command.wordsInSource_eq (.refl _) (h c (mem_all_self _))]
    rfl
  | _ => rfl

/-- In whatever order a tree is walked, the names are the same. -/
theorem namesInSource_perm (node : Node) : node.namesInSource.Perm node.names := by
  induction node using Node.induction with
  | step node ih =>
    rw [namesInSource_eq, names_eq]
    have hperm := node.childrenInSource_perm
    exact (hperm.flatMap fun child hchild => ih child (hperm.mem_iff.1 hchild)).append_left _

theorem namesInSource_eq_names (h : node.InSourceOrder) : node.namesInSource = node.names := by
  induction node using Node.induction with
  | step node ih =>
    rw [namesInSource_eq, names_eq, h.childrenInSource_eq, List.flatMap_def, List.flatMap_def,
      List.map_congr_left fun child hchild => ih child hchild (h.of_mem_children hchild)]

end Node

end CommandSyntax
