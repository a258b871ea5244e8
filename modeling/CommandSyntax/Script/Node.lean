import CommandSyntax.Script

/-!
# CommandSyntax.Script.Node

The **nodes** of a syntax tree, whatever their type, and the one way to walk them.

`Node.children` gives the nodes directly below a node, in the order in which a
tree is walked: a command's assignments, then its arguments, then the files for
input, output and appended output. Every analysis of a tree is a `Node.fold`,
which combines a node with the results for its children, and a fact about all
nodes is proved by `Node.induction`.

A part that holds a glob or a substitution has that as a node of its own below
it, and a substitution has the script it substitutes.
-/

namespace CommandSyntax

/-- The types of nodes of a syntax tree. -/
inductive NodeKind where
  /-- A script. -/
  | script
  /-- A statement. -/
  | statement
  /-- A pipeline. -/
  | pipeline
  /-- A command. -/
  | command
  /-- An assignment. -/
  | assignment
  /-- A word. -/
  | word
  /-- A part of a word. -/
  | part
  /-- A wildcard. -/
  | glob
  /-- A substitution. -/
  | substitution
deriving DecidableEq, Repr

/-- A node of a syntax tree. -/
inductive Node where
  /-- A script: the root of a tree or the body of a substitution. -/
  | script (script : Script)
  /-- A statement of a script. -/
  | statement (statement : Statement)
  /-- The pipeline of a statement. -/
  | pipeline (pipeline : Pipeline)
  /-- A command of a pipeline. -/
  | command (command : Command)
  /-- An assignment of a command. -/
  | assignment (assignment : Assignment)
  /-- An argument of a command, the file of a redirection or an assigned value. -/
  | word (word : Word)
  /-- A part of a word. -/
  | part (part : Part)
  /-- The wildcard that is a part. -/
  | glob (glob : Glob)
  /-- The substitution of a script that is a part. -/
  | substitution (body : Script)

namespace Node

/-- The type of a node. -/
def kind : Node → NodeKind
  | script _ => .script
  | statement _ => .statement
  | pipeline _ => .pipeline
  | command _ => .command
  | assignment _ => .assignment
  | word _ => .word
  | part _ => .part
  | glob _ => .glob
  | substitution _ => .substitution

/-- The bytes of a node. Parts and globs are not placed; a substitution stands
where its script does. -/
def span? : Node → Option Span
  | script s => some s.span
  | statement s => some s.span
  | pipeline p => some p.span
  | command c => some c.span
  | assignment a => some a.span
  | word w => some w.span
  | part _ => none
  | glob _ => none
  | substitution body => some body.span

/-- The nodes directly below a node, in order. -/
def children : Node → List Node
  | script s => s.statements.map statement
  | statement s => [pipeline s.pipeline]
  | pipeline p => p.commands.map command
  | command c => c.assignments.map assignment ++ (c.arguments ++ c.targets).map word
  | assignment a => a.value.toList.map word
  | word w => w.parts.map part
  | part (.glob pattern) => [glob pattern]
  | part (.substitution body) => [substitution body]
  | part (.literal _) => []
  | part (.parameter _) => []
  | glob _ => []
  | substitution body => [script body]

/-! ### Children are smaller -/

/-- A size of nodes that decreases from a node to its children. -/
noncomputable def weight : Node → Nat
  | script s => 2 * sizeOf s
  | statement s => 2 * sizeOf s
  | pipeline p => 2 * sizeOf p
  | command c => 2 * sizeOf c
  | assignment a => 2 * sizeOf a
  | word w => 2 * sizeOf w
  | part p => 2 * sizeOf p
  | glob g => 2 * sizeOf g
  | substitution body => 2 * sizeOf body + 1

theorem sizeOf_lt_of_mem_targets {c : Command} {w : Word} (h : w ∈ c.targets) :
    sizeOf w < sizeOf c := by
  obtain ⟨assignments, arguments, input, output, append, span⟩ := c
  simp only [Command.targets, List.mem_append, Option.mem_toList] at h
  rcases h with (rfl | rfl) | rfl <;> simp <;> omega

theorem weight_lt_of_mem_children {node child : Node} (h : child ∈ node.children) :
    child.weight < node.weight := by
  cases node with
  | script s =>
    obtain ⟨statement, hmem, rfl⟩ := List.mem_map.1 h
    have := List.sizeOf_lt_of_mem hmem
    cases s
    simp_all only [weight, Script.mk.sizeOf_spec]
    omega
  | statement s =>
    obtain rfl := List.mem_singleton.1 h
    cases s
    simp only [weight, Statement.mk.sizeOf_spec]
    omega
  | pipeline p =>
    obtain ⟨command, hmem, rfl⟩ := List.mem_map.1 h
    have := List.sizeOf_lt_of_mem hmem
    cases p
    simp_all only [weight, Pipeline.mk.sizeOf_spec]
    omega
  | command c =>
    simp only [children, List.mem_append, List.mem_map] at h
    rcases h with ⟨assignment, hmem, rfl⟩ | ⟨word, hmem | hmem, rfl⟩
    · have := List.sizeOf_lt_of_mem hmem
      cases c
      simp_all only [weight, Command.mk.sizeOf_spec]
      omega
    · have := List.sizeOf_lt_of_mem hmem
      cases c
      simp_all only [weight, Command.mk.sizeOf_spec]
      omega
    · have := sizeOf_lt_of_mem_targets hmem
      simp only [weight]
      omega
  | assignment a =>
    obtain ⟨word, hmem, rfl⟩ := List.mem_map.1 h
    obtain ⟨name, value, span⟩ := a
    obtain rfl : value = some word := by simpa using hmem
    simp only [weight, Assignment.mk.sizeOf_spec, Option.some.sizeOf_spec]
    omega
  | word w =>
    obtain ⟨part, hmem, rfl⟩ := List.mem_map.1 h
    have := List.sizeOf_lt_of_mem hmem
    cases w
    simp_all only [weight, Word.mk.sizeOf_spec]
    omega
  | part p =>
    cases p <;> simp_all [children, weight]
    omega
  | glob g => simp [children] at h
  | substitution body =>
    obtain rfl := List.mem_singleton.1 h
    simp [weight]

/-- A fact that passes from the children of a node to the node holds of all nodes. -/
theorem induction {motive : Node → Prop}
    (step : ∀ node, (∀ child ∈ node.children, motive child) → motive node) (node : Node) :
    motive node :=
  step node fun child h =>
    have := weight_lt_of_mem_children h
    induction step child
termination_by node.weight

/-! ### Folding a tree -/

/-- Combines every node with the results for its children, from the leaves up. -/
def fold {α : Type} (combine : Node → List α → α) (node : Node) : α :=
  combine node (node.children.attach.map fun ⟨child, _⟩ => fold combine child)
termination_by node.weight
decreasing_by exact weight_lt_of_mem_children ‹_›

theorem fold_eq {α : Type} (combine : Node → List α → α) (node : Node) :
    fold combine node = combine node (node.children.map (fold combine)) := by
  rw [fold, List.attach_map_val]

/-- The nodes of a tree, each before those below it. Below a node of a pruned type
nothing is visited. -/
def visits (pruned : NodeKind → Bool) : Node → List Node :=
  fold fun node below => node :: if pruned node.kind then [] else below.flatten

end Node

/-- The nodes of a script that are visited when nothing is pruned. -/
def Script.nodes (script : Script) : List Node := (Node.script script).visits fun _ => false

end CommandSyntax
