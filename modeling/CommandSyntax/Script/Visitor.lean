import CommandSyntax.Script.Query

/-!
# CommandSyntax.Script.Visitor

**Visitors** of scripts: walks over a tree that act on the nodes they come to and keep what they
find in a state.

A visitor has a method for each type of node. A method is handed the walk over what lies below its
node. It may act before that walk and after it, and a walk that it leaves out is pruned. A visitor
says only what it does at the nodes it asks for; at all others it walks on.

The questions about a script are visitors too: one counts commands, one collects the names of
parameters, and one counts substitutions in and out and keeps the greatest number of them that it
was ever inside of.
-/

namespace CommandSyntax

/-- What is done at a node, given the walk over what lies below it. -/
abbrev Visitor.Method (σ α : Type) : Type := α → StateM σ Unit → StateM σ Unit

/-- The method that only walks on. -/
def Visitor.walkOn {σ α : Type} : Visitor.Method σ α := fun _ walk => walk

/-- What is done at each type of node. -/
structure Visitor (σ : Type) where
  /-- At a script. -/
  script : Visitor.Method σ Script := Visitor.walkOn
  /-- At a statement. -/
  statement : Visitor.Method σ Statement := Visitor.walkOn
  /-- At a pipeline. -/
  pipeline : Visitor.Method σ Pipeline := Visitor.walkOn
  /-- At a command. -/
  command : Visitor.Method σ Command := Visitor.walkOn
  /-- At an assignment. -/
  assignment : Visitor.Method σ Assignment := Visitor.walkOn
  /-- At a word. -/
  word : Visitor.Method σ Word := Visitor.walkOn
  /-- At a part of a word. -/
  part : Visitor.Method σ Part := Visitor.walkOn
  /-- At a wildcard, below which there is nothing. -/
  glob : Visitor.Method σ Glob := Visitor.walkOn
  /-- At a substitution, given its script. -/
  substitution : Visitor.Method σ Script := Visitor.walkOn

namespace Visitor

variable {σ : Type}

/-- The method for the type of a node. -/
def act (visitor : Visitor σ) : Method σ Node
  | .script s => visitor.script s
  | .statement s => visitor.statement s
  | .pipeline p => visitor.pipeline p
  | .command c => visitor.command c
  | .assignment a => visitor.assignment a
  | .word w => visitor.word w
  | .part p => visitor.part p
  | .glob g => visitor.glob g
  | .substitution body => visitor.substitution body

/-- Visits a node. The walk over what lies below it visits its children, in order. -/
def visit (visitor : Visitor σ) : Node → StateM σ Unit :=
  Node.fold fun node below => visitor.act node (below.forM id)

/-- The state in which a visit of a whole script ends. -/
def run (visitor : Visitor σ) (start : σ) (script : Script) : σ :=
  ((visitor.visit (.script script)).run start).2

/-- The visitor that does the same at nodes of all types. -/
def uniform (method : Method σ Node) : Visitor σ where
  script s := method (.script s)
  statement s := method (.statement s)
  pipeline p := method (.pipeline p)
  command c := method (.command c)
  assignment a := method (.assignment a)
  word w := method (.word w)
  part p := method (.part p)
  glob g := method (.glob g)
  substitution body := method (.substitution body)

@[simp] theorem act_uniform (method : Method σ Node) : (uniform method).act = method := by
  funext node
  cases node <;> rfl

/-- Records every node that is visited, and walks on at nodes whose type is not pruned. -/
def recorder (pruned : NodeKind → Bool) : Visitor (List Node) :=
  uniform fun node walk => do
    modify (· ++ [node])
    unless pruned node.kind do walk

/-! ### Questions -/

/-- Counts commands. -/
def commandCounter : Visitor Nat where
  command _ walk := do
    modify (· + 1)
    walk

/-- Collects the names of parameters, each once. -/
def parameterCollector : Visitor (List String) where
  part part walk := do
    if let .parameter name := part then modify fun names => Node.addName names name
    walk

/-- How deep a walk is nested, and how deep it was nested at most. -/
structure Depths where
  /-- The number of substitutions that the walk is inside of. -/
  current : Nat
  /-- The greatest such number so far. -/
  deepest : Nat
  /-- The greatest number is not below that of now. -/
  current_le : current ≤ deepest
deriving DecidableEq, Repr

namespace Depths

/-- Outside of all substitutions. -/
def start : Depths := ⟨0, 0, Nat.le_refl 0⟩

/-- Inside of one more substitution. -/
def enter (depths : Depths) : Depths :=
  ⟨depths.current + 1, max depths.deepest (depths.current + 1), Nat.le_max_right ..⟩

/-- Outside of the innermost substitution again. -/
def leave (depths : Depths) : Depths :=
  ⟨depths.current - 1, depths.deepest, Nat.le_trans (Nat.sub_le ..) depths.current_le⟩

end Depths

/-- Counts substitutions in and out. -/
def depthTracker : Visitor Depths where
  substitution _ walk := do
    modify Depths.enter
    walk
    modify Depths.leave

end Visitor

/-- The nodes of a script that are recorded when nodes of some types are pruned. -/
def Script.record (script : Script) (pruned : NodeKind → Bool) : List Node :=
  (Visitor.recorder pruned).run [] script

end CommandSyntax
