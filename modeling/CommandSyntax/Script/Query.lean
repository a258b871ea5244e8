import CommandSyntax.Script.Node

/-!
# CommandSyntax.Script.Query

**Questions about a script**: how many commands it runs, which parameters it
refers to and how deep its substitutions are nested. Scripts inside
substitutions count everywhere.
-/

namespace CommandSyntax

namespace Node

/-- The number of commands at or below a node. -/
def commandCount : Node → Nat :=
  fold fun node counts => (if node.kind = .command then 1 else 0) + counts.foldr Nat.add 0

/-- The name of the parameter that a node refers to. -/
def parameter? : Node → Option String
  | part (.parameter name) => some name
  | _ => none

/-- Adds a name at the end of a list, unless it is there already. -/
def addName (names : List String) (name : String) : List String :=
  if name ∈ names then names else names ++ [name]

/-- Adds the parameters at or below a node to the names already met. -/
def addParameters : Node → List String → List String :=
  fold fun node below names =>
    below.foldl (fun names add => add names) (node.parameter?.elim names (addName names))

/-- The greatest number of substitutions on a way from a node downwards. -/
def substitutionDepth : Node → Nat :=
  fold fun node depths =>
    (if node.kind = .substitution then 1 else 0) + depths.foldl max 0

end Node

namespace Script

/-- The number of commands, stages of pipelines and nested scripts included. -/
def commandCount (script : Script) : Nat := (Node.script script).commandCount

/-- The names of the parameters that a script refers to, each once, in the order
in which the tree is walked. -/
def parameters (script : Script) : List String := (Node.script script).addParameters []

/-- The deepest nesting of substitutions; zero when there is none. -/
def substitutionDepth (script : Script) : Nat := (Node.script script).substitutionDepth

/-- Whether there is a substitution anywhere. -/
def hasSubstitutions (script : Script) : Bool := 0 < script.substitutionDepth

end Script

end CommandSyntax
