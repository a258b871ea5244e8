import CommandSyntax.Validation

/-!
# CommandSyntax.Validation.Inspector

The **inspector** of scripts: one walk over a tree that reports violations as it
comes to them.

The walk does not carry surroundings down. It keeps them in its own state: a word
replaces the span that it finds there and puts it back when it is done, and a
substitution counts itself in and out again. What is below a node is walked with
whatever the nodes before it have left there.
-/

namespace CommandSyntax

/-- The state of an inspection. -/
structure Inspector where
  /-- The violations reported so far, in order. -/
  found : List Violation
  /-- The number of substitutions that the walk is inside of. -/
  depth : Nat
  /-- The bytes of the word that the walk is inside of. -/
  word : Span
deriving DecidableEq, Repr

namespace Inspector

/-- An inspection before its start. -/
def start : Inspector := ⟨[], 0, Span.empty 0⟩

/-- Where the walk is. -/
def surroundings (inspector : Inspector) : Surroundings := ⟨inspector.depth, inspector.word⟩

/-- Reports violations. -/
def report (violations : List Violation) : StateM Inspector Unit :=
  modify fun inspector => { inspector with found := inspector.found ++ violations }

/-- Goes on with the bytes of another word, and gives those of the word before. -/
def replaceWord (word : Span) : StateM Inspector Span :=
  modifyGet fun inspector => (inspector.word, { inspector with word })

/-- Counts a substitution in. -/
def enterSubstitution : StateM Inspector Unit :=
  modify fun inspector => { inspector with depth := inspector.depth + 1 }

/-- Counts a substitution out. -/
def leaveSubstitution : StateM Inspector Unit :=
  modify fun inspector => { inspector with depth := inspector.depth - 1 }

/-- Walks a tree, from its root on. -/
def walk (rules : Rules) : Node → StateM Inspector Unit :=
  Node.fold fun node below => do
    match node with
    | .statement statement =>
      report (rules.checkStatement statement)
      below.forM id
    | .command command =>
      report (rules.checkCommand command)
      below.forM id
    | .word word =>
      let outer ← replaceWord word.span
      below.forM id
      let _ ← replaceWord outer
    | .substitution body =>
      enterSubstitution
      let inspector ← get
      report (rules.checkSubstitution inspector.surroundings body)
      below.forM id
      leaveSubstitution
    | _ => below.forM id

end Inspector

/-- Validates a script: it is refused with its violations when there are any. -/
def Script.validate (rules : Rules) (script : Script) : Except (List Violation) Unit :=
  let (_, inspector) := (Inspector.walk rules (.script script)).run Inspector.start
  if inspector.found.isEmpty then .ok () else .error inspector.found

end CommandSyntax
