import CommandSyntax.Script

/-!
# CommandSyntax.Script.Equality

**Equality of trees can be decided**, by their recursion: two trees are the same when they have the
same fields, and two lists when they have the same items. With this a tree that is parsed can be
compared with the one that is expected.
-/

namespace CommandSyntax

section Lists

variable {α : Type} {item item' : α} {items items' : List α}

/-- Lists are the same when their heads and their tails are. -/
def decEqCons (hhead : Decidable (item = item')) (htail : Decidable (items = items')) :
    Decidable (item :: items = item' :: items') :=
  decidable_of_iff (item = item' ∧ items = items') (by simp)

end Lists

mutual

/-- Decides whether two parts are the same. -/
def Part.decEq : (part part' : Part) → Decidable (part = part')
  | .literal text, .literal text' => decidable_of_iff (text = text') (by simp)
  | .parameter name, .parameter name' => decidable_of_iff (name = name') (by simp)
  | .glob pattern, .glob pattern' => decidable_of_iff (pattern = pattern') (by simp)
  | .substitution body, .substitution body' =>
    haveI := body.decEq body'
    decidable_of_iff (body = body') (by simp)
  | .literal _, .parameter _ | .literal _, .glob _ | .literal _, .substitution _
  | .parameter _, .literal _ | .parameter _, .glob _ | .parameter _, .substitution _
  | .glob _, .literal _ | .glob _, .parameter _ | .glob _, .substitution _
  | .substitution _, .literal _ | .substitution _, .parameter _ | .substitution _, .glob _ =>
    isFalse nofun

/-- Decides whether the parts of two words are the same. -/
def Part.listDecEq : (parts parts' : List Part) → Decidable (parts = parts')
  | [], [] => isTrue rfl
  | [], _ :: _ | _ :: _, [] => isFalse nofun
  | part :: parts, part' :: parts' =>
    decEqCons (part.decEq part') (Part.listDecEq parts parts')

/-- Decides whether two words are the same. -/
def Word.decEq : (word word' : Word) → Decidable (word = word')
  | ⟨parts, span⟩, ⟨parts', span'⟩ =>
    haveI := Part.listDecEq parts parts'
    decidable_of_iff (parts = parts' ∧ span = span') (by simp)

/-- Decides whether two words that may be absent are the same. -/
def Word.optionDecEq : (word word' : Option Word) → Decidable (word = word')
  | none, none => isTrue rfl
  | none, some _ | some _, none => isFalse nofun
  | some word, some word' =>
    haveI := word.decEq word'
    decidable_of_iff (word = word') (by simp)

/-- Decides whether the words of two commands are the same. -/
def Word.listDecEq : (words words' : List Word) → Decidable (words = words')
  | [], [] => isTrue rfl
  | [], _ :: _ | _ :: _, [] => isFalse nofun
  | word :: words, word' :: words' =>
    decEqCons (word.decEq word') (Word.listDecEq words words')

/-- Decides whether two assignments are the same. -/
def Assignment.decEq : (target target' : Assignment) → Decidable (target = target')
  | ⟨name, value, span⟩, ⟨name', value', span'⟩ =>
    haveI := Word.optionDecEq value value'
    decidable_of_iff (name = name' ∧ value = value' ∧ span = span') (by simp)

/-- Decides whether the assignments of two commands are the same. -/
def Assignment.listDecEq : (targets targets' : List Assignment) → Decidable (targets = targets')
  | [], [] => isTrue rfl
  | [], _ :: _ | _ :: _, [] => isFalse nofun
  | target :: targets, target' :: targets' =>
    decEqCons (target.decEq target') (Assignment.listDecEq targets targets')

/-- Decides whether two commands are the same. -/
def Command.decEq : (command command' : Command) → Decidable (command = command')
  | ⟨assignments, arguments, input, output, append, span⟩,
      ⟨assignments', arguments', input', output', append', span'⟩ =>
    haveI := Assignment.listDecEq assignments assignments'
    haveI := Word.listDecEq arguments arguments'
    haveI := Word.optionDecEq input input'
    haveI := Word.optionDecEq output output'
    haveI := Word.optionDecEq append append'
    decidable_of_iff (assignments = assignments' ∧ arguments = arguments' ∧ input = input' ∧
      output = output' ∧ append = append' ∧ span = span') (by simp)

/-- Decides whether the commands of two pipelines are the same. -/
def Command.listDecEq : (commands commands' : List Command) → Decidable (commands = commands')
  | [], [] => isTrue rfl
  | [], _ :: _ | _ :: _, [] => isFalse nofun
  | command :: commands, command' :: commands' =>
    decEqCons (command.decEq command') (Command.listDecEq commands commands')

/-- Decides whether two pipelines are the same. -/
def Pipeline.decEq : (pipeline pipeline' : Pipeline) → Decidable (pipeline = pipeline')
  | ⟨commands, span⟩, ⟨commands', span'⟩ =>
    haveI := Command.listDecEq commands commands'
    decidable_of_iff (commands = commands' ∧ span = span') (by simp)

/-- Decides whether two statements are the same. -/
def Statement.decEq : (statement statement' : Statement) → Decidable (statement = statement')
  | ⟨pipeline, background, span⟩, ⟨pipeline', background', span'⟩ =>
    haveI := pipeline.decEq pipeline'
    decidable_of_iff (pipeline = pipeline' ∧ background = background' ∧ span = span') (by simp)

/-- Decides whether the statements of two scripts are the same. -/
def Statement.listDecEq :
    (statements statements' : List Statement) → Decidable (statements = statements')
  | [], [] => isTrue rfl
  | [], _ :: _ | _ :: _, [] => isFalse nofun
  | statement :: statements, statement' :: statements' =>
    decEqCons (statement.decEq statement') (Statement.listDecEq statements statements')

/-- Decides whether two scripts are the same. -/
def Script.decEq : (script script' : Script) → Decidable (script = script')
  | ⟨statements, span⟩, ⟨statements', span'⟩ =>
    haveI := Statement.listDecEq statements statements'
    decidable_of_iff (statements = statements' ∧ span = span') (by simp)

end

instance : DecidableEq Part := Part.decEq

instance : DecidableEq Word := Word.decEq

instance : DecidableEq Assignment := Assignment.decEq

instance : DecidableEq Command := Command.decEq

instance : DecidableEq Pipeline := Pipeline.decEq

instance : DecidableEq Statement := Statement.decEq

instance : DecidableEq Script := Script.decEq

end CommandSyntax
