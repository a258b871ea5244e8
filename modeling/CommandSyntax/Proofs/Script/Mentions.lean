import CommandSyntax.Grammar.Command
import CommandSyntax.Proofs.Script.Placement
import CommandSyntax.Proofs.Script.SourceOrder
import CommandSyntax.Token.Stream

/-!
# CommandSyntax.Proofs.Script.Mentions

**The parameters that lexemes name, beside those of a tree.** In the text of an input a parameter
is one lexeme, or a name between two braces (`Lexeme.names`). In a tree it is a part. Lexemes
mention some nodes when they name the parameters of these, in the order of the source (`Mentions`).
This adds up (`Mentions.append`), and it passes from the children of a node to the node
(`Mentions.of_childrenInSource`, `Mentions.command`).

A command keeps one file for each way to redirect it, so a name in a file that was replaced is in
no tree. All of this is therefore about trees in which no command redirects twice in the same way
(`Node.RedirectsOnce`).
-/

namespace CommandSyntax

/-! ### Names in lexemes -/

namespace Lexeme

/-- The names of parameters in lexemes, in order. Inside of braces what is read of the name is
given: up to the closing brace all text belongs to it. -/
def namesFrom : Option (List Char) → List Lexeme → List String
  | _, [] => []
  | none, lexeme :: rest =>
    if lexeme.kind = .unbracedParameter then
      String.ofList lexeme.text.tail :: namesFrom none rest
    else if lexeme.kind = .startExpansion then namesFrom (some []) rest
    else namesFrom none rest
  | some name, lexeme :: rest =>
    if lexeme.kind = .rightBrace then String.ofList name :: namesFrom none rest
    else namesFrom (some (name ++ lexeme.text)) rest

/-- The names of parameters in lexemes, in order. -/
def names (lexemes : List Lexeme) : List String := namesFrom none lexemes

/-- Lexemes name parameters, whatever follows them. -/
def Name (lexemes : List Lexeme) (found : List String) : Prop :=
  ∀ rest, names (lexemes ++ rest) = found ++ names rest

/-- A lexeme of a kind has to do with no parameter. -/
def IsMute (kind : TokenKind) : Prop := kind ≠ .unbracedParameter ∧ kind ≠ .startExpansion

variable {lexemes lexemes' : List Lexeme} {found found' : List String}

theorem Name.names_eq (h : Name lexemes found) : names lexemes = found := by
  have := h []
  rwa [List.append_nil, show names [] = [] from rfl, List.append_nil] at this

theorem Name.append (h : Name lexemes found) (h' : Name lexemes' found') :
    Name (lexemes ++ lexemes') (found ++ found') := by
  intro rest
  rw [List.append_assoc, h, h', List.append_assoc]

theorem name_of_isMute (h : ∀ lexeme ∈ lexemes, IsMute lexeme.kind) : Name lexemes [] := by
  intro rest
  induction lexemes with
  | nil => rfl
  | cons lexeme lexemes ih =>
    obtain ⟨⟨hparameter, hopener⟩, hmute⟩ := List.forall_mem_cons.1 h
    rw [List.cons_append, names, namesFrom, if_neg hparameter, if_neg hopener]
    exact ih hmute

theorem name_of_unbracedParameter {lexeme : Lexeme} (hkind : lexeme.kind = .unbracedParameter) :
    Name [lexeme] [String.ofList lexeme.text.tail] := by
  intro rest
  rw [List.singleton_append, names, namesFrom, if_pos hkind]
  rfl

theorem namesFrom_some_append {body : List Lexeme}
    (hbody : ∀ lexeme ∈ body, lexeme.kind ≠ .rightBrace) (name : List Char)
    (rest : List Lexeme) :
    namesFrom (some name) (body ++ rest) =
      namesFrom (some (name ++ body.flatMap Lexeme.text)) rest := by
  induction body generalizing name with
  | nil => simp
  | cons lexeme body ih =>
    obtain ⟨hkind, hbody⟩ := List.forall_mem_cons.1 hbody
    rw [List.cons_append, namesFrom, if_neg hkind, ih hbody, List.flatMap_cons,
      List.append_assoc]

theorem name_of_braces {opener closer : Lexeme} {body : List Lexeme}
    (hopener : opener.kind = .startExpansion)
    (hbody : ∀ lexeme ∈ body, lexeme.kind ≠ .rightBrace) (hcloser : closer.kind = .rightBrace) :
    Name (opener :: (body ++ [closer])) [String.ofList (body.flatMap Lexeme.text)] := by
  intro rest
  rw [List.cons_append, List.append_assoc, names, namesFrom, if_neg (by simp [hopener]),
    if_pos hopener, namesFrom_some_append hbody, List.singleton_append, namesFrom,
    if_pos hcloser]
  rfl

end Lexeme

/-! ### Redirections of commands -/

namespace Span

variable (left right : Span)

instance : Decidable (left.Within right) := inferInstanceAs (Decidable (_ ∧ _))

instance : Decidable (left.Before right) := inferInstanceAs (Decidable (_ ≤ _))

instance : Decidable (left.Disjoint right) := inferInstanceAs (Decidable (_ ∨ _))

end Span

namespace Command

/-- Bytes of a command that belong to none of its assignments and words. -/
def IsBetweenWords (command : Command) (span : Span) : Prop :=
  span.Within command.span ∧
    (∀ assignment ∈ command.assignments, span.Disjoint assignment.span) ∧
      ∀ word ∈ command.words, span.Disjoint word.span

instance (command : Command) (span : Span) : Decidable (command.IsBetweenWords span) :=
  inferInstanceAs (Decidable (_ ∧ _))

/-- The redirections for which an operator stands between the words of a command. -/
def redirectionsIn (command : Command) (lexemes : List Lexeme) : List Redirection :=
  (lexemes.filter fun lexeme => command.IsBetweenWords lexeme.span).filterMap fun lexeme =>
    Redirection.ofKind? lexeme.kind

/-- Some operators between the words are some of the redirections. -/
theorem sublist_redirectionsIn {command : Command} {lexemes operators : List Lexeme}
    (h : operators.Sublist lexemes)
    (hbetween : ∀ operator ∈ operators, command.IsBetweenWords operator.span) :
    (operators.filterMap fun operator => Redirection.ofKind? operator.kind).Sublist
      (command.redirectionsIn lexemes) := by
  have hsub := h.filter fun lexeme => command.IsBetweenWords lexeme.span
  rw [List.filter_eq_self.2 fun operator hmem => by simpa using hbetween operator hmem] at hsub
  exact hsub.filterMap _

end Command

namespace Node

/-- No command of a tree redirects twice in the same way. When one does, both operators stand
between the words that are left in it. -/
def RedirectsOnce (lexemes : List Lexeme) (node : Node) : Prop :=
  ∀ command, .command command ∈ node.all → (command.redirectionsIn lexemes).Nodup

variable {lexemes : List Lexeme} {node child : Node}

theorem RedirectsOnce.of_mem_children (h : node.RedirectsOnce lexemes)
    (hchild : child ∈ node.children) : child.RedirectsOnce lexemes :=
  fun command hmem => h command (mem_all_of_child hchild hmem)

end Node

/-! ### Lexemes that mention nodes -/

/-- Lexemes name the parameters of some nodes in the order of the source, when no command among
these redirects twice in the same way, as far as it shows in all lexemes of an input. -/
def Mentions (all lexemes : List Lexeme) (nodes : List Node) : Prop :=
  (∀ node ∈ nodes, node.RedirectsOnce all) →
    Lexeme.Name lexemes (nodes.flatMap Node.namesInSource)

namespace Mentions

variable {all lexemes lexemes' : List Lexeme} {nodes nodes' : List Node} {node : Node}

theorem of_isMute (h : ∀ lexeme ∈ lexemes, Lexeme.IsMute lexeme.kind) : Mentions all lexemes [] :=
  fun _ => Lexeme.name_of_isMute h

theorem append (h : Mentions all lexemes nodes) (h' : Mentions all lexemes' nodes') :
    Mentions all (lexemes ++ lexemes') (nodes ++ nodes') := by
  intro honce
  obtain ⟨honce, honce'⟩ := List.forall_mem_append.1 honce
  rw [List.flatMap_append]
  exact (h honce).append (h' honce')

/-- A parameter is mentioned by its name. -/
theorem parameter {name : String} (h : Lexeme.Name lexemes [name]) :
    Mentions all lexemes [.part (.parameter name)] := by
  intro _
  rw [List.flatMap_singleton, Node.namesInSource_eq]
  exact h

/-- Any other node is mentioned with its children in the order of the source. -/
theorem of_childrenInSource (h : Mentions all lexemes node.childrenInSource)
    (hparameter : node.parameter? = none) : Mentions all lexemes [node] := by
  intro honce
  have honce := List.forall_mem_singleton.1 honce
  rw [List.flatMap_singleton, Node.namesInSource_eq, hparameter]
  exact h fun child hchild =>
    honce.of_mem_children (node.childrenInSource_perm.mem_iff.1 hchild)

/-- A command is mentioned with its assignments and with words that start one after the other,
when these are all the words there are. -/
theorem command {command : Command} {words : List Word}
    (h : Mentions all lexemes (command.assignments.map .assignment ++ words.map .word))
    (hwords : words.Pairwise fun left right => left.span.start < right.span.start)
    (hperm : (command.redirectionsIn all).Nodup → command.words.Perm words) :
    Mentions all lexemes [.command command] := by
  intro honce
  have hsame : command.wordsInSource = words := Command.wordsInSource_eq
    (hperm (honce _ List.mem_cons_self command (Node.mem_all_self _))) hwords
  have hchildren : Mentions all lexemes (Node.command command).childrenInSource := by
    rw [Node.childrenInSource, hsame]
    exact h
  exact hchildren.of_childrenInSource rfl honce

end Mentions

end CommandSyntax
