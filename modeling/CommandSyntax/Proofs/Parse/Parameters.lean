import CommandSyntax.Proofs.Grammar.ScriptMentioning
import CommandSyntax.Proofs.Parse.Trace
import CommandSyntax.Proofs.Script.Queries
import CommandSyntax.Script.Equality

/-!
# CommandSyntax.Proofs.Parse.Parameters

**The parameters of a script beside those of its input.** A parse that succeeds has passed all
lexemes of the input, and these name what the tree names. So the parameters of a script are the
names in the text, each once; and they come in the order of the text where every command has its
words in the order of a walk (`parameters_of_parse`).

A walk comes to the files of a command after its arguments, wherever they stand. A redirection in
front of an argument is therefore enough to change the order (`exists_parameters_unordered`).
-/

namespace CommandSyntax

open Production Cursor

/-- The lexemes of an input. -/
def lexemes (input : String) : List Lexeme := (TokenStream.ofString input).lexemes

/-- The names of parameters in the text of an input, each where it comes first. -/
def parameterNames (input : String) : List String := (Lexeme.names (lexemes input)).eraseDups

/-! ### Names, each once -/

theorem nodup_eraseDups (names : List String) : names.eraseDups.Nodup := by
  have h : (names.foldl Node.addName []).Nodup := Node.nodup_foldl_addName List.nodup_nil
  simpa [Node.foldl_addName] using h

theorem perm_eraseDups {names names' : List String} (h : names.Perm names') :
    names.eraseDups.Perm names'.eraseDups := by
  refine (List.perm_ext_iff_of_nodup (nodup_eraseDups _) (nodup_eraseDups _)).2 fun name => ?_
  rw [List.mem_eraseDups, List.mem_eraseDups, h.mem_iff]

theorem Script.parameters_eq (script : Script) :
    script.parameters = (Node.script script).names.eraseDups := by
  rw [parameters, Node.addParameters_eq_foldl, Node.foldl_addName]
  simp [Node.names]

/-! ### All lexemes of an input -/

theorem TokenStream.lexemes_prepend (front : List Lexeme) (stream : TokenStream) :
    (TokenStream.prepend front stream).lexemes = front ++ stream.lexemes := by
  induction front with
  | nil => rfl
  | cons lexeme front ih => rw [prepend_cons, TokenStream.lexemes, ih, List.cons_append]

section

variable {input : String} {c last : Cursor} {passed : List Lexeme}

/-- A passage from the first token passes the first lexemes of the input. -/
theorem Cursor.Opens.lexemes_eq (hopens : c.Opens input) (hpasses : c.Passes passed last) :
    lexemes input = passed ++ last.stream.lexemes := by
  rw [lexemes, hopens.stream_of_passes hpasses, TokenStream.lexemes_prepend]

theorem Cursor.Opens.among (hopens : c.Opens input) : c.Among (lexemes input) where
  marked := ⟨hopens.placed, by rw [hopens.lastEnd_eq]; exact Nat.zero_le _⟩
  sublist hpasses := by
    rw [hopens.lexemes_eq hpasses]
    exact List.sublist_append_left ..

end

/-! ### Parameters of parsed scripts -/

/-- **The parameters of a script are the names in its text, each once**, when no command redirects
twice in the same way. The text names what the tree names in the order of the source; a walk comes
to the names in this order where every command has the files of its redirections behind its
arguments, in the order of a walk. -/
theorem parameters_of_parse {limits : ParseLimits} {input : String} {script : Script}
    (h : parse limits input = .ok script)
    (honce : (Node.script script).RedirectsOnce (lexemes input)) :
    Lexeme.names (lexemes input) = (Node.script script).namesInSource ∧
      script.parameters.Perm (parameterNames input) ∧
      ((Node.script script).InSourceOrder → script.parameters = parameterNames input) := by
  obtain ⟨c, last, hopens, hscript, hkind⟩ := parse_eq_ok_iff.1 h
  obtain ⟨passed, hpasses, hmentions⟩ := tells_of_script _ _ _ hopens.among hscript
  have hall : passed = lexemes input := by
    rw [hopens.lexemes_eq hpasses, (hpasses.placed hopens.placed).stream_of_stop hkind]
    exact (List.append_nil _).symm
  subst hall
  have hnames := (hmentions (List.forall_mem_singleton.2 honce)).names_eq
  rw [List.flatMap_singleton] at hnames
  rw [script.parameters_eq, parameterNames, hnames]
  refine ⟨rfl, perm_eraseDups (Node.namesInSource_perm _).symm, fun horder => ?_⟩
  rw [Node.namesInSource_eq_names horder]

/-! ### A redirection in front of an argument -/

/-- A word of one parameter. -/
def parameterWord (name : String) (start stop : Nat) : Word := ⟨[.parameter name], ⟨start, stop⟩⟩

/-- A command of six bytes with one argument and one file for its output, wherever they stand. -/
def redirectedCommand (argument target : Word) : Command :=
  ⟨[], [argument], none, some target, none, ⟨0, 6⟩⟩

/-- The script of that command. -/
def redirectedScript (argument target : Word) : Script :=
  ⟨[⟨⟨[redirectedCommand argument target], ⟨0, 6⟩⟩, false, ⟨0, 6⟩⟩], ⟨0, 6⟩⟩

theorem parse_target_first :
    parse {} ">$b $a" =
      .ok (redirectedScript (parameterWord "a" 4 6) (parameterWord "b" 1 3)) := by
  decide +kernel

theorem parse_argument_first :
    parse {} "$b >$a" =
      .ok (redirectedScript (parameterWord "b" 0 2) (parameterWord "a" 4 6)) := by
  decide +kernel

section

variable {name name' : String} {start stop start' stop' : Nat}

/-- There is no other command in the script. -/
theorem eq_of_mem_redirectedScript {command : Command}
    (h : .command command ∈ (Node.script (redirectedScript (parameterWord name start stop)
      (parameterWord name' start' stop'))).all) :
    command = redirectedCommand (parameterWord name start stop)
      (parameterWord name' start' stop') := by
  have hall (argument target : Word) (hargument : argument.parts = [.parameter name])
      (htarget : target.parts = [.parameter name']) :
      (Node.script (redirectedScript argument target)).all =
        [.script (redirectedScript argument target),
          .statement ⟨⟨[redirectedCommand argument target], ⟨0, 6⟩⟩, false, ⟨0, 6⟩⟩,
          .pipeline ⟨[redirectedCommand argument target], ⟨0, 6⟩⟩,
          .command (redirectedCommand argument target), .word argument, .part (.parameter name),
          .word target, .part (.parameter name')] := by
    obtain ⟨parts, span⟩ := argument
    obtain ⟨parts', span'⟩ := target
    subst hargument
    subst htarget
    cbv
  rw [hall _ _ rfl rfl] at h
  simpa using h

theorem redirectsOnce_redirectedScript {passed : List Lexeme}
    (h : (redirectedCommand (parameterWord name start stop)
      (parameterWord name' start' stop')).redirectionsIn passed = [.output]) :
    (Node.script (redirectedScript (parameterWord name start stop)
      (parameterWord name' start' stop'))).RedirectsOnce passed := by
  intro command hmem
  rw [eq_of_mem_redirectedScript hmem, h]
  exact List.nodup_singleton _

end

/-- A walk need not come to the parameters in the order of the text: the file of a redirection
comes after an argument that stands behind it. -/
theorem exists_parameters_unordered :
    ∃ input script, parse {} input = .ok script ∧
      (Node.script script).RedirectsOnce (lexemes input) ∧
      script.parameters = ["a", "b"] ∧ parameterNames input = ["b", "a"] :=
  ⟨">$b $a", _, parse_target_first, redirectsOnce_redirectedScript (by decide +kernel),
    by decide +kernel, by decide +kernel⟩

/-- Behind an argument the file of a redirection is where a walk comes to it. -/
theorem parameters_argument_first :
    ∃ script, parse {} "$b >$a" = .ok script ∧
      (Node.script script).RedirectsOnce (lexemes "$b >$a") ∧
      (Node.script script).InSourceOrder ∧ script.parameters = ["b", "a"] := by
  have honce : (Node.script (redirectedScript (parameterWord "b" 0 2)
      (parameterWord "a" 4 6))).RedirectsOnce (lexemes "$b >$a") :=
    redirectsOnce_redirectedScript (by decide +kernel)
  have horder : (Node.script (redirectedScript (parameterWord "b" 0 2)
      (parameterWord "a" 4 6))).InSourceOrder := by
    intro command hmem
    rw [eq_of_mem_redirectedScript hmem, Command.InSourceOrder]
    decide
  have hnames : parameterNames "$b >$a" = ["b", "a"] := by decide +kernel
  refine ⟨_, parse_argument_first, honce, horder, ?_⟩
  rw [(parameters_of_parse parse_argument_first honce).2.2 horder, hnames]

end CommandSyntax
