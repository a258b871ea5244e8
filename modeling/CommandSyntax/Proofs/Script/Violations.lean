import CommandSyntax.Proofs.Script.Depth
import CommandSyntax.Proofs.Script.Placement
import CommandSyntax.Validation

/-!
# CommandSyntax.Proofs.Script.Violations

**The violations of a tree**: those of its root, then those of the trees below its children,
with the root above them (`Node.violations_eq`).

No nesting is reported in a tree that is no deeper than what is allowed below its surroundings
(`Node.excessiveNesting_not_mem`). A violation is told with the bytes of a statement, a command
or a word of the tree; only a part by itself has no such bytes, and takes those of the word
around it (`Node.span_of_mem_violations`).
-/

namespace CommandSyntax

namespace Node

variable {rules : Rules} {node : Node} {above : Surroundings} {violation : Violation}

theorem violations_eq (rules : Rules) (node : Node) (above : Surroundings) :
    node.violations rules above = rules.check (above.enter node) node ++
      node.children.flatMap fun child => child.violations rules (above.enter node) := by
  rw [violations, fold_eq]
  simp only [List.flatMap_map]

theorem mem_violations_iff :
    violation ∈ node.violations rules above ↔
      violation ∈ rules.check (above.enter node) node ∨
        ∃ child ∈ node.children, violation ∈ child.violations rules (above.enter node) := by
  rw [violations_eq, List.mem_append, List.mem_flatMap]

/-! ### Nesting -/

theorem depth_enter (above : Surroundings) (node : Node) :
    (above.enter node).depth = above.depth + if node.kind = .substitution then 1 else 0 := by
  cases node <;> rfl

/-- Nesting is reported only at a substitution, and only when it is too deep. -/
theorem lt_of_excessiveNesting_mem_check {here : Surroundings} {depth limit : Nat} {span : Span}
    (h : .excessiveNesting depth limit span ∈ rules.check here node) :
    node.kind = .substitution ∧ rules.nesting < here.depth := by
  cases node with
  | statement statement =>
    simp [Rules.check, Rules.checkStatement] at h
  | command command =>
    simp only [Rules.check, Rules.checkCommand, List.mem_append] at h
    rcases h with h | h <;> split at h <;> simp at h
  | substitution body =>
    simp only [Rules.check, Rules.checkSubstitution, List.mem_append] at h
    rcases h with h | h
    · split at h
      · rename_i hdeep
        simp only [Bool.and_eq_true, decide_eq_true_eq] at hdeep
        exact ⟨rfl, hdeep.2⟩
      · simp at h
    · split at h <;> simp at h
  | _ => simp [Rules.check] at h

/-- A tree that is not too deep for what lies above it has no excessive nesting. -/
theorem excessiveNesting_not_mem (h : above.depth + node.substitutionDepth ≤ rules.nesting)
    (depth limit : Nat) (span : Span) :
    .excessiveNesting depth limit span ∉ node.violations rules above := by
  induction node using Node.induction generalizing above with
  | step node ih =>
    obtain ⟨hown, hbelow⟩ := substitutionDepth_le_iff.1 (Nat.le_refl node.substitutionDepth)
    rw [mem_violations_iff]
    rintro (hhere | ⟨child, hchild, hmem⟩)
    · obtain ⟨hkind, hdeep⟩ := lt_of_excessiveNesting_mem_check hhere
      rw [depth_enter, if_pos hkind] at hdeep
      rw [if_pos hkind] at hown
      omega
    · refine ih child hchild ?_ hmem
      have := hbelow child hchild
      rw [depth_enter]
      omega

/-! ### Where violations are told -/

/-- A violation of a single node is told with its own bytes, but that of a substitution with
those of the word around it. -/
theorem span_of_mem_check {here : Surroundings} (h : violation ∈ rules.check here node) :
    node.isBlank = false ∧ node.span? = some violation.span ∨
      node.kind = .substitution ∧ violation.span = here.word := by
  cases node with
  | statement statement =>
    simp only [Rules.check, Rules.checkStatement] at h
    split at h
    · obtain rfl := List.mem_singleton.1 h
      exact .inl ⟨rfl, rfl⟩
    · simp at h
  | command command =>
    simp only [Rules.check, Rules.checkCommand, List.mem_append] at h
    refine .inl ⟨rfl, ?_⟩
    rcases h with h | h <;> split at h <;> simp_all [span?, Violation.span]
  | substitution body =>
    simp only [Rules.check, Rules.checkSubstitution, List.mem_append] at h
    refine .inr ⟨rfl, ?_⟩
    rcases h with h | h <;> split at h <;> simp_all [Violation.span]
  | _ => simp [Rules.check] at h

/-- A part stands in a word, and a substitution is a part. -/
theorem eq_of_part_mem_children {child : Node} (h : child ∈ node.children)
    (hkind : child.kind = .part ∨ child.kind = .substitution) :
    (∃ word, node = .word word) ∨ ∃ part, node = .part part := by
  cases node with
  | word word => exact .inl ⟨word, rfl⟩
  | part part => exact .inr ⟨part, rfl⟩
  | command command =>
    simp only [children, List.mem_append, List.mem_map] at h
    rcases h with ⟨_, -, rfl⟩ | ⟨_, -, rfl⟩ <;> simp [kind] at hkind
  | script | pipeline | assignment =>
    obtain ⟨_, -, rfl⟩ := List.mem_map.1 h
    simp [kind] at hkind
  | statement | substitution =>
    obtain rfl := List.mem_singleton.1 h
    simp [kind] at hkind
  | glob => simp [children] at h

theorem span_of_mem_violations (h : violation ∈ node.violations rules above) :
    (∃ other ∈ node.all, other.isBlank = false ∧ other.span? = some violation.span) ∨
      (node.kind = .part ∨ node.kind = .substitution) ∧ violation.span = above.word := by
  induction node using Node.induction generalizing above with
  | step node ih =>
    rcases mem_violations_iff.1 h with hhere | ⟨child, hchild, hmem⟩
    · rcases span_of_mem_check hhere with hown | ⟨hkind, hword⟩
      · exact .inl ⟨node, mem_all_self node, hown⟩
      · refine .inr ⟨.inr hkind, hword.trans ?_⟩
        cases node <;> simp_all [kind, Surroundings.enter]
    · rcases ih child hchild hmem with ⟨other, hother, hspan⟩ | ⟨hkind, hword⟩
      · exact .inl ⟨other, mem_all_of_child hchild hother, hspan⟩
      · obtain ⟨word, rfl⟩ | ⟨part, rfl⟩ := eq_of_part_mem_children hchild hkind
        · exact .inl ⟨_, mem_all_self _, rfl, congrArg some hword.symm⟩
        · exact .inr ⟨.inl rfl, hword⟩

end Node

/-- In a script every violation is told with the bytes of a node that has some. -/
theorem Script.span_of_mem_violations {rules : Rules} {script : Script} {violation : Violation}
    (h : violation ∈ script.violations rules) :
    ∃ node ∈ script.nodes, node.isBlank = false ∧ node.span? = some violation.span := by
  obtain hnode | ⟨hkind, -⟩ := Node.span_of_mem_violations h
  · exact hnode
  · simp [Node.kind] at hkind

end CommandSyntax
