import CommandSyntax.Proofs.Script.Depth
import CommandSyntax.Proofs.Script.Visiting
import CommandSyntax.Proofs.Script.Ways

/-!
# CommandSyntax.Proofs.Script.Queries

**What is asked of a script is told by the nodes of its tree.** Commands are counted and names are
collected one node after the other. The depth of a tree is the greatest number of substitutions on
a way into it (`Node.max?_ways`), and what a visitor that counts substitutions in and out has seen
at most: such a visitor leaves a tree as deep as it came to it, and has been deeper by the depth of
the tree (`Visitor.changes_visit_depthTracker`).
-/

namespace CommandSyntax

/-! ### Counting commands -/

namespace Node

theorem commandCount_eq_countP (node : Node) :
    node.commandCount = node.all.countP fun node => node.kind = .command := by
  induction node using Node.induction with
  | step node ih =>
    have hbelow : node.children.map commandCount =
        node.children.map fun child => child.all.countP fun node => node.kind = .command :=
      List.map_congr_left ih
    rw [commandCount, fold_eq, ← commandCount, hbelow, all_eq, List.countP_cons,
      List.countP_flatMap, Nat.add_comm]
    simp only [decide_eq_true_eq]
    rfl

end Node

namespace Visitor

theorem foldl_ite_succ (nodes : List Node) (count : Nat) :
    nodes.foldl (fun count node => if node.kind = .command then count + 1 else count) count =
      count + nodes.countP fun node => node.kind = .command := by
  induction nodes generalizing count with
  | nil => rfl
  | cons node nodes ih =>
    rw [List.foldl_cons, ih, List.countP_cons]
    by_cases hkind : node.kind = .command
    · simp [hkind, Nat.add_assoc, Nat.add_comm]
    · simp [hkind]

theorem changes_visit_commandCounter (node : Node) :
    Changes (commandCounter.visit node) (· + node.commandCount) := by
  simp only [Node.commandCount_eq_countP, ← foldl_ite_succ]
  refine changes_visit (fun node count => if node.kind = .command then count + 1 else count)
    (fun node walk below hwalk => ?_) node
  cases node with
  | command => exact (changes_modify _).seq hwalk
  | _ => exact hwalk

end Visitor

/-! ### Collecting names -/

namespace Node

/-- Names that are added one after the other leave out those that are there already. -/
theorem foldl_addName (names found : List String) :
    names.foldl addName found = found ++ (names.filter (· ∉ found)).eraseDups := by
  induction names generalizing found with
  | nil => simp
  | cons name names ih =>
    rw [List.foldl_cons, ih, addName]
    by_cases hname : name ∈ found
    · rw [if_pos hname, List.filter_cons_of_neg (by simpa using hname)]
    · rw [if_neg hname, List.filter_cons_of_pos (by simpa using hname), List.eraseDups_cons,
        List.filter_filter, List.append_assoc, List.singleton_append]
      congr 4
      funext other
      cases hother : decide (other = name) <;> simp_all

theorem nodup_foldl_addName {names found : List String} (h : found.Nodup) :
    (names.foldl addName found).Nodup := by
  induction names generalizing found with
  | nil => exact h
  | cons name names ih =>
    refine ih ?_
    unfold addName
    split
    · exact h
    · rename_i hname
      exact List.concat_eq_append ▸ h.concat hname

theorem foldl_filterMap_parameter? (nodes : List Node) (names : List String) :
    (nodes.filterMap parameter?).foldl addName names =
      nodes.foldl (fun names node => node.parameter?.elim names (addName names)) names := by
  rw [List.foldl_filterMap]
  congr 1
  funext names node
  cases node.parameter? <;> rfl

/-- The parameters below a node are added in the order of its nodes. -/
theorem addParameters_eq_foldl (node : Node) (names : List String) :
    node.addParameters names = (node.all.filterMap parameter?).foldl addName names := by
  induction node using Node.induction generalizing names with
  | step node ih =>
    have hbelow (names : List String) :
        (node.children.map addParameters).foldl (fun names add => add names) names =
          ((node.children.flatMap all).filterMap parameter?).foldl addName names := by
      rw [List.foldl_map, List.filterMap_flatMap, List.foldl_flatMap]
      exact List.foldl_ext _ _ _ fun names child hchild => ih child hchild names
    rw [addParameters, fold_eq, ← addParameters, hbelow, all_eq, List.filterMap_cons]
    cases node.parameter? <;> rfl

end Node

namespace Visitor

theorem changes_visit_parameterCollector (node : Node) :
    Changes (parameterCollector.visit node) fun names =>
      (node.all.filterMap Node.parameter?).foldl Node.addName names := by
  simp only [Node.foldl_filterMap_parameter?]
  refine changes_visit (fun node names => node.parameter?.elim names (Node.addName names))
    (fun node walk below hwalk => ?_) node
  cases node with
  | part part =>
    cases part with
    | parameter => exact (changes_modify _).seq hwalk
    | _ => exact hwalk
  | _ => exact hwalk

end Visitor

/-! ### Counting substitutions in and out -/

namespace Visitor.Depths

/-- The depths of a walk that has been deeper than now by a number, and has come back. -/
def reach (depths : Depths) (number : Nat) : Depths :=
  ⟨depths.current, max depths.deepest (depths.current + number),
    Nat.le_trans depths.current_le (Nat.le_max_left ..)⟩

theorem reach_zero (depths : Depths) : depths.reach 0 = depths := by
  obtain ⟨current, deepest, hle⟩ := depths
  simpa only [reach, Depths.mk.injEq, true_and, Nat.add_zero] using Nat.max_eq_left hle

theorem reach_reach (depths : Depths) (first second : Nat) :
    (depths.reach first).reach second = depths.reach (max first second) := by
  simp only [reach, Depths.mk.injEq, true_and]
  omega

theorem leave_reach_enter (depths : Depths) (number : Nat) :
    (depths.enter.reach number).leave = depths.reach (1 + number) := by
  simp only [reach, enter, leave, Depths.mk.injEq]
  omega

theorem foldl_reach (nodes : List Node) (depth : Node → Nat) (depths : Depths) :
    nodes.foldl (fun depths node => depths.reach (depth node)) depths =
      depths.reach ((nodes.map depth).foldl max 0) := by
  rw [List.foldl_map]
  suffices h : ∀ number,
      nodes.foldl (fun depths node => depths.reach (depth node)) (depths.reach number) =
        depths.reach (nodes.foldl (fun deepest node => max deepest (depth node)) number) by
    simpa only [reach_zero] using h 0
  induction nodes with
  | nil => exact fun _ => rfl
  | cons node nodes ih =>
    intro number
    rw [List.foldl_cons, reach_reach, ih]
    rfl

end Visitor.Depths

namespace Visitor

/-- A visit comes back as deep as it was, and has been deeper by the depth of the tree. -/
theorem changes_visit_depthTracker (node : Node) :
    Changes (depthTracker.visit node) (·.reach node.substitutionDepth) := by
  induction node using Node.induction with
  | step node ih =>
    have hbelow := changes_forM ih
    simp only [Depths.foldl_reach] at hbelow
    rw [visit_eq, Node.substitutionDepth_eq]
    cases node with
    | substitution body =>
      have hwalk := (changes_modify Depths.enter).seq (hbelow.seq (changes_modify Depths.leave))
      simp only [Depths.leave_reach_enter] at hwalk
      exact hwalk
    | _ =>
      simp only [Node.kind, reduceCtorEq, if_false, Nat.zero_add]
      exact hbelow

end Visitor

/-! ### Ways through substitutions -/

namespace Node

/-- The number of substitutions on a way. -/
def substitutionsOn (way : List Node) : Nat := way.countP fun node => node.kind = .substitution

theorem mem_ways_iff {node : Node} {above way : List Node} :
    way ∈ node.ways above ↔
      way = node :: above ∨ ∃ child ∈ node.children, way ∈ child.ways (node :: above) := by
  rw [ways_eq, List.mem_cons, List.mem_flatMap]

theorem substitutionsOn_cons (node : Node) (above : List Node) :
    substitutionsOn (node :: above) =
      substitutionsOn above + if node.kind = .substitution then 1 else 0 := by
  simp [substitutionsOn, List.countP_cons]

theorem substitutionsOn_le {node : Node} {above way : List Node} (h : way ∈ node.ways above) :
    substitutionsOn way ≤ substitutionsOn above + node.substitutionDepth := by
  induction node using Node.induction generalizing above with
  | step node ih =>
    obtain rfl | ⟨child, hchild, hway⟩ := mem_ways_iff.1 h
    · rw [substitutionsOn_cons]
      exact Nat.add_le_add_left (substitutionDepth_le_iff.1 (Nat.le_refl _)).1 _
    · have hbelow := ih child hchild hway
      have hdepth := substitutionDepth_child_le node child hchild
      rw [substitutionsOn_cons] at hbelow
      omega

theorem exists_substitutionsOn_eq (node : Node) (above : List Node) :
    ∃ way ∈ node.ways above,
      substitutionsOn way = substitutionsOn above + node.substitutionDepth := by
  induction node using Node.induction generalizing above with
  | step node ih =>
    obtain hdepth | ⟨child, hchild, hdepth⟩ := substitutionDepth_eq_or node
    · exact ⟨node :: above, mem_ways_iff.2 (.inl rfl), by rw [substitutionsOn_cons, hdepth]⟩
    · obtain ⟨way, hway, hbelow⟩ := ih child hchild (node :: above)
      refine ⟨way, mem_ways_iff.2 (.inr ⟨child, hchild, hway⟩), ?_⟩
      rw [hbelow, substitutionsOn_cons, hdepth, Nat.add_assoc]

/-- The depth of a tree is the greatest number of substitutions on a way into it. -/
theorem max?_ways (node : Node) (above : List Node) :
    ((node.ways above).map substitutionsOn).max? =
      some (substitutionsOn above + node.substitutionDepth) := by
  rw [List.max?_eq_some_iff]
  refine ⟨List.mem_map.2 (exists_substitutionsOn_eq node above), ?_⟩
  exact List.forall_mem_map.2 fun way hway => substitutionsOn_le hway

/-- A tree has no depth when there is no substitution in it. -/
theorem substitutionDepth_eq_zero_iff {node : Node} :
    node.substitutionDepth = 0 ↔ ∀ other ∈ node.all, other.kind ≠ .substitution := by
  induction node using Node.induction with
  | step node ih =>
    rw [← Nat.le_zero, substitutionDepth_le_iff, all_eq, List.forall_mem_cons,
      List.forall_mem_flatMap]
    by_cases hkind : node.kind = .substitution
    · simp [hkind]
    · simp only [hkind, if_false, Nat.zero_add, Nat.le_zero, Nat.le_refl, true_and, ne_eq,
        not_false_eq_true]
      exact forall₂_congr ih

end Node

namespace Script

variable (script : Script)

/-- What is asked of a script is told by a visit that prunes nothing: how many commands it comes
to, which parameters, each where it comes to it first, and whether it comes to a substitution. The
depth is that of the way through most substitutions. -/
theorem queries_of_record :
    (Visitor.commandCounter.run 0 script = script.commandCount ∧
      script.commandCount =
        (script.record fun _ => false).countP fun node => node.kind = .command) ∧
    (Visitor.parameterCollector.run [] script = script.parameters ∧
      script.parameters.Nodup ∧
      script.parameters =
        ((script.record fun _ => false).filterMap Node.parameter?).eraseDups) ∧
    ((Visitor.depthTracker.run .start script).deepest = script.substitutionDepth ∧
      (script.ways.map Node.substitutionsOn).max? = some script.substitutionDepth ∧
      (script.substitutionDepth = 0 ↔
        ∀ node ∈ script.record fun _ => false, node.kind ≠ .substitution)) ∧
    (script.hasSubstitutions = true ↔
      ∃ node ∈ script.record fun _ => false, node.kind = .substitution) := by
  have hzero : script.substitutionDepth = 0 ↔ ∀ node ∈ script.nodes, node.kind ≠ .substitution :=
    Node.substitutionDepth_eq_zero_iff
  have hparameters : script.parameters =
      (script.nodes.filterMap Node.parameter?).foldl Node.addName [] :=
    Node.addParameters_eq_foldl _ _
  rw [record_eq_nodes]
  refine ⟨⟨?_, Node.commandCount_eq_countP _⟩, ⟨?_, ?_, ?_⟩, ⟨?_, ?_, hzero⟩, ?_⟩
  · exact (Visitor.changes_visit_commandCounter _).run_eq.trans (Nat.zero_add _)
  · rw [(Visitor.changes_visit_parameterCollector _).run_eq]
    exact hparameters.symm
  · rw [hparameters]
    exact Node.nodup_foldl_addName List.nodup_nil
  · rw [hparameters, Node.foldl_addName]
    simp
  · rw [(Visitor.changes_visit_depthTracker _).run_eq]
    exact (Nat.zero_max _).trans (Nat.zero_add _)
  · exact (Node.max?_ways _ _).trans (congrArg some (Nat.zero_add _))
  · rw [hasSubstitutions, decide_eq_true_eq, Nat.pos_iff_ne_zero, ne_eq, hzero]
    push Not
    rfl

end Script

end CommandSyntax
