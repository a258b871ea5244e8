import CommandSyntax.Proofs.Script.Nodes
import CommandSyntax.Script.Query

/-!
# CommandSyntax.Proofs.Script.Depth

**The depth of a tree**, from the depths of the trees below its root: a tree is no deeper
than a bound when none below it is, a substitution counting for one
(`Node.substitutionDepth_le_iff`).
-/

namespace CommandSyntax.Node

theorem foldl_max_le_iff {depths : List Nat} {first bound : Nat} :
    depths.foldl max first ≤ bound ↔ first ≤ bound ∧ ∀ depth ∈ depths, depth ≤ bound := by
  induction depths generalizing first with
  | nil => simp
  | cons depth depths ih =>
    rw [List.foldl_cons, ih, Nat.max_le, List.forall_mem_cons, and_assoc]

theorem foldl_max_eq_or_mem (depths : List Nat) (first : Nat) :
    depths.foldl max first = first ∨ depths.foldl max first ∈ depths := by
  induction depths generalizing first with
  | nil => exact .inl rfl
  | cons depth depths ih =>
    rw [List.foldl_cons]
    rcases ih (max first depth) with hmax | hmem
    · rcases Nat.le_total depth first with hle | hle
      · exact .inl (by rw [hmax, Nat.max_eq_left hle])
      · exact .inr (by rw [hmax, Nat.max_eq_right hle]; exact List.mem_cons_self)
    · exact .inr (List.mem_cons_of_mem _ hmem)

theorem substitutionDepth_eq (node : Node) :
    node.substitutionDepth = (if node.kind = .substitution then 1 else 0) +
      (node.children.map substitutionDepth).foldl max 0 := fold_eq _ node

theorem substitutionDepth_le_iff {node : Node} {bound : Nat} :
    node.substitutionDepth ≤ bound ↔
      (if node.kind = .substitution then 1 else 0) ≤ bound ∧
        ∀ child ∈ node.children,
          (if node.kind = .substitution then 1 else 0) + child.substitutionDepth ≤ bound := by
  rw [substitutionDepth_eq]
  generalize (if node.kind = .substitution then 1 else 0) = own
  constructor
  · intro h
    have hbelow := foldl_max_le_iff.1 (Nat.le_sub_of_add_le' h)
    refine ⟨by omega, fun child hmem => ?_⟩
    have := hbelow.2 _ (List.mem_map_of_mem hmem)
    omega
  · rintro ⟨hown, hbelow⟩
    have hmax : (node.children.map substitutionDepth).foldl max 0 ≤ bound - own := by
      refine foldl_max_le_iff.2 ⟨Nat.zero_le _, List.forall_mem_map.2 fun child hmem => ?_⟩
      have := hbelow child hmem
      omega
    omega

/-- Below a node a tree is no deeper, and less deep below a substitution. -/
theorem substitutionDepth_child_le (node child : Node) (h : child ∈ node.children) :
    (if node.kind = .substitution then 1 else 0) + child.substitutionDepth ≤
      node.substitutionDepth :=
  (substitutionDepth_le_iff.1 (Nat.le_refl _)).2 child h

theorem substitutionDepth_le_of_mem_children {node child : Node} (h : child ∈ node.children) :
    child.substitutionDepth ≤ node.substitutionDepth :=
  Nat.le_trans (Nat.le_add_left ..) (substitutionDepth_child_le node child h)

/-- A tree is as deep as the deepest tree below its root, if there is one. -/
theorem substitutionDepth_eq_or (node : Node) :
    node.substitutionDepth = (if node.kind = .substitution then 1 else 0) ∨
      ∃ child ∈ node.children, node.substitutionDepth =
        (if node.kind = .substitution then 1 else 0) + child.substitutionDepth := by
  rw [substitutionDepth_eq]
  rcases foldl_max_eq_or_mem (node.children.map substitutionDepth) 0 with hmax | hmem
  · exact .inl (by rw [hmax, Nat.add_zero])
  · obtain ⟨child, hchild, hdepth⟩ := List.mem_map.1 hmem
    exact .inr ⟨child, hchild, by rw [hdepth]⟩

end CommandSyntax.Node
