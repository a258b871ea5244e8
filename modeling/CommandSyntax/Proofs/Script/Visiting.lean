import CommandSyntax.Proofs.Script.Addresses
import CommandSyntax.Script.Visitor

/-!
# CommandSyntax.Proofs.Script.Visiting

**What a visit does to the state of a visitor.** A method that is only handed walks which change the
state, whatever they find there, changes the state itself (`Visitor.Changes`): this passes from
actions to actions in a row, and from the children of a node to the node. A visitor that acts on a
node and then walks on acts on all nodes of a tree in order (`Visitor.changes_visit`).

So a visitor that records what it visits records every address of a tree once, and each before
those it leads on to. When it leaves out walks, it leaves out what lies below the nodes that it does
not walk on at, and nothing else (`Script.record_eq_filter`).
-/

namespace CommandSyntax

namespace Visitor

variable {σ : Type} {visitor : Visitor σ} {action : StateM σ Unit} {change : σ → σ}

/-- Whatever the state is, an action changes it in some way, and does nothing else. -/
def Changes (action : StateM σ Unit) (change : σ → σ) : Prop :=
  ∀ state, action.run state = ((), change state)

theorem changes_nothing : Changes (pure () : StateM σ Unit) id := fun _ => rfl

theorem changes_modify (change : σ → σ) : Changes (modify change) change := fun _ => rfl

theorem Changes.seq {next : StateM σ Unit} {following : σ → σ} (h : Changes action change)
    (hnext : Changes next following) :
    Changes (do action; next) fun state => following (change state) := by
  intro state
  rw [StateT.run_bind, h state]
  exact hnext _

theorem changes_forM {nodes : List Node} {walked : Node → StateM σ Unit} {change : Node → σ → σ}
    (h : ∀ node ∈ nodes, Changes (walked node) (change node)) :
    Changes ((nodes.map walked).forM id) fun state =>
      nodes.foldl (fun state node => change node state) state := by
  induction nodes with
  | nil => exact changes_nothing
  | cons node nodes ih =>
    obtain ⟨hnode, hnodes⟩ := List.forall_mem_cons.1 h
    exact hnode.seq (ih hnodes)

theorem Changes.run_eq {start : σ} {script : Script}
    (h : Changes (visitor.visit (.script script)) change) :
    visitor.run start script = change start := by
  rw [run, h]

theorem visit_eq (visitor : Visitor σ) (node : Node) :
    visitor.visit node = visitor.act node ((node.children.map visitor.visit).forM id) := by
  rw [visit, Node.fold_eq]

/-- A visitor that changes the state at every node and then walks on changes it at all nodes of
a tree, in order. -/
theorem changes_visit (note : Node → σ → σ)
    (h : ∀ node {walk : StateM σ Unit} {below : σ → σ}, Changes walk below →
      Changes (visitor.act node walk) fun state => below (note node state))
    (node : Node) :
    Changes (visitor.visit node) fun state =>
      node.all.foldl (fun state node => note node state) state := by
  induction node using Node.induction with
  | step node ih =>
    rw [visit_eq, Node.all_eq]
    simpa only [List.foldl_cons, List.foldl_flatMap] using h node (changes_forM ih)

/-! ### Recording -/

theorem act_recorder (pruned : NodeKind → Bool) (node : Node) (walk : StateM (List Node) Unit) :
    (recorder pruned).act node walk =
      (do modify (· ++ [node]); unless pruned node.kind do walk) := by
  rw [recorder, act_uniform]

/-- A node is recorded, and then what is visited below it. -/
theorem changes_visit_recorder (pruned : NodeKind → Bool) (node : Node) :
    Changes ((recorder pruned).visit node) (· ++ node.visits pruned) := by
  induction node using Node.induction with
  | step node ih =>
    rw [visit_eq, act_recorder, Node.visits_eq]
    cases pruned node.kind with
    | true => exact changes_modify _
    | false =>
      rw [if_neg Bool.false_ne_true, if_neg Bool.false_ne_true]
      have hbelow := (changes_modify (· ++ [node])).seq (changes_forM ih)
      simpa only [List.foldl_append_eq_append, List.append_assoc, List.singleton_append,
        ← List.flatMap_def] using hbelow

end Visitor

/-- When nodes of some types are pruned, what is visited is recorded, in order. -/
theorem Script.record_eq_visits (script : Script) (pruned : NodeKind → Bool) :
    script.record pruned = (Node.script script).visits pruned :=
  (Visitor.changes_visit_recorder pruned (.script script)).run_eq

theorem Script.record_eq_nodes (script : Script) : script.record (fun _ => false) = script.nodes :=
  script.record_eq_visits _

namespace Script

variable (script : Script)

/-- The addresses of the nodes of a script. -/
def addresses (script : Script) : List (List Slot) := (Node.script script).addresses

/-- A visit that prunes nothing records every place of a script once, in an order in which no
node stands behind one below it; a visit that prunes nodes of some types records of that, in the
same order, what stands below no such node. -/
theorem record_eq_filter :
    (script.addresses.Nodup ∧
      (∀ address, address ∈ script.addresses ↔ ((Node.script script).find? address).isSome) ∧
      ∀ address slot, address ++ [slot] ∈ script.addresses →
        [address, address ++ [slot]].Sublist script.addresses) ∧
    (script.record fun _ => false).map some =
      script.addresses.map (Node.script script).find? ∧
    ∀ pruned : NodeKind → Bool, (script.record pruned).map some =
      (script.addresses.filter fun address =>
        ((Node.script script).above address).all fun node => !pruned node.kind).map
          (Node.script script).find? := by
  have hrecord (pruned : NodeKind → Bool) := Node.visits_eq_filter pruned (.script script)
  refine ⟨⟨Node.nodup_addresses _, fun _ => Node.mem_addresses_iff,
    fun _ _ => Node.pair_sublist_addresses⟩, ?_, fun pruned => ?_⟩
  · rw [record_eq_visits, hrecord, List.filter_eq_self.2 fun _ _ => by simp]
    rfl
  · rw [record_eq_visits]
    exact hrecord pruned

end Script

end CommandSyntax
