import CommandSyntax.Proofs.Script.Nodes
import Mathlib.Data.List.Nodup

/-!
# CommandSyntax.Proofs.Script.Addresses

**Where a node stands in a tree.** A tree may hold equal nodes in several places, so a place is told
by its address: the fields that lead to it from the root, each a `Slot` of the node that it is read
from (`Node.find?`). Slots are the fields of the syntax tree, whatever order a walk takes them in.

The addresses of a tree (`Node.addresses`) are listed as a walk comes to them. They are all that
lead somewhere (`Node.mem_addresses_iff`), each once (`Node.nodup_addresses`), and none comes before
the one it continues (`Node.pair_sublist_addresses`). A walk that leaves out what lies below nodes
of some types comes to the addresses that no such node stands above (`Node.visits_eq_filter`).
-/

namespace CommandSyntax

/-- A field of a node that holds a node directly below it. -/
inductive Slot where
  /-- A statement of a script. -/
  | statement (index : Nat)
  /-- The pipeline of a statement. -/
  | pipeline
  /-- A command of a pipeline. -/
  | command (index : Nat)
  /-- An assignment of a command. -/
  | assignment (index : Nat)
  /-- An argument of a command. -/
  | argument (index : Nat)
  /-- The file that the input of a command is read from. -/
  | input
  /-- The file that the output of a command is written to. -/
  | output
  /-- The file that the output of a command is appended to. -/
  | append
  /-- The value of an assignment. -/
  | value
  /-- A part of a word. -/
  | part (index : Nat)
  /-- The wildcard that is a part. -/
  | glob
  /-- The substitution that is a part. -/
  | substitution
  /-- The script of a substitution. -/
  | body
deriving DecidableEq, Repr

namespace Node

/-! ### Slots -/

/-- The node in a slot of another one. -/
def at? : Node → Slot → Option Node
  | script s, .statement i => s.statements[i]?.map statement
  | statement s, .pipeline => some (pipeline s.pipeline)
  | pipeline p, .command i => p.commands[i]?.map command
  | command c, .assignment i => c.assignments[i]?.map assignment
  | command c, .argument i => c.arguments[i]?.map word
  | command c, .input => c.input.map word
  | command c, .output => c.output.map word
  | command c, .append => c.append.map word
  | assignment a, .value => a.value.map word
  | word w, .part i => w.parts[i]?.map part
  | part (.glob pattern), .glob => some (glob pattern)
  | part (.substitution body), .substitution => some (substitution body)
  | substitution body, .body => some (script body)
  | _, _ => none

/-- The node at an address below a root. -/
def find? : Node → List Slot → Option Node
  | root, [] => some root
  | root, slot :: address => (root.at? slot).bind fun child => child.find? address

/-- The nodes above an address, the root first. -/
def above : Node → List Slot → List Node
  | _, [] => []
  | root, slot :: address => root :: (root.at? slot).elim [] fun child => child.above address

/-- Items with the slots that hold them by their index. -/
def indexed {α : Type} (slot : Nat → Slot) (node : α → Node) (items : List α) :
    List (Slot × Node) :=
  items.zipIdx.map fun (item, i) => (slot i, node item)

/-- A word that may be absent with the slot that holds it. -/
def held (slot : Slot) (target : Option Word) : List (Slot × Node) :=
  target.toList.map fun found => (slot, word found)

/-- The slots of a node that hold something, with what they hold, in the order of a walk. -/
def contents : Node → List (Slot × Node)
  | script s => indexed .statement statement s.statements
  | statement s => [(.pipeline, pipeline s.pipeline)]
  | pipeline p => indexed .command command p.commands
  | command c =>
    indexed .assignment assignment c.assignments ++ (indexed .argument word c.arguments ++
      (held .input c.input ++ held .output c.output ++ held .append c.append))
  | assignment a => held .value a.value
  | word w => indexed .part part w.parts
  | part (.glob pattern) => [(.glob, glob pattern)]
  | part (.substitution body) => [(.substitution, substitution body)]
  | part (.literal _) => []
  | part (.parameter _) => []
  | glob _ => []
  | substitution body => [(.body, script body)]

section

variable {α : Type} {slot : Nat → Slot} {node : α → Node} {items : List α}

theorem map_snd_indexed : (indexed slot node items).map Prod.snd = items.map node := by
  rw [indexed, List.map_map]
  calc items.zipIdx.map (node ∘ Prod.fst)
      = (items.zipIdx.map Prod.fst).map node := List.map_map.symm
    _ = items.map node := by rw [List.zipIdx_map_fst]

theorem nodup_map_fst_indexed (hslot : Function.Injective slot) :
    ((indexed slot node items).map Prod.fst).Nodup := by
  have hindexes : (items.zipIdx.map Prod.snd).Nodup := by
    rw [List.zipIdx_map_snd]
    exact List.nodup_range'
  have hslots := hindexes.map hslot
  rw [List.map_map] at hslots
  rw [indexed, List.map_map]
  exact hslots

theorem mem_indexed_iff {found : Slot} {child : Node} :
    (found, child) ∈ indexed slot node items ↔
      ∃ i, slot i = found ∧ items[i]?.map node = some child := by
  simp only [indexed, List.mem_map, Prod.exists, List.mem_zipIdx_iff_getElem?, Prod.mk.injEq,
    Option.map_eq_some_iff]
  constructor
  · rintro ⟨item, i, hitem, hslot, hnode⟩
    exact ⟨i, hslot, item, hitem, hnode⟩
  · rintro ⟨i, hslot, item, hitem, hnode⟩
    exact ⟨item, i, hitem, hslot, hnode⟩

end

/-- The slots hold the children of a node. -/
theorem map_snd_contents (node : Node) : node.contents.map Prod.snd = node.children := by
  cases node with
  | part p => cases p <;> rfl
  | statement | glob | substitution => rfl
  | script | pipeline | word => exact map_snd_indexed
  | assignment => simp [contents, children, held, Function.comp_def]
  | command => simp [contents, children, map_snd_indexed, held, Command.targets, Function.comp_def]

/-- What is listed for a slot is what is read from it. -/
theorem mem_contents_iff {node child : Node} {slot : Slot} :
    (slot, child) ∈ node.contents ↔ node.at? slot = some child := by
  cases node with
  | part p => cases p <;> cases slot <;> simp [contents, at?, eq_comm]
  | _ => cases slot <;> simp [contents, at?, mem_indexed_iff, held, eq_comm]

/-- No slot is listed twice. -/
theorem nodup_map_fst_contents (node : Node) : (node.contents.map Prod.fst).Nodup := by
  cases node with
  | part p => cases p <;> simp [contents]
  | statement | glob | substitution => simp [contents]
  | script | pipeline | word => exact nodup_map_fst_indexed fun i j h => by simpa using h
  | assignment a => cases hvalue : a.value <;> simp [contents, held, hvalue]
  | command c =>
    have hassignments : ((indexed .assignment assignment c.assignments).map Prod.fst).Nodup :=
      nodup_map_fst_indexed fun i j h => by simpa using h
    have harguments : ((indexed .argument word c.arguments).map Prod.fst).Nodup :=
      nodup_map_fst_indexed fun i j h => by simpa using h
    simp only [contents, List.map_append]
    refine hassignments.append (harguments.append ?_ ?_) ?_
    · cases c.input <;> cases c.output <;> cases c.append <;> simp [held]
    · intro slot hargument htarget
      cases slot <;> simp_all [indexed, held]
    · intro slot hassignment hother
      cases slot <;> simp_all [indexed, held]

/-! ### Addresses -/

/-- The addresses of the nodes of a tree, each before those it leads on to. -/
def addresses : Node → List (List Slot) :=
  fold fun node below => [] ::
    ((node.contents.map Prod.fst).zip below).flatMap fun (slot, addresses) =>
      addresses.map (slot :: ·)

theorem addresses_eq (node : Node) :
    node.addresses = [] ::
      node.contents.flatMap fun (slot, child) => child.addresses.map (slot :: ·) := by
  rw [addresses, fold_eq, ← map_snd_contents, List.map_map, List.zip_map', List.flatMap_map]
  rfl

theorem cons_mem_addresses_iff {node : Node} {slot : Slot} {address : List Slot} :
    slot :: address ∈ node.addresses ↔
      ∃ child, node.at? slot = some child ∧ address ∈ child.addresses := by
  simp only [addresses_eq node, List.mem_cons, reduceCtorEq, false_or, List.mem_flatMap,
    List.mem_map, Prod.exists, List.cons.injEq, mem_contents_iff]
  constructor
  · rintro ⟨_, child, hchild, _, haddress, rfl, rfl⟩
    exact ⟨child, hchild, haddress⟩
  · rintro ⟨child, hchild, haddress⟩
    exact ⟨slot, child, hchild, address, haddress, rfl, rfl⟩

theorem nil_mem_addresses (node : Node) : [] ∈ node.addresses := by
  rw [addresses_eq]
  exact List.mem_cons_self

/-- The addresses of a tree are those that lead somewhere. -/
theorem mem_addresses_iff {root : Node} {address : List Slot} :
    address ∈ root.addresses ↔ (root.find? address).isSome := by
  induction address generalizing root with
  | nil => simp [find?, nil_mem_addresses]
  | cons slot address ih =>
    rw [cons_mem_addresses_iff, find?]
    cases root.at? slot with
    | none => simp
    | some child => simp [ih]

/-- No address is listed twice. -/
theorem nodup_addresses (node : Node) : node.addresses.Nodup := by
  induction node using Node.induction with
  | step node ih =>
    rw [addresses_eq, List.nodup_cons, List.nodup_flatMap]
    refine ⟨by simp, ?_, ?_⟩
    · rintro ⟨slot, child⟩ hchild
      have hmem : child ∈ node.children := by
        rw [← map_snd_contents]
        exact List.mem_map_of_mem hchild
      exact (ih child hmem).map (List.cons_injective)
    · refine (List.pairwise_map.1 (nodup_map_fst_contents node)).imp ?_
      intro first second hslots address hfirst hsecond
      obtain ⟨below, -, rfl⟩ := List.mem_map.1 hfirst
      obtain ⟨below', -, heq⟩ := List.mem_map.1 hsecond
      exact hslots (List.cons.inj heq).1.symm

/-- The addresses below a child stand together, in order. -/
theorem map_cons_sublist_addresses {node child : Node} {slot : Slot}
    (h : node.at? slot = some child) :
    (child.addresses.map (slot :: ·)).Sublist node.addresses := by
  rw [addresses_eq node, List.flatMap_def]
  refine (List.sublist_flatten_of_mem ?_).cons []
  exact List.mem_map.2 ⟨(slot, child), mem_contents_iff.2 h, rfl⟩

/-- The address of a node is listed before those of its children. -/
theorem pair_sublist_addresses {node : Node} {address : List Slot} {slot : Slot}
    (h : address ++ [slot] ∈ node.addresses) :
    [address, address ++ [slot]].Sublist node.addresses := by
  induction address generalizing node with
  | nil =>
    rw [addresses_eq] at h ⊢
    exact (List.singleton_sublist.2 (List.mem_of_ne_of_mem (by simp) h)).cons_cons []
  | cons first address ih =>
    obtain ⟨child, hchild, hbelow⟩ := cons_mem_addresses_iff.1 h
    exact ((ih hbelow).map (first :: ·)).trans (map_cons_sublist_addresses hchild)

/-! ### Addresses that a walk comes to -/

theorem visits_eq (pruned : NodeKind → Bool) (node : Node) :
    node.visits pruned =
      node :: if pruned node.kind then [] else node.children.flatMap (visits pruned) := by
  rw [visits, fold_eq, List.flatMap_def]

/-- What is visited stands at the addresses below no node of a pruned type. -/
theorem visits_eq_filter (pruned : NodeKind → Bool) (root : Node) :
    (root.visits pruned).map some =
      (root.addresses.filter fun address =>
        (root.above address).all fun node => !pruned node.kind).map root.find? := by
  induction root using Node.induction with
  | step root ih =>
    rw [visits_eq, addresses_eq, List.filter_cons_of_pos (by rfl), List.map_cons, List.map_cons]
    congr 1
    rw [List.filter_flatMap, List.map_flatMap]
    cases hroot : pruned root.kind with
    | true => simp [List.filter_eq_nil_iff, above, hroot]
    | false =>
      rw [if_neg Bool.false_ne_true, ← map_snd_contents, List.flatMap_map, List.map_flatMap]
      refine List.flatMap_congr fun ⟨slot, child⟩ hcontent => ?_
      have hat := mem_contents_iff.1 hcontent
      have hchild : child ∈ root.children := map_snd_contents root ▸ List.mem_map_of_mem hcontent
      simp only [ih child hchild, List.filter_map, List.map_map]
      simp [Function.comp_def, above, find?, hat, hroot]

end Node

end CommandSyntax
