import CommandSyntax.Proofs.Script.Nodes
import CommandSyntax.Token

/-!
# CommandSyntax.Proofs.Script.Placement

**How the spans of a tree may lie.** A tree is placed well (`Node.WellPlaced`) when the spans of
its nodes start and end with tokens, when every node has those below it inside, and when what
stands side by side does not overlap.

A node has all nodes below it inside when it has its children inside, and they theirs
(`Node.within_of_nests`). A part has no span of its own; one that holds a substitution is
outlined by the script.
-/

namespace CommandSyntax

/-! ### Spans side by side -/

namespace Span

/-- The bytes of a span are bytes of another. -/
def Within (inner outer : Span) : Prop := outer.start ≤ inner.start ∧ inner.stop ≤ outer.stop

/-- A span ends before another one starts, or where it does. -/
def Before (left right : Span) : Prop := left.stop ≤ right.start

/-- No byte belongs to both spans. -/
def Disjoint (left right : Span) : Prop := left.Before right ∨ right.Before left

/-- A span with bytes reaches from a token to a token, neither of which is whitespace or the
marker of the end. -/
structure Aligned (tokens : List Token) (span : Span) : Prop where
  /-- A token starts where the span starts. -/
  starts : ∃ token ∈ tokens, token.kind ≠ .whitespace ∧ token.kind ≠ .stop ∧
    token.start = span.start
  /-- A token ends where the span ends. -/
  ends : ∃ token ∈ tokens, token.kind ≠ .whitespace ∧ token.kind ≠ .stop ∧ token.stop = span.stop
  /-- The span has bytes. -/
  start_lt : span.start < span.stop

variable {left right inner outer middle : Span}

theorem Within.refl (span : Span) : span.Within span := ⟨Nat.le_refl _, Nat.le_refl _⟩

theorem Within.trans (h : inner.Within middle) (h' : middle.Within outer) : inner.Within outer :=
  ⟨Nat.le_trans h'.1 h.1, Nat.le_trans h.2 h'.2⟩

theorem Disjoint.symm (h : left.Disjoint right) : right.Disjoint left := Or.symm h

end Span

/-! ### Trees -/

namespace Node

/-- Whether a node is a script without statements, or the substitution of one. -/
def isBlank : Node → Bool
  | script s => s.isEmpty
  | substitution body => body.isEmpty
  | _ => false

/-- What stands side by side is in order and does not overlap. The files of redirections may
stand anywhere in a command. -/
def Ordered : Node → Prop
  | script s => (s.statements.map Statement.span).Pairwise Span.Before
  | pipeline p => (p.commands.map Command.span).Pairwise Span.Before
  | command c => c.pieces.Pairwise Span.Before ∧
      (c.pieces ++ c.targets.map Word.span).Pairwise Span.Disjoint
  | _ => True

/-- A node is placed well among the tokens of an input with some number of bytes. -/
structure WellPlaced (tokens : List Token) (size : Nat) (node : Node) : Prop where
  /-- A script without statements has no bytes and stands inside the input. All other nodes
  reach from a token to a token. -/
  aligned : ∀ span ∈ node.span?,
    if node.isBlank then span.isEmpty ∧ span.stop ≤ size else span.Aligned tokens
  /-- All nodes below the node are inside it. -/
  within : ∀ below ∈ node.all, ∀ outer ∈ node.span?, ∀ inner ∈ below.span?, inner.Within outer
  /-- What stands side by side is in order. -/
  ordered : node.Ordered

/-- The bytes of a node, or for a part those of the script that it holds. -/
def outline? : Node → Option Span
  | part (.substitution body) => some body.span
  | node => node.span?

theorem outline?_of_span? {node : Node} {span : Span} (h : span ∈ node.span?) :
    span ∈ node.outline? := by
  cases node with
  | part => simp [span?] at h
  | _ => exact h

/-- A node has its children inside. -/
def Nests (node : Node) : Prop :=
  ∀ child ∈ node.children, ∀ outer ∈ node.outline?, ∀ inner ∈ child.outline?, inner.Within outer

/-- Nothing below a node without an outline has one. -/
theorem outline?_of_mem_all {node : Node} (h : node.outline? = none) :
    ∀ below ∈ node.all, below.outline? = none := by
  refine forall_mem_all (fun node hnode child hchild => ?_) node h
  cases node with
  | part part =>
    cases part with
    | literal | parameter => simp [children] at hchild
    | glob =>
      obtain rfl := List.mem_singleton.1 hchild
      rfl
    | substitution => simp [outline?] at hnode
  | glob => simp [children] at hchild
  | _ => simp [outline?, span?] at hnode

/-- Nodes that have their children inside have all nodes below them inside. -/
theorem within_of_nests (node : Node) (h : ∀ below ∈ node.all, below.Nests) :
    ∀ below ∈ node.all, ∀ outer ∈ node.outline?, ∀ inner ∈ below.outline?, inner.Within outer := by
  induction node using Node.induction with
  | step node ih =>
    intro below hbelow outer houter inner hinner
    rcases mem_all_iff.1 hbelow with rfl | ⟨child, hchild, hbelow⟩
    · obtain rfl := Option.mem_unique houter hinner
      exact .refl _
    · cases hmiddle : child.outline? with
      | none => simp [outline?_of_mem_all hmiddle below hbelow] at hinner
      | some middle =>
        have hnests := h node (mem_all_self node) child hchild outer houter middle hmiddle
        refine .trans ?_ hnests
        exact ih child hchild (fun _ hmem => h _ (mem_all_of_child hchild hmem)) below hbelow middle
          hmiddle inner hinner

end Node

end CommandSyntax
