import BracketScript.Proofs.Composition
import Mathlib.Data.List.Chain
import Mathlib.Logic.Relation
import Mathlib.Order.Bounds.Defs

/-! The nodes that lie within a node: its children, and those within these. A chain of nodes, each
within the one before, is no longer than the node is high that it starts from, and some chain is as
long. -/
namespace BracketScript

namespace Node

variable {ν τ : Type} {n m : Node ν τ} {ns : List (Node ν τ)}

/-- The nodes directly below a node, in the order of the source. -/
def children (n : Node ν τ) : List (Node ν τ) := n.parts.map Prod.snd

theorem sizeOf_lt_of_mem_children (child : m ∈ n.children) : sizeOf m < sizeOf n := by
  have member {ms : List (Node ν τ)} : m ∈ ms → sizeOf m < sizeOf ms := List.sizeOf_lt_of_mem
  have part {o : Option (Node ν τ)} : m ∈ o → sizeOf m < sizeOf o := by
    rintro ⟨⟩
    simp
  cases n with
  | block body | function _ _ body | lambda _ body | list body =>
    have inside : m ∈ body := by simpa [children, parts] using child
    have below := member inside
    simp only [block.sizeOf_spec, function.sizeOf_spec, lambda.sizeOf_spec, list.sizeOf_spec]
    omega
  | guarded _ first others | access first others =>
    simp only [guarded.sizeOf_spec, access.sizeOf_spec]
    obtain rfl | inside : m = first ∨ m ∈ others := by simpa [children, parts] using child
    · omega
    · have below := member inside
      omega
  | loop init condition step body =>
    rw [loop.sizeOf_spec]
    have inside : ((m ∈ init ∨ m ∈ condition) ∨ m ∈ step) ∨ m ∈ body := by
      simpa [children, parts, or_assoc] using child
    rcases inside with ((inside | inside) | inside) | inside
    · have below := part inside
      omega
    · have below := part inside
      omega
    · have below := part inside
      omega
    · have below := member inside
      omega
  | binding _ value | assignment _ value | result value | unary _ value =>
    obtain rfl : m = value := by simpa [children, parts] using child
    simp only [binding.sizeOf_spec, assignment.sizeOf_spec, result.sizeOf_spec, unary.sizeOf_spec]
    omega
  | binary _ left right =>
    rw [binary.sizeOf_spec]
    obtain rfl | rfl : m = left ∨ m = right := by simpa [children, parts] using child
    all_goals omega
  | enumeration | jump | leaf => simp [children, parts] at child

/-- A node and all nodes below it, in preorder. -/
def nodes (n : Node ν τ) : List (Node ν τ) :=
  n :: n.children.attach.flatMap fun ⟨m, _⟩ => m.nodes
termination_by sizeOf n
decreasing_by exact sizeOf_lt_of_mem_children ‹_›

theorem nodes_eq (n : Node ν τ) : n.nodes = n :: n.children.flatMap nodes := by
  rw [nodes]
  simp

/-- Structural induction with the children of a node in place of its constructors. -/
theorem children_induction {motive : Node ν τ → Prop}
    (step : ∀ n, (∀ m ∈ n.children, motive m) → motive n) (n : Node ν τ) : motive n :=
  nodes.induct motive step n

theorem mem_nodes_self (n : Node ν τ) : n ∈ n.nodes := by
  rw [nodes_eq]
  exact List.mem_cons_self

theorem nodes_subset (child : m ∈ n.children) : m.nodes ⊆ n.nodes := by
  intro k member
  rw [nodes_eq]
  exact List.mem_cons_of_mem _ (List.mem_flatMap.mpr ⟨m, child, member⟩)

/-- The number of nodes on a longest path down, the node included. -/
def height (n : Node ν τ) : Nat :=
  (n.children.attach.map fun ⟨m, _⟩ => m.height).foldr max 0 + 1
termination_by sizeOf n
decreasing_by exact sizeOf_lt_of_mem_children ‹_›

def listHeight (ns : List (Node ν τ)) : Nat := (ns.map height).foldr max 0

theorem height_eq (n : Node ν τ) : n.height = listHeight n.children + 1 := by
  rw [height, listHeight]
  simp

theorem height_le_listHeight (member : n ∈ ns) : n.height ≤ listHeight ns := by
  induction ns with
  | nil => cases member
  | cons m ms ih =>
    rcases List.mem_cons.mp member with rfl | member
    · exact Nat.le_max_left _ _
    · exact Nat.le_trans (ih member) (Nat.le_max_right _ _)

theorem exists_height_eq_listHeight (nonempty : ns ≠ []) : ∃ n ∈ ns, n.height = listHeight ns := by
  induction ns with
  | nil => exact absurd rfl nonempty
  | cons m ms ih =>
    have split : listHeight (m :: ms) = max m.height (listHeight ms) := rfl
    by_cases le : listHeight ms ≤ m.height
    · exact ⟨m, List.mem_cons_self, by rw [split, Nat.max_eq_left le]⟩
    · have others : ms ≠ [] := by
        rintro rfl
        exact le (Nat.zero_le _)
      obtain ⟨n, member, highest⟩ := ih others
      refine ⟨n, List.mem_cons_of_mem _ member, ?_⟩
      rw [highest, split, Nat.max_eq_right (Nat.le_of_not_le le)]

def Nests : Node ν τ → Node ν τ → Prop := Relation.TransGen fun n m => m ∈ n.children

theorem Nests.height_lt (nests : Nests n m) : m.height < n.height := by
  induction nests with
  | single child =>
    rw [height_eq n]
    exact Nat.lt_succ_of_le (height_le_listHeight child)
  | @tail k m _ child ih =>
    rw [height_eq k] at ih
    have below := height_le_listHeight child
    omega

def IsDescent (ns : List (Node ν τ)) : Prop := ns.IsChain Nests

theorem IsDescent.length_le (descent : IsDescent (n :: ns)) : (n :: ns).length ≤ n.height := by
  induction ns generalizing n with
  | nil =>
    rw [height_eq]
    exact Nat.le_add_left 1 _
  | cons m ms ih =>
    obtain ⟨nests, further⟩ := List.isChain_cons_cons.mp descent
    exact Nat.lt_of_le_of_lt (ih further) nests.height_lt

/-- The height of a node is attained by a descent. -/
theorem exists_descent (n : Node ν τ) :
    ∃ ns, IsDescent (n :: ns) ∧ (n :: ns).length = n.height ∧ ∀ m ∈ n :: ns, m ∈ n.nodes := by
  induction n using children_induction with
  | step n ih =>
    by_cases empty : n.children = []
    · refine ⟨[], List.isChain_singleton n, ?_, List.forall_mem_singleton.mpr n.mem_nodes_self⟩
      rw [height_eq, empty]
      rfl
    · obtain ⟨m, child, highest⟩ := exists_height_eq_listHeight empty
      obtain ⟨ns, descent, length, inside⟩ := ih m child
      refine ⟨m :: ns, List.isChain_cons_cons.mpr ⟨.single child, descent⟩, ?_, ?_⟩
      · rw [List.length_cons, length, highest, height_eq]
      · refine List.forall_mem_cons.mpr ⟨n.mem_nodes_self, ?_⟩
        exact fun k member => nodes_subset child (inside k member)

end Node

def Program.nodes (p : Program) : List Tree := p.statements.flatMap Node.nodes

structure Program.Descent (p : Program) (ns : List Tree) : Prop where
  inside : ∀ n ∈ ns, n ∈ p.nodes
  descent : Node.IsDescent ns

theorem Node.height_le_of_mem_nodes {ν τ : Type} {n m : Node ν τ} (member : m ∈ n.nodes) :
    m.height ≤ n.height := by
  induction n using children_induction with
  | step n ih =>
    rw [nodes_eq] at member
    rcases List.mem_cons.mp member with rfl | member
    · exact Nat.le_refl _
    · obtain ⟨k, child, member⟩ := List.mem_flatMap.mp member
      have nests : Nests n k := .single child
      exact Nat.le_of_lt (Nat.lt_of_le_of_lt (ih k child member) nests.height_lt)

/-- The height of the statements is the greatest length of a descent. -/
theorem Program.isGreatest_listHeight (p : Program) :
    IsGreatest {k | ∃ ns, p.Descent ns ∧ ns.length = k} (Node.listHeight p.statements) := by
  constructor
  · by_cases empty : p.statements = []
    · refine ⟨[], ⟨List.forall_mem_nil _, List.isChain_nil⟩, ?_⟩
      rw [empty]
      rfl
    · obtain ⟨n, member, highest⟩ := Node.exists_height_eq_listHeight empty
      obtain ⟨ns, descent, length, inside⟩ := n.exists_descent
      refine ⟨n :: ns, ⟨fun m among => ?_, descent⟩, length.trans highest⟩
      exact List.mem_flatMap.mpr ⟨n, member, inside m among⟩
  · rintro _ ⟨ns, ⟨inside, descent⟩, rfl⟩
    cases ns with
    | nil => exact Nat.zero_le _
    | cons n ns =>
      obtain ⟨m, member, within⟩ := List.mem_flatMap.mp (inside n List.mem_cons_self)
      have lower := Node.height_le_of_mem_nodes within
      exact Nat.le_trans descent.length_le
        (Nat.le_trans lower (Node.height_le_listHeight member))

end BracketScript
