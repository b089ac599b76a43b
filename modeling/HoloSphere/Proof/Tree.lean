import HoloSphere.Proof.TopK
import Mathlib.Algebra.GroupWithZero.Nat
import Mathlib.Algebra.Order.BigOperators.Group.List
import Mathlib.Algebra.Order.Group.Nat
import Mathlib.Order.Lattice.Nat

/-! # Proof trees

The flattened hierarchy of `proof/tree.rs` as the searches see it: where a node's children and
members stand.  What a node's bound is computed from, its centroid and radii, is its envelope,
of any type.
-/

namespace HoloSphere.Proof

structure ProofNode (γ : Type) where
  firstChild : UInt32 := 0
  childCount : UInt16 := 0
  memberStart : UInt32 := 0
  memberLen : UInt32 := 0
  envelope : γ

namespace ProofNode
variable {γ : Type}

instance [Inhabited γ] : Inhabited (ProofNode γ) := ⟨{ envelope := default }⟩

def isInternal (node : ProofNode γ) : Bool := 0 < node.childCount.toNat

end ProofNode

structure SemanticProofTree (γ : Type) where
  nodes : List (ProofNode γ)
  leafSlots : List NodeIndex
  root : Nat := 0
  isSpatiallyPrunable : Bool
  deriving Inhabited

namespace SemanticProofTree
variable {γ : Type} [Inhabited γ]

/-- A number without a node is a panic in the source. -/
def node (idx : Nat) (tree : SemanticProofTree γ) : ProofNode γ := tree.nodes.getD idx default

def children (_ : SemanticProofTree γ) (node : ProofNode γ) : List Nat :=
  List.range' node.firstChild.toNat node.childCount.toNat

def members (tree : SemanticProofTree γ) (node : ProofNode γ) : List NodeIndex :=
  (tree.leafSlots.drop node.memberStart.toNat).take node.memberLen.toNat

def totalVectors (tree : SemanticProofTree γ) : Nat := tree.leafSlots.length

def residents (tree : SemanticProofTree γ) (idx : Nat) : List NodeIndex :=
  tree.members (tree.node idx)

theorem residents_of_empty {tree : SemanticProofTree γ} (none : tree.nodes = []) (idx : Nat) :
    tree.residents idx = [] := by
  rw [residents, members, node, none]
  exact List.take_zero

/-- A finite tree hangs below the node, and each branch shares its members out among its
    children.  The size is the number of nodes. -/
inductive Divided (tree : SemanticProofTree γ) : Nat → Nat → Prop
  | leaf {idx : Nat} (last : (tree.node idx).isInternal = false) : Divided tree idx 1
  | branch {idx : Nat} {size : Nat → Nat} (inner : (tree.node idx).isInternal = true)
      (below : ∀ child ∈ tree.children (tree.node idx), Divided tree child (size child))
      (shares : (tree.residents idx).Perm
        ((tree.children (tree.node idx)).flatMap tree.residents)) :
      Divided tree idx (((tree.children (tree.node idx)).map size).sum + 1)

/-- The tree holds these slots, each of them as often as it occurs. -/
structure Covers (tree : SemanticProofTree γ) (slots : List NodeIndex) : Prop where
  size : tree.leafSlots.length = slots.length
  whole : (tree.residents tree.root).Perm slots
  divided : ∃ size, Divided tree tree.root size

variable {tree : SemanticProofTree γ}

/-- The smallest size a node can be given. -/
noncomputable def weight (tree : SemanticProofTree γ) (idx : Nat) : Nat :=
  sInf {size | Divided tree idx size}

section
variable (divided : Divided tree idx size)
include divided

theorem Divided.weight : Divided tree idx (tree.weight idx) :=
  Nat.sInf_mem (s := {size | Divided tree idx size}) ⟨size, divided⟩

theorem Divided.weight_le : tree.weight idx ≤ size := Nat.sInf_le divided

theorem Divided.size_pos : 0 < size := by
  cases divided with
  | leaf => exact Nat.one_pos
  | branch => exact Nat.succ_pos _

theorem Divided.parts (inner : (tree.node idx).isInternal = true) :
    (tree.residents idx).Perm ((tree.children (tree.node idx)).flatMap tree.residents) ∧
      ∃ part : Nat → Nat,
        (∀ child ∈ tree.children (tree.node idx), Divided tree child (part child)) ∧
          size = ((tree.children (tree.node idx)).map part).sum + 1 := by
  cases divided with
  | leaf last => simp [last] at inner
  | branch _ below shares => exact ⟨shares, _, below, rfl⟩

/-- A branch weighs more than its children together. -/
theorem Divided.sum_weight_lt (inner : (tree.node idx).isInternal = true) :
    ((tree.children (tree.node idx)).map tree.weight).sum < tree.weight idx := by
  obtain ⟨-, part, below, whole⟩ := divided.weight.parts inner
  rw [whole, Nat.lt_succ_iff]
  exact List.sum_le_sum fun child mem => (below child mem).weight_le

end
end SemanticProofTree
end HoloSphere.Proof
