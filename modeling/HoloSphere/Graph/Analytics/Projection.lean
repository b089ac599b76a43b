import Mathlib.Algebra.Group.Nat.Defs
import Mathlib.Data.Fintype.Basic

/-! # Graph projections

What the algorithms of `graph/analytics` see of a graph.  Both directions of an edge are
listed, once for each parallel edge.
-/

namespace HoloSphere.Graph.Analytics

/-- The nodes are `0 .. n-1`; the incoming edges are the outgoing ones, seen from the other
    end.  Neighbours are asked for and listed by their `NodeIndex`, which has 32 bits. -/
structure GraphProjection (n : Nat) where
  outNeighbors : Fin n → List (Fin n)
  inNeighbors : Fin n → List (Fin n)
  transpose : ∀ u v, (outNeighbors u).count v = (inNeighbors v).count u
  indexed : ∀ u v, v ∈ outNeighbors u → u.val < 2 ^ 32 ∧ v.val < 2 ^ 32

/-- The range `0..n as NodeIndex`. -/
def indices (n : Nat) : List (Fin n) := (List.finRange n).take (n % 2 ^ 32)

theorem length_indices : (indices n).length = n % 2 ^ 32 := by
  simpa [indices] using Nat.mod_le n _

theorem indices_eq (small : n < 2 ^ 32) : indices n = List.finRange n := by
  rw [indices, Nat.mod_eq_of_lt small, List.take_of_length_le (by simp)]

/-- From `2 ^ 32` nodes on the cast loses some. -/
theorem length_indices_lt : (indices n).length < n ↔ ¬ n < 2 ^ 32 := by
  rw [length_indices]
  omega

/-- Nodes without edges. -/
def isolated (n : Nat) : GraphProjection n :=
  ⟨fun _ => [], fun _ => [], fun _ _ => rfl, fun _ _ mem => absurd mem List.not_mem_nil⟩

namespace GraphProjection
variable (proj : GraphProjection n)

theorem mem_inNeighbors : u ∈ proj.inNeighbors v ↔ v ∈ proj.outNeighbors u := by
  rw [← List.count_pos_iff, ← proj.transpose, List.count_pos_iff]

/-- Two nodes with an edge between them, in either direction. -/
def Adjacent (u v : Fin n) : Prop := u ≠ v ∧ (v ∈ proj.outNeighbors u ∨ u ∈ proj.outNeighbors v)

instance (u v : Fin n) : Decidable (proj.Adjacent u v) := inferInstanceAs (Decidable (_ ∧ _))

theorem Adjacent.symm (h : proj.Adjacent u v) : proj.Adjacent v u := ⟨h.1.symm, h.2.symm⟩

end GraphProjection
end HoloSphere.Graph.Analytics
