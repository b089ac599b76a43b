import HoloSphere.Proof.Builder
import HoloSphere.Proof.Exact

/-! # Certified search over built trees

A proof search for a normalised query, over a tree that was built from vectors of at most unit
length.  The bounds of such a tree hold, so the search ranks exactly the slots it answers for.
-/

namespace HoloSphere.Proof
open Geometry Finset GlobalExactProofSearch SemanticProofTree List
namespace VectorEmbedding
variable (vec : VectorEmbedding)

/-- Over real numbers nothing is infinite, and a vector that is too short becomes zero. -/
noncomputable def intoNormalized : VectorEmbedding :=
  if vec.norm < 1e-9 then vec.map fun _ => 0
  else vec.map fun z => z * ((1 / vec.norm : ℝ) : ℂ)

theorem dimension_intoNormalized : vec.intoNormalized.dimension = vec.dimension := by
  unfold intoNormalized dimension
  split <;> simp

theorem coordinate_intoNormalized : vec.intoNormalized.coordinate =
      (if vec.norm < 1e-9 then 0 else 1 / vec.norm) • vec.coordinate := by
  funext i
  unfold intoNormalized
  split
  · rw [coordinate_map vec (fun _ => 0) rfl, zero_smul, Pi.zero_apply]
  · rw [coordinate_map vec (fun z => z * ((1 / vec.norm : ℝ) : ℂ)) (zero_mul _),
      Pi.smul_apply, Complex.real_smul, mul_comm]

/-- At most of unit length. -/
def Short (dimension : ℕ) (vec : VectorEmbedding) : Prop :=
  vec.dimension = dimension ∧ dot (range dimension) vec.coordinate vec.coordinate ≤ 1

theorem short_intoNormalized : vec.intoNormalized.Short vec.dimension := by
  refine ⟨vec.dimension_intoNormalized, ?_⟩
  rw [coordinate_intoNormalized, dot_smul_left, dot_smul_right, ← norm_mul_self]
  split
  · norm_num
  · rename_i long
    have pos : 0 < vec.norm := lt_of_lt_of_le (by norm_num) (not_lt.mp long)
    have unit : 1 / vec.norm * (1 / vec.norm * (vec.norm * vec.norm)) = 1 := by
      field_simp
    exact unit.le

variable {vec}

theorem dotProduct_of_dimension {dimension : ℕ} {other : VectorEmbedding}
    (fst : vec.dimension = dimension) (snd : other.dimension = dimension) :
    vec.dotProduct other = dot (range dimension) vec.coordinate other.coordinate := by
  rw [dotProduct, fst, snd, min_self]

theorem norm_singleton (z : ℂ) : norm [z] = ‖z‖ := by
  simp [norm, dimension, coordinate, size, dot_self_eq]

theorem dotProduct_singleton (z w : ℂ) : dotProduct [z] [w] = z.re * w.re + z.im * w.im := by
  simp [dotProduct, dimension, coordinate, dot]

end VectorEmbedding

/-- What a query makes of the vectors and envelopes of a tree; there are no codes. -/
noncomputable def certifiedQuery (dimension : ℕ) (q : VectorEmbedding) :
    ProofQuery VectorEmbedding Unit Envelope ℝ where
  score vec := q.dotProduct vec
  upperBound envl := evaluateNodeUpperBound (.new q) envl (blocksPerVector dimension)
  scoreL0 _ := 0
  boundL0 _ := 0
  boundL1 _ := none

variable {tree : SemanticProofTree Envelope}

theorem SemanticProofTree.Covers.leafSlots_perm
    (covers : tree.Covers slots) : tree.leafSlots.Perm slots := by
  have among : (tree.residents tree.root).Sublist tree.leafSlots :=
    (take_sublist _ _).trans (drop_sublist _ _)
  have same : tree.residents tree.root = tree.leafSlots :=
    among.eq_of_length (by rw [covers.whole.length_eq, covers.size])
  exact same ▸ covers.whole

theorem SemanticProofTree.Covers.mem_of_resident
    (covers : tree.Covers slots) (mem : slot ∈ tree.residents idx) :
    slot ∈ slots :=
  covers.leafSlots_perm.mem_iff.mp (mem_of_mem_drop (mem_of_mem_take mem))

theorem residents_of_le (beyond : tree.nodes.length ≤ idx) : tree.residents idx = [] := by
  have none : tree.node idx = default := by
    rw [node, getD_eq_getElem?_getD, getElem?_eq_none beyond, Option.getD_none]
  rw [residents, members, none]
  exact take_zero

theorem admissible_build (qry : q.Short dimension) (pos : 0 < dimension)
    (nonempty : slots ≠ []) (fits : slots.length < 2 ^ 31)
    (short : ∀ slot ∈ slots, VectorEmbedding.Short dimension (vecs.getD slot [])) :
    Admissible (certifiedQuery dimension q)
      ⟨.build vecs slots dimension, vecs, none, tombstones⟩ where
  coded := nofun
  region idx slot mem := by
    obtain ⟨covers, enveloped⟩ := @build_built slots vecs dimension nonempty fits
    by_cases hin : idx < (build vecs slots dimension).nodes.length
    · obtain ⟨members, same, stored⟩ := enveloped idx hin
      obtain ⟨rfl, length⟩ := qry
      have dimensions := VectorEmbedding.dotProduct_of_dimension rfl
        (short slot (covers.mem_of_resident mem)).1
      simp only [certifiedQuery, SegmentProofView.vector, stored]
      change ((q.dotProduct (vecs.getD slot []) : ℝ) : WithBot ℝ) ≤ _
      rw [dimensions]
      apply dot_le_evaluateNodeUpperBound pos length
      · intro vec among
        obtain ⟨other, held, rfl⟩ := mem_map.mp among
        exact (short other (covers.mem_of_resident (same.mem_iff.mpr held))).2
      · exact mem_map_of_mem (f := fun slot => vecs.getD slot []) (same.mem_iff.mp mem)
    · rw [residents_of_le (not_lt.mp hin)] at mem
      cases mem
  codeL0 := nofun
  codeL1 := nofun

/-- With seeds that it answers for, the search returns the best of the slots. -/
theorem certified_ranks (some : 0 < k) (qry : q.Short dimension) (pos : 0 < dimension)
    (nonempty : slots ≠ []) (uniq : slots.Nodup)
    (hin : ∀ slot ∈ slots, slot < vecs.length) (fits : vecs.length < 2 ^ 31)
    (short : ∀ slot ∈ slots, VectorEmbedding.Short dimension (vecs.getD slot []))
    (mask : Option (Finset NodeIndex)) (seeds : List NodeIndex) :
    let seg : SegmentProofView VectorEmbedding Unit Envelope :=
      ⟨.build vecs slots dimension, vecs, none, tombstones⟩
    (∀ seed ∈ seeds, seed < vecs.length → admits mask seed = true → seed ∈ reach seg slots) →
    ∃ turns, ∀ fuel, turns ≤ fuel → ∃ proof,
      search fuel (certifiedQuery dimension q) k [seg] [] seeds
          mask =
        Option.some ((seg.target id (certifiedQuery dimension q) mask k).rankingOf
          (reach seg slots), proof) ∧
      proof.globallyExact = true := by
  intro seg seeded
  have few : slots.length < 2 ^ 31 := by
    have bound := (subperm_of_subset uniq fun slot mem =>
      List.mem_range.mpr (hin slot mem)).length_le
    rw [length_range] at bound
    omega
  obtain ⟨turns, ends⟩ := search_ranks (certifiedQuery dimension q) seg
    seeds mask some (admissible_build qry pos nonempty few short)
    (show vecs.length < 2 ^ 32 by omega) nonempty uniq hin (build_built nonempty few).1
    seeded
  refine ⟨turns, fun fuel enough => ?_⟩
  obtain ⟨proof, returned, exact, -⟩ := ends fuel enough
  exact ⟨proof, returned, exact⟩

end HoloSphere.Proof
