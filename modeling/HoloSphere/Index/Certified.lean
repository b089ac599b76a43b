import HoloSphere.Index.Invariant
import HoloSphere.Proof.Certified

/-! # Certified search over the index

`certified_search` of `lib.rs` over exact numbers and without a deadline.  The proof tree and the
normalised vectors it was built from are kept between searches, and only some of the operations
that change the index throw them away.
-/

namespace HoloSphere.Index
open Proof Rivero Metadata Store Finset Geometry HNSQRIndex List VectorEmbedding
open GlobalExactProofSearch

noncomputable def clamp (low high val : ℝ) : ℝ := max low (min val high)

/-- `dot_product_complex`. -/
noncomputable def complexDot (q v : VectorEmbedding) : ℂ :=
  ∑ i ∈ range (min q.dimension v.dimension), starRingEnd ℂ (q.coordinate i) * v.coordinate i

noncomputable def projectiveOverlap (q v : VectorEmbedding) (denom : ℝ) : ℝ :=
  clamp 0 1 (Complex.normSq (complexDot q v) / denom)

noncomputable def exactSimilarity (metric : DistanceFunction) (q v : VectorEmbedding)
    (qNormSq vNormSq : ℝ) : ℝ :=
  let denom := max (qNormSq * vNormSq) 1e-12
  match metric with
  | .cosine => clamp (-1) 1 (q.dotProduct v / √denom)
  | .projectiveOverlap => projectiveOverlap q v denom
  | .projectiveSineDistance => 1 - √(max (1 - projectiveOverlap q v denom) 0)
  | .phaseAlignedChordalDistance => 2 - √(max (2 * (1 - √(projectiveOverlap q v denom))) 0)
  | .euclidean => -√(max (qNormSq + vNormSq - 2 * q.dotProduct v) 0)

noncomputable def exactArithmetic : Arithmetic ℂ ℝ where
  normSq vec := norm vec ^ 2
  similarity := exactSimilarity

/-- The cosine of the angle between two vectors, zero if one of them is. -/
noncomputable def cosine (q v : VectorEmbedding) : ℝ := q.dotProduct v / (q.norm * v.norm)

section
variable {q : VectorEmbedding}

theorem abs_dotProduct_le (same : q.dimension = v.dimension) :
    |q.dotProduct v| ≤ q.norm * v.norm := by
  rw [VectorEmbedding.dotProduct_of_dimension same rfl, VectorEmbedding.norm, VectorEmbedding.norm,
    same]
  apply abs_le_of_sq_le_sq
  · rw [mul_pow, size_sq, size_sq]
    exact dot_sq_le _ _
  · exact mul_nonneg (size_nonneg _ _) (size_nonneg _ _)

/-- The lengths are not rounded to zero, nor is the denominator of the score. -/
def Measured (q v : VectorEmbedding) : Prop :=
  q.norm = 0 ∨ 1e-9 ≤ q.norm ∧ 1e-9 ≤ v.norm ∧ 1e-6 ≤ q.norm * v.norm

theorem exactSimilarity_cosine (same : q.dimension = v.dimension) (measured : Measured q v) :
    exactSimilarity .cosine q v (q.norm ^ 2) (v.norm ^ 2) = cosine q v := by
  have bound := abs_dotProduct_le same
  simp only [exactSimilarity, cosine, clamp]
  rcases measured with zero | ⟨-, -, long⟩
  · rw [zero, zero_mul, abs_nonpos_iff] at bound
    simp [bound]
  · have pos : 0 < q.norm * v.norm := lt_of_lt_of_le (by norm_num) long
    have enough : (1e-12 : ℝ) ≤ (q.norm * v.norm) ^ 2 := by nlinarith
    rw [← mul_pow, max_eq_left enough, Real.sqrt_sq pos.le]
    have hin := abs_le.mp (abs_div (q.dotProduct v) (q.norm * v.norm) ▸
      (abs_of_pos pos).symm ▸ (div_le_one pos).mpr bound)
    rw [min_eq_left hin.2, max_eq_right hin.1]

theorem dotProduct_intoNormalized (same : q.dimension = v.dimension) (measured : Measured q v) :
    q.intoNormalized.dotProduct v.intoNormalized = cosine q v := by
  rw [dotProduct_of_dimension (q.dimension_intoNormalized.trans same)
    v.dimension_intoNormalized, coordinate_intoNormalized,
    coordinate_intoNormalized, dot_smul_left, dot_smul_right, cosine,
    dotProduct_of_dimension same rfl]
  rcases measured with zero | ⟨fst, snd, -⟩
  · rw [zero, if_pos (by norm_num)]
    simp
  · rw [if_neg (not_lt.mpr fst), if_neg (not_lt.mpr snd)]
    field_simp

end

noncomputable def HNSQRIndex.normalizedVectors (idx : HNSQRIndex ℂ ℝ) : List VectorEmbedding :=
  (List.range idx.arena.length).map fun slot =>
    if idx.isLive slot then intoNormalized (idx.vectorSlice slot)
    else replicate idx.dimension 0

noncomputable def HNSQRIndex.proofTree (idx : HNSQRIndex ℂ ℝ) : SemanticProofTree Envelope :=
  .build idx.normalizedVectors idx.liveSlots idx.dimension

/-- The index as one segment without tombstones. -/
noncomputable def HNSQRIndex.proofView (idx : HNSQRIndex ℂ ℝ) :
    SegmentProofView VectorEmbedding Unit Envelope :=
  ⟨idx.proofTree, idx.normalizedVectors, none, none⟩

structure CertifiedIndex where
  index : HNSQRIndex ℂ ℝ
  proofTree : Option (SemanticProofTree Envelope)
  proofVectors : Option (List VectorEmbedding)

/-- A search without a deadline has no other outcome. -/
inductive CertifiedSearchOutcome where
  | exact (results : List (NodeIndex × ℝ)) (proof : DenseExactProof ℝ)

namespace CertifiedIndex

def new (config : HNSQRConfig) (dim : Nat) : CertifiedIndex := ⟨.new config dim, none, none⟩

noncomputable def buildProofTree (st : CertifiedIndex) :
    SemanticProofTree Envelope × CertifiedIndex :=
  (st.index.proofTree, { st with
      proofTree := some st.index.proofTree
      proofVectors := some st.index.normalizedVectors })

noncomputable def getOrBuildProofTree (st : CertifiedIndex) :
    SemanticProofTree Envelope × CertifiedIndex :=
  match st.proofTree with
  | some tree => (tree, st)
  | none => st.buildProofTree

/-- The vectors of the cache; a tree without them makes the search build both again. -/
noncomputable def proofVectorsOrRebuild (st : CertifiedIndex) :
    List VectorEmbedding × CertifiedIndex :=
  match st.proofVectors with
  | some vecs => (vecs, st)
  | none => (st.index.normalizedVectors, st.buildProofTree.2)

section
variable (nums : Numerals) (route : Routing ℂ ℝ)

noncomputable def insert (id : String) (data : VectorEmbedding) (drawn : Nat)
    (attrs : Attributes) (st : CertifiedIndex) : CertifiedIndex :=
  match st.index.insert nums exactArithmetic route id data drawn attrs with
  | .error _ => st
  | .ok (after, slot) =>
    -- only the end of a complete wiring throws the proof material away
    if st.index.buildGraph && !st.index.isRoot slot then ⟨after, none, none⟩
    else { st with index := after }

def remove (id : String) (st : CertifiedIndex) : CertifiedIndex :=
  match st.index.remove route id with
  | (_, false) => st
  | (after, true) => ⟨after, none, none⟩

/-- The proof material stays. -/
def clear (st : CertifiedIndex) : CertifiedIndex := { st with index := st.index.clear }

/-- The proof that goes with a scan for a metric that the tree knows nothing about. -/
noncomputable def scanProof (mask : Option (Finset NodeIndex))
    (results : List (NodeIndex × ℝ)) (st : CertifiedIndex) : DenseExactProof ℝ :=
  let live := st.index.liveSlots.length
  let elig := (st.index.liveSlots.filter (admits mask)).length
  { corpusSize := live
    exactEvaluations := elig
    filteredOrTombstoned := live - elig
    kthScore := some (results.getLast?.elim ⊥ fun last => last.2)
    globallyExact := true }

/-- The state after the search comes first. -/
noncomputable def certifiedSearch (fuel : Nat) (qry : VectorEmbedding) (k : Nat)
    (mask : Option (Finset NodeIndex)) (st : CertifiedIndex) :
    CertifiedIndex × Option (Except HNSQRError CertifiedSearchOutcome) :=
  if qry.dimension ≠ st.index.dimension then
    (st, some (.error (.dimensionMismatch st.index.dimension qry.dimension)))
  else if k = 0 ∨ st.index.isEmpty then (st, some (.ok (.exact [] {})))
  else if st.index.config.distanceFunction ≠ .cosine then
    (st, some ((st.index.searchIndicesExact exactArithmetic qry k mask).map
      fun results => .exact results (st.scanProof mask results)))
  else
    let normalized := qry.intoNormalized
    let (tree, treed) := st.getOrBuildProofTree
    let seeds := treed.index.riveroIndex.withCandidates (route.compile normalized)
    let (vecs, done) := treed.proofVectorsOrRebuild
    let view : SegmentProofView VectorEmbedding Unit Envelope := ⟨tree, vecs, none, none⟩
    (done, (search fuel (certifiedQuery st.index.dimension normalized) k
      [view] [] seeds mask).map fun found =>
        if found.2.globallyExact then .ok (.exact found.1 found.2)
        else .error (.internal
          "Proof search completed without deadline but globally_exact is false"))

end
end CertifiedIndex

section
variable {idx : HNSQRIndex ℂ ℝ}

/-- The `k` best live slots that pass the mask, by descending cosine and ascending slot. -/
noncomputable def HNSQRIndex.cosineRanking (qry : VectorEmbedding) (k : Nat)
    (mask : Option (Finset NodeIndex)) (idx : HNSQRIndex ℂ ℝ) : List (NodeIndex × ℝ) :=
  (best k ((idx.liveSlots.filter (admits mask)).map fun slot =>
    (⟨slot, cosine qry (idx.vectorSlice slot)⟩ : Finalist ℝ))).map fun finalist =>
      (finalist.slot, finalist.score)

/-- Every live slot that passes the mask can be measured against the query. -/
def HNSQRIndex.Comparable (qry : VectorEmbedding) (mask : Option (Finset NodeIndex))
    (idx : HNSQRIndex ℂ ℝ) : Prop :=
  ∀ slot, idx.isLive slot = true → admits mask slot = true → Measured qry (idx.vectorSlice slot)

/-- A scan of all vectors meets no deleted slot. -/
def HNSQRIndex.Prunable (mask : Option (Finset NodeIndex)) (idx : HNSQRIndex ℂ ℝ) : Prop :=
  idx.proofTree.isSpatiallyPrunable = true ∨
    ∀ slot < idx.arena.length, admits mask slot = true → idx.isLive slot = true

theorem HNSQRIndex.lt_of_isLive (live : idx.isLive slot = true) : slot < idx.arena.length := by
  by_contra beyond
  rw [isLive, getElem?_eq_none (not_lt.mp beyond)] at live
  cases live

theorem HNSQRIndex.mem_liveSlots : slot ∈ idx.liveSlots ↔ idx.isLive slot = true :=
  List.mem_filter.trans (and_iff_right_of_imp fun live => List.mem_range.mpr (lt_of_isLive live))

/-- The best by any score that is the cosine wherever it counts. -/
theorem HNSQRIndex.cosineRanking_eq {score : NodeIndex → ℝ} (agrees : ∀ slot,
    idx.isLive slot = true → admits mask slot = true →
      score slot = cosine qry (idx.vectorSlice slot)) :
    (best k ((idx.liveSlots.filter (admits mask)).map fun slot =>
      (⟨slot, score slot⟩ : Finalist ℝ))).map (fun finalist => (finalist.slot, finalist.score)) =
      idx.cosineRanking qry k mask := by
  refine congrArg (fun scored => (best k scored).map _) (map_congr_left fun slot mem => ?_)
  obtain ⟨live, admitted⟩ := List.mem_filter.mp mem
  exact congrArg (Finalist.mk slot) (agrees slot (mem_liveSlots.mp live) admitted)

theorem HNSQRIndex.liveSlots_eq_nil : idx.liveSlots = [] ↔ idx.isEmpty = true := by
  rw [isEmpty, Bool.not_eq_true', any_eq_false, eq_nil_iff_forall_not_mem]
  constructor
  · intro none entry mem live
    obtain ⟨slot, bound, rfl⟩ := getElem_of_mem mem
    apply none slot
    rw [mem_liveSlots, isLive, getElem?_eq_getElem bound]
    exact live
  · intro dead slot mem
    rw [mem_liveSlots, isLive, Option.any_eq_true] at mem
    obtain ⟨entry, found, live⟩ := mem
    exact dead entry (mem_of_getElem? found) live

theorem HNSQRIndex.WellFormed.slot (formed : idx.WellFormed exactArithmetic route)
    {slot : NodeIndex} (live : idx.isLive slot = true) :
    ∃ entry, idx.arena[slot]? = some entry ∧ idx.vectorSlice slot = entry.vector ∧
      entry.vector.length = idx.dimension ∧
      entry.normSq = norm entry.vector ^ 2 := by
  rw [isLive, Option.any_eq_true] at live
  obtain ⟨entry, found, -⟩ := live
  obtain ⟨length, norm, -⟩ := formed.written entry.face (mem_map_of_mem (mem_of_getElem? found))
  exact ⟨entry, found, by rw [vectorSlice, found]; rfl, length, norm⟩

theorem HNSQRIndex.searchIndicesExact_eq (formed : idx.WellFormed exactArithmetic route)
    (metric : idx.config.distanceFunction = .cosine) (length : qry.dimension = idx.dimension)
    (pos : 0 < k) (filled : idx.isEmpty = false)
    (comparable : idx.Comparable qry mask) :
    idx.searchIndicesExact exactArithmetic qry k mask = .ok (idx.cosineRanking qry k mask) := by
  rw [searchIndicesExact, if_neg (not_not.mpr (show List.length qry = idx.dimension from length)),
    if_neg (by simp [pos.ne', filled])]
  refine congrArg Except.ok (cosineRanking_eq fun slot live admitted => ?_)
  obtain ⟨entry, found, vec, dim, norm⟩ := formed.slot live
  have measured := comparable slot live admitted
  rw [vec] at measured
  rw [metric, vec, found, Option.elim_some, norm]
  exact exactSimilarity_cosine (length.trans dim.symm) measured

theorem HNSQRIndex.length_normalizedVectors : idx.normalizedVectors.length = idx.arena.length := by
  rw [normalizedVectors, length_map, length_range]

theorem HNSQRIndex.normalizedVectors_getD (live : idx.isLive slot = true) :
    idx.normalizedVectors.getD slot [] = intoNormalized (idx.vectorSlice slot) := by
  have hin := lt_of_isLive live
  rw [normalizedVectors, getD_eq_getElem?_getD, getElem?_map,
    getElem?_eq_getElem (by simpa using hin), getElem_range, Option.map_some,
    Option.getD_some, if_pos live]

/-- The slots that the search answers for are the live ones, as far as the mask goes. -/
theorem HNSQRIndex.Prunable.reach (prunable : idx.Prunable mask) :
    (reach idx.proofView idx.liveSlots).filter (admits mask) =
      idx.liveSlots.filter (admits mask) := by
  unfold GlobalExactProofSearch.reach proofView
  split
  · rfl
  · rename_i flat
    rcases prunable with pruned | all
    · exact absurd pruned flat
    · rw [length_normalizedVectors, liveSlots, List.filter_filter]
      refine filter_congr fun slot hin => ?_
      cases admitted : admits mask slot with
      | true => simp [all slot (List.mem_range.mp hin) admitted]
      | false => rfl

/-- With proof material of the index as it is, the search ranks by the cosine. -/
theorem search_fresh (formed : idx.WellFormed exactArithmetic route)
    (length : qry.dimension = idx.dimension) (spacious : 0 < idx.dimension)
    (pos : 0 < k) (filled : idx.isEmpty = false) (fits : idx.arena.length < 2 ^ 31)
    (comparable : idx.Comparable qry mask) (prunable : idx.Prunable mask)
    (addr : RiveroAddress) :
    ∃ turns, ∀ fuel, turns ≤ fuel → ∃ proof,
      search fuel (certifiedQuery idx.dimension qry.intoNormalized) k
          [idx.proofView] [] (idx.riveroIndex.withCandidates addr) mask =
        some (idx.cosineRanking qry k mask, proof) ∧
      proof.globallyExact = true := by
  have size := @length_normalizedVectors idx
  have hin : ∀ slot ∈ idx.liveSlots, slot < idx.normalizedVectors.length := by
    intro slot mem
    rw [size]
    exact lt_of_isLive (mem_liveSlots.mp mem)
  have dimensions : ∀ slot, idx.isLive slot = true →
      dimension (idx.vectorSlice slot) = idx.dimension := by
    intro slot live
    obtain ⟨entry, -, vec, dim, -⟩ := formed.slot live
    rw [vec]
    exact dim
  have nonempty : idx.liveSlots ≠ [] := by
    rw [Ne, liveSlots_eq_nil, filled]
    exact Bool.false_ne_true
  have normal := qry.short_intoNormalized
  rw [length] at normal
  obtain ⟨turns, ends⟩ := @certified_ranks k idx.dimension idx.liveSlots
    idx.normalizedVectors none qry.intoNormalized pos normal spacious nonempty
    (nodup_range.filter _) hin (size.symm ▸ fits)
    (fun slot mem => by
      have live := mem_liveSlots.mp mem
      rw [normalizedVectors_getD live, ← dimensions slot live]
      exact short_intoNormalized _)
    mask (idx.riveroIndex.withCandidates addr)
    (fun seed mem bound _ => by
      have live := mem_liveSlots.mpr (formed.registered.candidate_live mem)
      unfold reach
      split
      · exact live
      · exact List.mem_range.mpr bound)
  refine ⟨turns, fun fuel enough => ?_⟩
  obtain ⟨proof, returned, exact⟩ := ends fuel enough
  refine ⟨proof, ?_, exact⟩
  have elig : (idx.proofView.target id
      (certifiedQuery idx.dimension qry.intoNormalized) mask k).eligible = admits mask := by
    funext slot
    simp [SegmentProofView.target, SegmentProofView.tombstoned, proofView]
  have scores : ∀ slot, idx.isLive slot = true → admits mask slot = true →
      qry.intoNormalized.dotProduct (idx.normalizedVectors.getD slot []) =
        cosine qry (idx.vectorSlice slot) := by
    intro slot live admitted
    rw [normalizedVectors_getD live]
    exact dotProduct_intoNormalized (length.trans (dimensions slot live).symm)
      (comparable slot live admitted)
  have reached := prunable.reach
  rw [← cosineRanking_eq scores, ← elig]
  exact returned.trans (congrArg (fun ranking => some (ranking, proof))
    (Target.rankingOf_of_perm (List.Perm.of_eq reached)))

end
end HoloSphere.Index
