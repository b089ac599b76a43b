import HoloSphere.Geometry.Inner

/-! # The envelope of a proof region

`proof/bounds.rs` and the envelopes that `TreeBuilder` of `proof/tree.rs` computes, over exact
real numbers: the centroid of a region, how far its members are from it as an angle, as a
distance and block by block, and the bound on the score of any member that a query gets from
these.
-/

namespace HoloSphere.Proof
open Geometry Finset Complex

/-- The coordinates, as exact numbers. -/
abbrev VectorEmbedding := List ℂ

namespace VectorEmbedding

def dimension (vec : VectorEmbedding) : ℕ := vec.length

/-- Places beyond the dimension read as zero. -/
def coordinate (vec : VectorEmbedding) (i : ℕ) : ℂ := vec.getD i 0

/-- The real part of `dot_product_complex`. -/
def dotProduct (fst snd : VectorEmbedding) : ℝ :=
  dot (range (min fst.dimension snd.dimension)) fst.coordinate snd.coordinate

noncomputable def norm (vec : VectorEmbedding) : ℝ := size (range vec.dimension) vec.coordinate

end VectorEmbedding

def proofBlockComplexDim : ℕ := 4

def blocksPerVector (dimension : ℕ) : ℕ :=
  (dimension + (proofBlockComplexDim - 1)) / proofBlockComplexDim

def centroidSum (dimension : ℕ) (mems : List VectorEmbedding) : VectorEmbedding :=
  (List.range dimension).map fun d => (mems.map fun vec => vec.coordinate d).sum

/-- A sum that is too short to be scaled points along the first axis instead. -/
noncomputable def computeNormalizedCentroid (dimension : ℕ) (mems : List VectorEmbedding) :
    VectorEmbedding :=
  let sum := centroidSum dimension mems
  if 1e-12 < sum.norm then sum.map fun z => z * ((1 / sum.norm : ℝ) : ℂ)
  else
    match sum with
    | [] => []
    | _ :: rest => 1 :: rest

structure ProofCentroidCode where
  coords : List ℂ := List.replicate proofBlockComplexDim 0
  errorNorm : ℝ := 0

def ProofCentroidCode.fromRaw (block : List ℂ) : ProofCentroidCode where
  coords := block.take proofBlockComplexDim ++
    List.replicate (proofBlockComplexDim - block.length) 0
  errorNorm := 0

/-- What a proof node says about its members; the codes and radii are those that the source keeps
    in flat arrays from `centroid_offset` on. -/
structure Envelope where
  centroidCodes : List ProofCentroidCode := []
  blockRadii : List ℝ := []
  cosRadius : ℝ := 0
  sinRadius : ℝ := 0
  globalRadius : ℝ := 0
  centroidErrorNorm : ℝ := 0

instance : Inhabited Envelope := ⟨{}⟩

noncomputable def residual (places : Finset ℕ) (centroid vec : VectorEmbedding) : ℝ :=
  size places (vec.coordinate - centroid.coordinate)

noncomputable def envelope (dimension : ℕ) (mems : List VectorEmbedding) : Envelope :=
  let centroid := computeNormalizedCentroid dimension mems
  let minCosSim :=
    (mems.map fun vec => dot (range dimension) vec.coordinate centroid.coordinate).foldl
      min 1
  let cosRadius := max (-1) (min minCosSim 1)
  let blocks := List.range (blocksPerVector dimension)
  { centroidCodes := blocks.map fun b =>
      .fromRaw ((centroid.drop (proofBlockComplexDim * b)).take proofBlockComplexDim)
    blockRadii := blocks.map fun b =>
      (mems.map (residual (block proofBlockComplexDim dimension b) centroid)).foldl max 0
    cosRadius := cosRadius
    sinRadius := √(max 0 (1 - cosRadius * cosRadius))
    globalRadius := (mems.map (residual (range dimension) centroid)).foldl max 0
    centroidErrorNorm := 0 }

/-- `ProofQuery` of `proof/bounds.rs`. -/
structure PreparedQuery where
  complexData : VectorEmbedding
  blockNorms : List ℝ
  globalNorm : ℝ

noncomputable def PreparedQuery.new (q : VectorEmbedding) : PreparedQuery where
  complexData := q
  blockNorms := (List.range (blocksPerVector q.dimension)).map fun b =>
    size (block proofBlockComplexDim q.dimension b) q.coordinate
  globalNorm := q.norm

namespace Envelope
variable (qry : PreparedQuery) (numBlocks : ℕ) (envelope : Envelope)

def code (b : ℕ) : ProofCentroidCode := envelope.centroidCodes.getD b {}

/-- What the query scores with the centroid. -/
def dotBlock : ℝ :=
  ∑ b ∈ range numBlocks,
    dot (block proofBlockComplexDim qry.complexData.dimension b) qry.complexData.coordinate
      fun i => (envelope.code b).coords.getD (i - proofBlockComplexDim * b) 0

def csBlock : ℝ :=
  ∑ b ∈ range numBlocks,
    qry.blockNorms.getD b 0 * (envelope.blockRadii.getD b 0 + (envelope.code b).errorNorm)

noncomputable def ubCap (s : ℝ) : ℝ :=
  if envelope.cosRadius ≤ s then 1
  else s * envelope.cosRadius + √(max 0 (1 - s * s)) * envelope.sinRadius

end Envelope

noncomputable def evaluateNodeUpperBound (qry : PreparedQuery) (envelope : Envelope)
    (numBlocks : ℕ) : WithBot ℝ :=
  if numBlocks = 0 then ⊥
  else
    let s := envelope.dotBlock qry numBlocks
    let ubCap := envelope.ubCap s
    let ubGlobal := s + qry.globalNorm * (envelope.globalRadius + envelope.centroidErrorNorm)
    let ubBlock := s + envelope.csBlock qry numBlocks
    let epsSafe : ℝ := numBlocks * 2e-15 + 1e-7
    ((min (min (min ubCap ubGlobal) ubBlock + epsSafe) 1 : ℝ) : WithBot ℝ)

section
variable {α : Type} [LinearOrder α] {values : List α}

theorem le_foldl_max (fst : α) : fst ≤ values.foldl max fst := by
  induction values generalizing fst with
  | nil => exact le_rfl
  | cons next values ih => exact (le_max_left fst next).trans (ih (max fst next))

theorem le_foldl_max_of_mem (mem : value ∈ values) (fst : α) : value ≤ values.foldl max fst := by
  induction values generalizing fst with
  | nil => cases mem
  | cons next values ih =>
    rcases List.mem_cons.mp mem with rfl | later
    · exact (le_max_right fst value).trans (le_foldl_max _)
    · exact ih later _

theorem foldl_min_le_of_mem (mem : value ∈ values) : values.foldl min fst ≤ value :=
  @le_foldl_max_of_mem αᵒᵈ _ values value mem fst

end

section
variable (vec : VectorEmbedding)

theorem VectorEmbedding.coordinate_map (f : ℂ → ℂ) (zero : f 0 = 0) (i : ℕ) :
    VectorEmbedding.coordinate (vec.map f) i = f (vec.coordinate i) := by
  simp only [coordinate, List.getD_eq_getElem?_getD, List.getElem?_map]
  cases vec[i]? with
  | none => exact zero.symm
  | some z => rfl

variable {vec} in
theorem VectorEmbedding.norm_mul_self :
    vec.norm * vec.norm = dot (range vec.dimension) vec.coordinate vec.coordinate :=
  size_mul_self _ _

theorem dot_scaled (sum : VectorEmbedding) (nonzero : sum.norm ≠ 0) :
    let scaled := VectorEmbedding.coordinate (sum.map fun z => z * ((1 / sum.norm : ℝ) : ℂ))
    dot (range sum.dimension) scaled scaled = 1 := by
  have scaled : VectorEmbedding.coordinate (sum.map fun z => z * ((1 / sum.norm : ℝ) : ℂ)) =
      (1 / sum.norm) • sum.coordinate := by
    funext i
    rw [sum.coordinate_map (fun z => z * ((1 / sum.norm : ℝ) : ℂ)) (zero_mul _), Pi.smul_apply,
      real_smul, mul_comm]
  dsimp only
  rw [scaled, dot_smul_left, dot_smul_right, ← VectorEmbedding.norm_mul_self]
  field_simp

theorem dot_cons (z : ℂ) (rest : VectorEmbedding) :
    dot (range (rest.dimension + 1)) (VectorEmbedding.coordinate (z :: rest))
        (VectorEmbedding.coordinate (z :: rest)) =
      dot (range rest.dimension) rest.coordinate rest.coordinate + ‖z‖ ^ 2 := by
  simp [dot_self_eq, sum_range_succ', VectorEmbedding.coordinate]

/-- A centroid is a unit vector, or hardly longer than one. -/
theorem dot_centroid (pos : 0 < dimension) :
    let centroid := (computeNormalizedCentroid dimension mems).coordinate
    1 ≤ dot (range dimension) centroid centroid ∧
      dot (range dimension) centroid centroid ≤ 1 + (1e-12) ^ 2 := by
  have length : (centroidSum dimension mems).dimension = dimension := by
    simp [centroidSum, VectorEmbedding.dimension]
  unfold computeNormalizedCentroid
  dsimp only
  generalize centroidSum dimension mems = sum at length
  subst length
  split
  · rename_i wide
    have nonzero : sum.norm ≠ 0 := ne_of_gt (lt_trans (by norm_num) wide)
    rw [dot_scaled sum nonzero]
    norm_num
  · rename_i short
    cases sum with
    | nil => simp [VectorEmbedding.dimension] at pos
    | cons z rest =>
      have small := mul_self_le_mul_self (size_nonneg _ _) (not_lt.mp short)
      rw [size_mul_self] at small
      have tail := dot_self_nonneg (range (VectorEmbedding.dimension rest))
        (VectorEmbedding.coordinate rest)
      have whole := dot_cons z rest
      have replaced := dot_cons 1 rest
      rw [norm_one] at replaced
      dsimp only [VectorEmbedding.dimension, List.length_cons] at *
      constructor
      · linarith
      · linarith [sq_nonneg ‖z‖]

theorem coords_fromRaw (hin : j < proofBlockComplexDim) :
    (ProofCentroidCode.fromRaw raw).coords.getD j 0 = raw.getD j 0 := by
  simp only [ProofCentroidCode.fromRaw, List.getD_eq_getElem?_getD]
  by_cases stored : j < raw.length
  · rw [List.getElem?_append_left (by simp [hin, stored]), List.getElem?_take_of_lt hin]
  · rw [List.getElem?_append_right (by simp; omega), List.getElem?_eq_none (not_lt.mp stored)]
    cases filled : (List.replicate (proofBlockComplexDim - raw.length)
        (0 : ℂ))[j - (raw.take proofBlockComplexDim).length]? with
    | none => rfl
    | some z => simp [List.eq_of_mem_replicate (List.mem_of_getElem? filled)]

theorem coords_block (centroid : VectorEmbedding)
    (hin : i ∈ block proofBlockComplexDim dimension b) :
    (ProofCentroidCode.fromRaw ((centroid.drop (proofBlockComplexDim * b)).take
      proofBlockComplexDim)).coords.getD (i - proofBlockComplexDim * b) 0 =
        centroid.coordinate i := by
  simp only [block, mem_Ico, lt_min_iff] at hin
  have off : i - proofBlockComplexDim * b < proofBlockComplexDim := by omega
  rw [coords_fromRaw off, VectorEmbedding.coordinate, List.getD_eq_getElem?_getD,
    List.getElem?_take_of_lt off, List.getElem?_drop, List.getD_eq_getElem?_getD]
  congr 2
  omega

end

section
variable {dimension : ℕ} {mems : List VectorEmbedding} {q vec : VectorEmbedding}

theorem blocksPerVector_covers : dimension ≤ proofBlockComplexDim * blocksPerVector dimension := by
  simp only [proofBlockComplexDim, blocksPerVector]
  omega

theorem blocksPerVector_pos (pos : 0 < dimension) : 0 < blocksPerVector dimension := by
  simp only [proofBlockComplexDim, blocksPerVector]
  omega

theorem residual_le_of_mem (places : Finset ℕ) (centroid : VectorEmbedding) (mem : vec ∈ mems) :
    residual places centroid vec ≤ (mems.map (residual places centroid)).foldl max 0 :=
  le_foldl_max_of_mem (List.mem_map_of_mem mem) 0

/-- A score is what the centroid gets and what the distance to it adds. -/
theorem dot_le_add_residual (places : Finset ℕ) (q centroid vec : VectorEmbedding) :
    dot places q.coordinate vec.coordinate ≤ dot places q.coordinate centroid.coordinate +
        size places q.coordinate * residual places centroid vec := by
  have rest := dot_le_size_mul_size places q.coordinate (vec.coordinate - centroid.coordinate)
  rw [dot_sub_right] at rest
  rw [residual]
  linarith

open VectorEmbedding

/-- No member is further from the centroid than the radius of the cap says. -/
theorem cosRadius_le (mem : vec ∈ mems) :
    (envelope dimension mems).cosRadius ≤ max (-1) (dot (range dimension) vec.coordinate
      (computeNormalizedCentroid dimension mems).coordinate) := by
  apply max_le_max_left
  refine (min_le_left _ _).trans (foldl_min_le_of_mem ?_)
  exact List.mem_map_of_mem (f := fun vec => dot (range dimension)
    (coordinate vec) (computeNormalizedCentroid dimension mems).coordinate)
      mem

theorem dot_le_ubCap (pos : 0 < dimension)
    (qry : dot (range dimension) q.coordinate q.coordinate ≤ 1)
    (short : ∀ vec ∈ mems, dot (range dimension) vec.coordinate vec.coordinate ≤ 1)
    (mem : vec ∈ mems) :
    dot (range dimension) q.coordinate vec.coordinate ≤
      (envelope dimension mems).ubCap (dot (range dimension) q.coordinate
        (computeNormalizedCentroid dimension mems).coordinate) + 1e-7 := by
  obtain ⟨long, hardly⟩ := dot_centroid pos
  have hin := @cosRadius_le dimension _ _ mem
  have below := dot_le_one qry (short vec mem)
  have folded : ∀ s, s * (envelope dimension mems).cosRadius +
      √(max 0 (1 - s * s)) * (envelope dimension mems).sinRadius =
        capBound s (envelope dimension mems).cosRadius := fun _ => rfl
  have lower : -1 ≤ (envelope dimension mems).cosRadius := le_max_left _ _
  have upper : (envelope dimension mems).cosRadius ≤ 1 := max_le (by norm_num) (min_le_right _ _)
  rw [Envelope.ubCap, folded]
  generalize (envelope dimension mems).cosRadius = cosRadius at hin lower upper
  split
  · linarith
  · rename_i outside
    rcases le_max_iff.mp hin with least | within
    · -- the clamped cosine of a centroid that is longer than one
      have opposite : cosRadius = -1 := le_antisymm least lower
      have flat : ∀ s, capBound s (-1) = -s := by simp [capBound]
      rw [opposite, flat]
      linarith
    · have bound := dot_le_capBound long (by norm_num) (by norm_num) hardly qry
        (short vec mem) lower upper (not_le.mp outside) within
      linarith

theorem dot_le_ubGlobal (q : VectorEmbedding) (mem : vec ∈ mems) :
    dot (range dimension) q.coordinate vec.coordinate ≤
      dot (range dimension) q.coordinate (computeNormalizedCentroid dimension mems).coordinate +
        size (range dimension) q.coordinate * ((envelope dimension mems).globalRadius +
          (envelope dimension mems).centroidErrorNorm) := by
  have radius : residual (range dimension) (computeNormalizedCentroid dimension mems) vec ≤
      (envelope dimension mems).globalRadius + (envelope dimension mems).centroidErrorNorm :=
    (residual_le_of_mem _ _ mem).trans_eq (add_zero _).symm
  have scaled := mul_le_mul_of_nonneg_left radius (size_nonneg (range dimension) q.coordinate)
  linarith [dot_le_add_residual (range dimension) q (computeNormalizedCentroid dimension mems) vec]

theorem code_envelope (hin : b < blocksPerVector dimension) :
    (envelope dimension mems).code b = .fromRaw
      (((computeNormalizedCentroid dimension mems).drop (proofBlockComplexDim * b)).take
        proofBlockComplexDim) := by
  simp [Envelope.code, envelope, List.getElem?_range hin]

theorem dotBlock_envelope :
    (envelope q.dimension mems).dotBlock (.new q) (blocksPerVector q.dimension) =
      dot (range q.dimension) q.coordinate
        (computeNormalizedCentroid q.dimension mems).coordinate := by
  rw [Envelope.dotBlock, ← sum_dot_blocks (blocksPerVector_covers)]
  apply sum_congr rfl
  intro b hin
  rw [code_envelope (mem_range.mp hin)]
  exact dot_congr (fun _ _ => rfl) fun i place => coords_block _ place

theorem dot_le_ubBlock (q : VectorEmbedding) (mem : vec ∈ mems) :
    dot (range q.dimension) q.coordinate vec.coordinate ≤ dot (range q.dimension) q.coordinate
          (computeNormalizedCentroid q.dimension mems).coordinate +
        (envelope q.dimension mems).csBlock (.new q) (blocksPerVector q.dimension) := by
  rw [Envelope.csBlock, ← sum_dot_blocks (blocksPerVector_covers),
    ← sum_dot_blocks (blocksPerVector_covers), ← sum_add_distrib]
  apply sum_le_sum
  intro b hin
  have radius := residual_le_of_mem (block proofBlockComplexDim q.dimension b)
    (computeNormalizedCentroid q.dimension mems) mem
  have stored : (PreparedQuery.new q).blockNorms.getD b 0 *
      ((envelope q.dimension mems).blockRadii.getD b 0 +
        ((envelope q.dimension mems).code b).errorNorm) =
      size (block proofBlockComplexDim q.dimension b) q.coordinate *
        (mems.map (residual (block proofBlockComplexDim q.dimension b)
          (computeNormalizedCentroid q.dimension mems))).foldl max 0 := by
    rw [code_envelope (mem_range.mp hin)]
    simp [PreparedQuery.new, envelope, List.getElem?_range (mem_range.mp hin),
      ProofCentroidCode.fromRaw]
  have scaled := mul_le_mul_of_nonneg_left radius
    (size_nonneg (block proofBlockComplexDim q.dimension b) q.coordinate)
  linarith [dot_le_add_residual (block proofBlockComplexDim q.dimension b) q
    (computeNormalizedCentroid q.dimension mems) vec]

/-- The bound covers every member, over vectors of at most unit length. -/
theorem dot_le_evaluateNodeUpperBound (pos : 0 < q.dimension)
    (qry : dot (range q.dimension) q.coordinate q.coordinate ≤ 1)
    (short : ∀ vec ∈ mems, dot (range q.dimension) vec.coordinate vec.coordinate ≤ 1)
    (mem : vec ∈ mems) :
    ((dot (range q.dimension) q.coordinate vec.coordinate : ℝ) : WithBot ℝ) ≤
      evaluateNodeUpperBound (.new q) (envelope q.dimension mems)
        (blocksPerVector q.dimension) := by
  rw [evaluateNodeUpperBound, if_neg (blocksPerVector_pos pos).ne']
  rw [dotBlock_envelope, WithBot.coe_le_coe]
  refine le_min ?_ (dot_le_one qry (short vec mem))
  rw [← sub_le_iff_le_add]
  refine le_min (le_min ?_ ?_) ?_
  · linarith [dot_le_ubCap pos qry short mem]
  · have ball := @dot_le_ubGlobal q.dimension _ _ q mem
    simp only [PreparedQuery.new, VectorEmbedding.norm]
    linarith
  · linarith [dot_le_ubBlock q mem]

/-- A vector of the given dimension and of length one. -/
def VectorEmbedding.IsUnit (dimension : ℕ) (vec : VectorEmbedding) : Prop :=
  vec.dimension = dimension ∧ vec.norm = 1

theorem VectorEmbedding.IsUnit.dot_self (unit : vec.IsUnit dimension) :
    dot (range dimension) vec.coordinate vec.coordinate = 1 := by
  obtain ⟨rfl, length⟩ := unit
  rw [← norm_mul_self, length, mul_one]

theorem VectorEmbedding.IsUnit.dimension_pos (unit : vec.IsUnit dimension) : 0 < dimension := by
  rw [Nat.pos_iff_ne_zero]
  rintro rfl
  have length := unit.dot_self
  simp [dot] at length

/-- Whatever unit vectors a node holds, its bound is at least what any of them scores with a unit
    query, also if their sum is too short to be scaled. -/
theorem dotProduct_le_upperBound (mems : List VectorEmbedding)
    (units : ∀ vec ∈ mems, vec.IsUnit dimension) (qry : q.IsUnit dimension)
    (mem : vec ∈ mems) :
    ((q.dotProduct vec : ℝ) : WithBot ℝ) ≤
      evaluateNodeUpperBound (.new q) (envelope dimension mems) (blocksPerVector dimension) := by
  obtain ⟨length, -⟩ := id qry
  have dimensions : min q.dimension vec.dimension = q.dimension := by
    rw [length, (units vec mem).1, min_self]
  rw [VectorEmbedding.dotProduct, dimensions]
  subst length
  exact dot_le_evaluateNodeUpperBound qry.dimension_pos qry.dot_self.le
    (fun other among => (units other among).dot_self.le) mem

theorem isUnit_singleton (length : ‖z‖ = 1) : IsUnit 1 [z] := by
  refine ⟨rfl, ?_⟩
  simp [VectorEmbedding.norm, VectorEmbedding.dimension, VectorEmbedding.coordinate, size,
    dot_self_eq, length]

theorem rightAngle_dotProduct_le_upperBound : IsUnit 1 [I] ∧
      ((dotProduct [1] [I] : ℝ) : WithBot ℝ) ≤
        evaluateNodeUpperBound (.new [1]) (envelope 1 [[1], [I]]) (blocksPerVector 1) := by
  have fst : IsUnit 1 [1] := isUnit_singleton norm_one
  have snd : IsUnit 1 [I] := isUnit_singleton norm_I
  refine ⟨snd, dotProduct_le_upperBound [[1], [I]] ?_ fst (by simp)⟩
  simp [fst, snd]

end
end HoloSphere.Proof
