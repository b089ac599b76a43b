import HoloSphere.Graph.Analytics.Projection
import Mathlib.Combinatorics.Enumerative.DoubleCounting
import Mathlib.Data.Nat.Choose.Cast
import Mathlib.Tactic.Linarith

/-! # Triangle counts

`TriangleCount::compute` adds the common neighbours of the ends of every edge, so a triangle
is met at each of its three edges and, at each of its nodes, at two of them.
-/

namespace HoloSphere.Graph.Analytics
open List
section
variable {α : Type} [LinearOrder α]

/-- The linear scan of two sorted slices. -/
def scanCommon : List α → List α → Nat
  | a :: as, b :: bs =>
    if a = b then scanCommon as bs + 1
    else if a < b then scanCommon as (b :: bs)
    else scanCommon (a :: as) bs
  | _, _ => 0
termination_by as bs => as.length + bs.length

/-- The steps `1, 2, 4, ...` to a place that is not below the value, with the step after. -/
def gallop (large : List α) (val : α) (curr exponent : Nat) : Nat × Nat :=
  if hin : curr < large.length then
    if large[curr] < val then gallop large val (curr + 2 ^ exponent) (exponent + 1)
    else (curr, 2 ^ exponent)
  else (curr, 2 ^ exponent)
termination_by large.length - curr
decreasing_by
  have := Nat.two_pow_pos exponent
  omega

/-- The place of the value in a sorted slice, or else where it would be. -/
def binarySearch (slice : List α) (val : α) : Except Nat Nat :=
  let pos := (slice.takeWhile (· < val)).length
  if slice[pos]? = some val then .ok pos else .error pos

/-- One turn of the loop over the smaller slice; the state is `count` and `large_idx`. -/
def gallopStep (large : List α) (st : Nat × Nat) (val : α) : Nat × Nat :=
  let (count, largeIdx) := st
  if large.length ≤ largeIdx then st
  else
    let (curr, step) := gallop large val largeIdx 0
    let start := min (max (curr - step / 2) largeIdx) large.length
    let stop := min curr large.length
    if start < stop then
      match binarySearch ((large.take stop).drop start) val with
      | .ok pos => (count + 1, start + pos + 1)
      | .error pos => (count, start + pos)
    else if large[start]? = some val then (count + 1, start + 1)
    else st

def intersectSortedGalloping (a b : List α) : Nat :=
  if a.isEmpty || b.isEmpty then 0
  else if a.length ≤ b.length * 4 && b.length ≤ a.length * 4 then scanCommon a b
  else if a.length ≤ b.length then (a.foldl (gallopStep b) (0, 0)).1
  else (b.foldl (gallopStep a) (0, 0)).1

theorem scanCommon_eq_zero {a b : List α} (disjoint : ∀ x ∈ a, x ∉ b) : scanCommon a b = 0 := by
  fun_induction scanCommon a b with
  | case1 a as bs ih => simp at disjoint
  | case2 a as b bs differs below ih => exact ih fun x mem => disjoint x (by simp [mem])
  | case3 a as b bs differs below ih =>
    exact ih fun x mem found => disjoint x mem (by simp [found])
  | case4 => rfl

theorem gallopStep_count {large : List α} {val : α} (missing : val ∉ large) :
    (gallopStep large st val).1 = st.1 := by
  unfold gallopStep
  dsimp only
  split
  · rfl
  · split
    · unfold binarySearch
      dsimp only
      split
      · next found =>
          split at found
          · next isVal =>
              exact absurd (mem_of_mem_take (mem_of_mem_drop (mem_of_getElem? isVal))) missing
          · cases found
      · rfl
    · split
      · next isVal => exact absurd (mem_of_getElem? isVal) missing
      · rfl

theorem foldl_gallopStep {small large : List α} (disjoint : ∀ x ∈ small, x ∉ large) :
    (small.foldl (gallopStep large) st).1 = st.1 := by
  induction small generalizing st with
  | nil => rfl
  | cons val small ih =>
    rw [forall_mem_cons] at disjoint
    rw [foldl_cons, ih disjoint.2, gallopStep_count disjoint.1]

/-- Only common elements are counted. -/
theorem intersect_eq_zero {a b : List α} (disjoint : ∀ x ∈ a, x ∉ b) :
    intersectSortedGalloping a b = 0 := by
  have flipped : ∀ x ∈ b, x ∉ a := fun x inB inA => disjoint x inA inB
  unfold intersectSortedGalloping
  simp [scanCommon_eq_zero disjoint, foldl_gallopStep disjoint, foldl_gallopStep flipped]

end

section
variable (proj : GraphProjection n)

/-- The neighbours in both directions, sorted and without repetitions. -/
def neighborSet (v : Fin n) : List (Fin n) :=
  (((proj.outNeighbors v ++ proj.inNeighbors v).filter (· ≠ v)).mergeSort
    (· ≤ ·)).dedup

/-- `triangles` and `local_t`. -/
structure Totals (n : Nat) where
  triangles : Nat
  perNode : Fin n → Nat

/-- `counts[v] += common`. -/
def bump (counts : Fin n → Nat) (v : Fin n) (common : Nat) : Fin n → Nat :=
  Function.update counts v (counts v + common)

def addPair (u : Fin n) (totals : Totals n) (v : Fin n) : Totals n :=
  if v ≤ u then totals
  else
    let common := intersectSortedGalloping (neighborSet proj u) (neighborSet proj v)
    ⟨totals.triangles + common, bump (bump totals.perNode u common) v common⟩

def totals : Totals n :=
  (finRange n).foldl
    (fun totals u => (neighborSet proj u).foldl (addPair proj u) totals) ⟨0, fun _ => 0⟩

structure TriangleCount (n : Nat) where
  triangles : Nat
  localClustering : Fin n → ℚ

/-- The last loop, for one node. -/
def clusteringAt (v : Fin n) : ℚ :=
  let kv : ℚ := (neighborSet proj v).length
  if kv < 2 then 0 else 2 * (totals proj).perNode v / (kv * (kv - 1))

/-- The neighbours of `0..n as NodeIndex` are collected, and the clustering reads those of every
    node. -/
def TriangleCount.compute : Option (TriangleCount n) :=
  if (indices n).length < n then none else some ⟨(totals proj).triangles, clusteringAt proj⟩

variable {proj}

theorem mem_neighborSet : u ∈ neighborSet proj v ↔ proj.Adjacent v u := by
  simp only [neighborSet, mem_dedup, mem_mergeSort, mem_filter, mem_append,
    proj.mem_inNeighbors, decide_eq_true_eq, GraphProjection.Adjacent]
  tauto

/-- What every pair that is added keeps, the totals keep. -/
theorem totals_induction (holds : Totals n → Prop) (init : holds ⟨0, fun _ => 0⟩)
    (step : ∀ totals u v, holds totals → proj.Adjacent u v →
      holds (addPair proj u totals v)) : holds (totals proj) := by
  refine foldlRecOn _ _ init fun totals pre u _ => ?_
  exact foldlRecOn _ _ pre fun totals pre v mem =>
    step totals u v pre (mem_neighborSet.mp mem)

theorem sum_bump (counts : Fin n → Nat) : ∑ w, bump counts v common w = ∑ w, counts w + common := by
  rw [bump, Finset.sum_update_of_mem (Finset.mem_univ v),
    ← Finset.add_sum_erase _ counts (Finset.mem_univ v), Finset.sdiff_singleton_eq_erase]
  omega

/-- Each common neighbour is added once to the triangles and twice to the nodes. -/
theorem sum_perNode : ∑ v, (totals proj).perNode v = 2 * (totals proj).triangles := by
  refine totals_induction (fun totals => ∑ v, totals.perNode v = 2 * totals.triangles) (by simp)
    fun totals u v pre _ => ?_
  unfold addPair
  split
  · exact pre
  · simp only [sum_bump, pre]
    omega

end

section
variable (proj : GraphProjection n)

def AllAdjacent (nodes : Finset (Fin n)) : Prop :=
  ∀ u ∈ nodes, ∀ v ∈ nodes, u ≠ v → proj.Adjacent u v

instance (nodes : Finset (Fin n)) : Decidable (AllAdjacent proj nodes) :=
  inferInstanceAs (Decidable (∀ u ∈ nodes, ∀ v ∈ nodes, u ≠ v → proj.Adjacent u v))

/-- The sets of three pairwise adjacent nodes. -/
def triangleSets : Finset (Finset (Fin n)) := (Finset.univ.powersetCard 3).filter (AllAdjacent proj)

def neighborPairs (v : Fin n) : Finset (Finset (Fin n)) :=
  (Finset.univ.filter (proj.Adjacent v)).powersetCard 2

def adjacentPairs (v : Fin n) : Finset (Finset (Fin n)) :=
  (neighborPairs proj v).filter (AllAdjacent proj)

def clustering (v : Fin n) : ℚ := (adjacentPairs proj v).card / (neighborPairs proj v).card

open TriangleCount

/-- The triangles are counted, and the clustering of each node is the fraction of its pairs of
    neighbours that are adjacent. -/
def CountsTriangles : Prop :=
  ∃ res, compute proj = some res ∧ res.triangles = (triangleSets proj).card ∧
    ∀ v, res.localClustering v = clustering proj v ∧
      0 ≤ res.localClustering v ∧ res.localClustering v ≤ 1

def TriangleFree : Prop := ∀ u v w, proj.Adjacent u v → proj.Adjacent v w → ¬ proj.Adjacent u w

variable {proj}

theorem length_neighborSet :
    (neighborSet proj v).length = (Finset.univ.filter (proj.Adjacent v)).card := by
  rw [neighborSet, ← toFinset_card_of_nodup (nodup_dedup _)]
  congr 1
  ext u
  simpa [neighborSet] using mem_neighborSet

theorem card_neighborPairs :
    (neighborPairs proj v).card = (neighborSet proj v).length.choose 2 := by
  rw [neighborPairs, Finset.card_powersetCard, length_neighborSet]

/-- A node with the right clustering was given as many triangles as it has pairs of adjacent
    neighbours. -/
theorem adjacentPairs_le (right : clusteringAt proj v = clustering proj v) :
    (adjacentPairs proj v).card ≤ (totals proj).perNode v := by
  have below : (adjacentPairs proj v).card ≤ (neighborPairs proj v).card :=
    Finset.card_filter_le _ _
  rw [card_neighborPairs] at below
  simp only [clusteringAt, clustering, card_neighborPairs] at right
  generalize (neighborSet proj v).length = degree at right below
  by_cases few : degree < 2
  · rw [Nat.choose_eq_zero_of_lt few] at below
    omega
  · have many : (2 : ℚ) ≤ degree := by exact_mod_cast Nat.le_of_not_lt few
    rw [if_neg (by linarith), Nat.cast_choose_two ℚ] at right
    have nonzero : (degree : ℚ) * (degree - 1) ≠ 0 := by nlinarith
    rw [div_div_eq_mul_div, div_left_inj' nonzero, mul_comm, mul_left_inj' two_ne_zero] at right
    exact (Nat.cast_injective right).ge

/-- A triangle gives a pair of adjacent neighbours to each of its three nodes. -/
theorem three_mul_card_le : 3 * (triangleSets proj).card ≤ ∑ v, (adjacentPairs proj v).card := by
  have perNode : ∀ v, ((triangleSets proj).filter (v ∈ ·)).card ≤ (adjacentPairs proj v).card := by
    intro v
    refine Finset.card_le_card_of_injOn (·.erase v) ?_ ?_
    · intro nodes mem
      simp only [triangleSets, Finset.coe_filter, Finset.mem_filter, Finset.mem_powersetCard,
        Set.mem_ofPred_eq] at mem
      obtain ⟨⟨⟨-, three⟩, all⟩, hin⟩ := mem
      simp only [adjacentPairs, neighborPairs, Finset.coe_filter, Finset.mem_powersetCard,
        Set.mem_ofPred_eq, Finset.card_erase_of_mem hin, three]
      refine ⟨⟨fun u isNode => ?_, trivial⟩, fun u isNode w isOther => ?_⟩
      · rw [Finset.mem_erase] at isNode
        simpa using all v hin u isNode.2 isNode.1.symm
      · exact all u (Finset.mem_of_mem_erase isNode) w (Finset.mem_of_mem_erase isOther)
    · intro fst isFirst snd isSecond same
      simp only [Finset.coe_filter, Set.mem_ofPred_eq] at isFirst isSecond
      exact Finset.erase_injOn' v isFirst.2 isSecond.2 same
  calc 3 * (triangleSets proj).card
      = ∑ nodes ∈ triangleSets proj, (Finset.univ.filter (· ∈ nodes)).card := by
        have three : ∀ nodes ∈ triangleSets proj, (Finset.univ.filter (· ∈ nodes)).card = 3 := by
          intro nodes mem
          simp only [triangleSets, Finset.mem_filter, Finset.mem_powersetCard] at mem
          simpa using mem.1.2
        rw [Finset.sum_congr rfl three]
        simp [mul_comm]
    _ = ∑ v, ((triangleSets proj).filter (v ∈ ·)).card :=
        (Finset.sum_card_bipartiteAbove_eq_sum_card_bipartiteBelow _).symm
    _ ≤ _ := Finset.sum_le_sum fun v _ => perNode v

theorem TriangleFree.perNode_eq (free : TriangleFree proj) : totals proj = ⟨0, fun _ => 0⟩ := by
  refine totals_induction (· = ⟨0, fun _ => 0⟩) rfl fun totals u v pre adjacent => ?_
  have none : intersectSortedGalloping (neighborSet proj u) (neighborSet proj v) = 0 :=
    intersect_eq_zero fun w fst snd =>
      free u v w adjacent (mem_neighborSet.mp snd) (mem_neighborSet.mp fst)
  simp [addPair, pre, none, bump]

theorem TriangleFree.not_allAdjacent (free : TriangleFree proj) {nodes : Finset (Fin n)}
    (two : 2 ≤ nodes.card) (around : ∀ u ∈ nodes, proj.Adjacent v u) :
    ¬ AllAdjacent proj nodes := by
  obtain ⟨u, isNode, w, isOther, differ⟩ := Finset.one_lt_card.mp two
  exact fun all => free v u w (around u isNode) (all u isNode w isOther differ) (around w isOther)

theorem compute_of_small (small : n < 2 ^ 32) :
    compute proj = some ⟨(totals proj).triangles, clusteringAt proj⟩ :=
  if_neg (mt length_indices_lt.mp (not_not_intro small))

theorem CountsTriangles.small (counts : CountsTriangles proj) : n < 2 ^ 32 := by
  obtain ⟨res, computed, -⟩ := counts
  unfold compute at computed
  split at computed
  · cases computed
  · exact of_not_not fun large => ‹¬ _› (length_indices_lt.mpr large)

theorem CountsTriangles.triangleFree (counts : CountsTriangles proj) : TriangleFree proj := by
  intro u v w fst snd third
  obtain ⟨res, computed, counted, right⟩ := counts
  rw [compute_of_small (CountsTriangles.small ⟨res, computed, counted, right⟩)] at computed
  cases computed
  have nodes : ∑ v, (adjacentPairs proj v).card ≤ ∑ v, (totals proj).perNode v :=
    Finset.sum_le_sum fun v _ => adjacentPairs_le (right v).1
  have triple := @three_mul_card_le n proj
  dsimp only at counted
  have none : triangleSets proj = ∅ := by
    rw [sum_perNode] at nodes
    rw [← Finset.card_eq_zero]
    omega
  have mem : {u, v, w} ∈ triangleSets proj := by
    simp only [triangleSets, Finset.mem_filter, Finset.mem_powersetCard, Finset.subset_univ,
      true_and, AllAdjacent, Finset.forall_mem_insert, Finset.mem_singleton, forall_eq]
    exact ⟨Finset.card_eq_three.mpr ⟨u, v, w, fst.1, third.1, snd.1, rfl⟩,
      by simp [fst, third], by simp [fst.symm, snd], by simp [third.symm, snd.symm]⟩
  simp [none] at mem

theorem TriangleFree.counts (free : TriangleFree proj) (small : n < 2 ^ 32) :
    CountsTriangles proj := by
  have noPairs : ∀ v, adjacentPairs proj v = ∅ := by
    intro v
    refine Finset.filter_eq_empty_iff.mpr fun nodes mem => ?_
    rw [neighborPairs, Finset.mem_powersetCard] at mem
    exact free.not_allAdjacent mem.2.ge fun u isNode => by simpa using mem.1 isNode
  have noSets : triangleSets proj = ∅ := by
    have few := @three_mul_card_le n proj
    rw [← Finset.card_eq_zero]
    simp only [noPairs, Finset.card_empty, Finset.sum_const_zero] at few
    omega
  refine ⟨_, compute_of_small small, ?_⟩
  simp [clusteringAt, free.perNode_eq, noSets, noPairs, clustering]

/-- For every graph: the counts are right just if there is no triangle to count and the nodes
    can be counted by a `u32`. -/
theorem counts_triangles_iff (proj : GraphProjection n) :
    CountsTriangles proj ↔ n < 2 ^ 32 ∧ TriangleFree proj :=
  ⟨fun counts => ⟨counts.small, counts.triangleFree⟩, fun ⟨small, free⟩ => free.counts small⟩

/-- Three nodes, each with edges to the other two. -/
def clique : GraphProjection 3 where
  outNeighbors v := (finRange 3).filter (· ≠ v)
  inNeighbors v := (finRange 3).filter (· ≠ v)
  transpose := by decide
  indexed u v _ := ⟨u.isLt.trans (by decide), v.isLt.trans (by decide)⟩

/-- The only triangle is counted three times. -/
theorem clique_triangle_counted_thrice : ¬ CountsTriangles clique := fun counts =>
  counts.triangleFree 0 1 2 (by decide) (by decide) (by decide)

end
end HoloSphere.Graph.Analytics
