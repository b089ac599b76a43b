import HoloSphere.Proof.Exact
import Mathlib.Data.Real.Basic

/-! # Relaxed proof search

`GlobalPacProofSearch` of `proof/search.rs`.  A bound is multiplied by `1 - ε` before it is
compared with the threshold, so what is passed over is almost as good as what is kept.  The flat
sieve of the exact search is missing, and of a segment that is not spatially prunable only the
seeds are looked at.
-/

namespace HoloSphere.Proof
open Store
open List hiding count
variable {ν κ γ α : Type} [Inhabited ν] [Inhabited κ] [Inhabited γ] [LinearOrder α]

namespace GlobalPacProofSearch

section
variable [Ring α]

def epsFactor (epsilon : α) : α := max (1 - epsilon) 0

def relax (epsilon bound : α) : α := bound * epsFactor epsilon

def search (fuel : Nat) (qry : ProofQuery ν κ γ α) (k : Nat)
    (segs : List (SegmentProofView ν κ γ)) (mutableCandidates : List (NodeIndex × α))
    (seeds : List NodeIndex) (mask : Option (Finset NodeIndex)) (epsilon : α) :
    Option (List (NodeIndex × α) × DenseExactProof α) :=
  let corpus := corpusSize segs mutableCandidates
  if k = 0 ∨ corpus = 0 then some ([], { corpusSize := corpus })
  else
    resolve (relax epsilon) false fuel qry segs mask
      (seeded qry k segs mutableCandidates seeds mask)

/-- The slots returned are eligible and distinct, as many as can be had, and each scores at
    least `1 - ε` times what the best answer has in its place. -/
structure Guarantee (epsilon : α) (tgt : Target α) (ans : List (NodeIndex × α)) : Prop where
  eligible : ∀ entry ∈ ans, entry.1 < tgt.count ∧ tgt.eligible entry.1 = true ∧
    entry.2 = tgt.score entry.1
  distinct : (ans.map Prod.fst).Nodup
  close : Forall₂ (fun best found => (1 - epsilon) * best.2 ≤ found.2) tgt.ranking ans

/-- Whatever the vectors and codes are, as long as the bounds hold and the best `k` scores are
    not negative, the search returns an answer with the guarantee. -/
def KeepsGuarantee (tree : SemanticProofTree γ) (count : Nat)
    (tombstones mask : Option (Finset NodeIndex)) (seeds : List NodeIndex) (k : Nat)
    (epsilon : α) : Prop :=
  ∀ (ν κ : Type) [Inhabited ν] [Inhabited κ] (qry : ProofQuery ν κ γ α) (vecs : List ν)
    (lutzCodes : Option (List κ)), vecs.length = count →
    let seg : SegmentProofView ν κ γ := ⟨tree, vecs, lutzCodes, tombstones⟩
    Admissible qry seg → (∀ entry ∈ (seg.target id qry mask k).ranking, 0 ≤ entry.2) →
      ∃ turns, ∀ fuel, turns ≤ fuel → ∃ ans proof,
        search fuel qry k [seg] [] seeds mask epsilon = some (ans, proof) ∧
          Guarantee epsilon (seg.target id qry mask k) ans

/-- Every eligible slot is below a spatially prunable tree or among the seeds that are read. -/
def Reaches (tree : SemanticProofTree γ) (count : Nat)
    (tombstones mask : Option (Finset NodeIndex)) (seeds : List NodeIndex) (k : Nat) : Prop :=
  k = 0 ∨ tree.isSpatiallyPrunable = true ∨
    ∀ slot < count, (tombstones.any fun dead => slot ∈ dead) = false →
      admits mask slot = true → slot ∈ seeds.take (max 128 (k * 2))

end

section
variable {qry : ProofQuery ν κ γ α} {seg : SegmentProofView ν κ γ}

omit [Inhabited κ] [Inhabited γ] in
theorem mem_evaluatedSlots_seeds (seeds : List NodeIndex) (prog : Progress α)
    (seen : Finset NodeIndex)
    (known : ∀ slot ∈ seen, slot < seg.vectors.length → slot ∈ prog.evaluatedSlots)
    (hin : slot < seg.vectors.length) (admitted : admits mask slot = true)
    (mem : slot ∈ seeds ∨ slot ∈ seen) :
    slot ∈ (seeds.foldl (seedStage qry [seg] mask) (prog, seen)).1.evaluatedSlots := by
  induction seeds generalizing prog seen with
  | nil =>
    rcases mem with none | old
    · cases none
    · exact known slot old hin
  | cons seed seeds ih =>
    rw [foldl_cons, seedStage]
    split
    · apply ih
      · intro other old within
        rw [evaluatedSlots_seedSlot]
        rcases Finset.mem_insert.mp old with rfl | before
        · rw [if_pos within]
          exact Finset.mem_insert_self _ _
        · split
          · exact Finset.mem_insert_of_mem (known other before within)
          · exact known other before within
      · rcases mem with now | old
        · rcases mem_cons.mp now with rfl | later
          · exact .inr (Finset.mem_insert_self _ _)
          · exact .inl later
        · exact .inr (Finset.mem_insert_of_mem old)
    · rename_i skipped
      apply ih prog seen known
      rcases mem with now | old
      · rcases mem_cons.mp now with rfl | later
        · right
          simpa [admitted] using skipped
        · exact .inl later
      · exact .inr old

theorem resolve_of_not_prunable (relax : α → α) (flat : seg.tree.isSpatiallyPrunable = false) :
    resolve relax globallyExact (fuel + 1) qry [seg] mask prog = some (prog.topk.intoSortedVec,
        { prog.proof with
          kthScore := some prog.topk.kthScore
          globallyExact := globallyExact }) := by
  simp only [resolve, length_singleton, range_one, foldl_cons, foldl_nil,
    rootStage, getD_cons_zero, flat, Bool.not_false, Bool.true_or, if_true, explore]
  rfl

end

section
variable [Field α] [IsStrictOrderedRing α] {epsilon : α} {tgt : Target α}

theorem epsFactor_eq (small : epsilon < 1) : epsFactor epsilon = 1 - epsilon :=
  max_eq_left (sub_nonneg.mpr small.le)

theorem monotone_relax : Monotone (relax epsilon) :=
  fun _ _ less => mul_le_mul_of_nonneg_right less (le_max_right _ _)

theorem close_of_beaten (nonneg : 0 ≤ epsilon) (small : epsilon < 1)
    {scored passed : List NodeIndex} (beaten : ∀ slot ∈ passed,
      Beaten tgt.k (scored.map tgt.finalist) (relax epsilon (tgt.score slot))) :
    Forall₂ (fun best found : Finalist α => 0 ≤ best.score →
        (1 - epsilon) * best.score ≤ found.score)
      (best tgt.k (passed.map tgt.finalist ++ scored.map tgt.finalist))
      (best tgt.k (scored.map tgt.finalist)) := by
  have same : ∀ kept : Finalist α, 0 ≤ kept.score → (1 - epsilon) * kept.score ≤ kept.score :=
    fun kept pos => mul_le_of_le_one_left pos (sub_le_self 1 nonneg)
  cases passed with
  | nil => exact forall₂_same.mpr fun kept _ => same kept
  | cons fst passed =>
    apply forall₂_best_append (beaten fst mem_cons_self).1 fun kept _ => same kept
    intro item mem other later kept among _
    obtain ⟨slot, rank, rfl⟩ := mem_map.mp mem
    have below := (beaten slot rank).2 kept among
    have less : other.score ≤ tgt.score slot := Finalist.score_le_of_le later
    calc (1 - epsilon) * other.score ≤ (1 - epsilon) * tgt.score slot :=
          mul_le_mul_of_nonneg_left less (sub_nonneg.mpr small.le)
      _ = relax epsilon (tgt.score slot) := by rw [relax, epsFactor_eq small, mul_comm]
      _ ≤ kept.score := below.le

/-- If no eligible slot is left, the finalists keep the guarantee. -/
theorem guarantee_of_open (nonneg : 0 ≤ epsilon) (small : epsilon < 1)
    (relaxed : tgt.relax = relax epsilon)
    (opened : tgt.Open (range tgt.count) pending prog)
    (rest : ∀ slot ∈ pending, slot ∉ prog.evaluatedSlots → tgt.eligible slot = false)
    (pos : ∀ entry ∈ tgt.ranking, 0 ≤ entry.2) :
    Guarantee epsilon tgt prog.topk.intoSortedVec := by
  obtain ⟨scored, passed, holds, -, beaten, parts⟩ := opened.field_perm rest
  rw [relaxed] at beaten
  rw [holds.intoSortedVec]
  refine ⟨fun entry mem => ?_, ?_, ?_⟩
  · obtain ⟨finalist, kept, rfl⟩ := mem_map.mp mem
    have among := parts.mem_iff.mpr (mem_append_right _ (mem_of_mem_best kept))
    simpa using Target.mem_field.mp among
  · rw [map_map]
    apply nodup_map_best
    have uniq := (parts.map Finalist.slot).nodup_iff.mp (tgt.nodup_field nodup_range)
    rw [map_append] at uniq
    exact (nodup_append.mp uniq).2.1
  · rw [Target.ranking, Target.rankingOf, forall₂_map_left_iff, forall₂_map_right_iff]
    have close := close_of_beaten nonneg small beaten
    rw [← best_perm parts] at close
    have all : ∀ finalist ∈ best tgt.k (tgt.field (range tgt.count)), 0 ≤ finalist.score :=
      fun finalist mem => pos _ (mem_map_of_mem mem)
    exact ((forall₂_and_left _ _).mpr ⟨all, close⟩).imp fun _ _ both => both.2 both.1

end

section
variable [Field α] [IsStrictOrderedRing α] {epsilon : α} {tree : SemanticProofTree γ}

theorem keepsGuarantee_of_reaches (nonneg : 0 ≤ epsilon) (small : epsilon < 1)
    (covers : tree.Covers (range count))
    (reaches : Reaches tree count tombstones mask seeds k) :
    KeepsGuarantee tree count tombstones mask seeds k epsilon := by
  intro ν κ _ _ qry vecs lutzCodes length seg adm pos
  subst length
  have corpus : corpusSize [seg] ([] : List (NodeIndex × α)) = vecs.length := by
    simp [corpusSize, SemanticProofTree.totalVectors, covers.size, seg]
  by_cases trivial : k = 0 ∨ vecs.length = 0
  · refine ⟨0, fun fuel _ => ⟨[], _, by rw [search, if_pos (corpus ▸ trivial)], ?_, .nil, ?_⟩⟩
    · simp
    · have none : (seg.target id qry mask k).ranking = [] := by
        rcases trivial with rfl | empty
        · simp [Target.ranking, Target.rankingOf, SegmentProofView.target, best]
        · simp [Target.ranking, Target.rankingOf, Target.field, SegmentProofView.target, seg, empty]
      rw [none]
      exact .nil
  · have opened := (@open_seeded_range _ _ _ _ _ _ seg (relax epsilon) qry k seeds
      mask).1
    have active : ∀ fuel, search fuel qry k [seg] [] seeds mask epsilon =
        resolve (relax epsilon) false fuel qry [seg] mask
          (seeded qry k [seg] [] seeds mask) := by
      intro fuel
      rw [search, if_neg (corpus ▸ trivial)]
    obtain ⟨some, nonempty⟩ := not_or.mp trivial
    cases prunable : tree.isSpatiallyPrunable with
    | true =>
      obtain ⟨turns, ends⟩ := resolve_settles adm (monotone_relax) covers
        (by simpa using nonempty) opened (by simp [seg, prunable])
      refine ⟨turns, fun fuel enough => ?_⟩
      obtain ⟨last, settled, resolved⟩ := ends fuel enough
      refine ⟨_, _, (active fuel).trans resolved, ?_⟩
      have kept := guarantee_of_open nonneg small rfl settled (by simp) pos
      exact { kept with }
    | false =>
      refine ⟨1, fun fuel enough => ?_⟩
      obtain ⟨fuel, rfl⟩ := Nat.exists_eq_add_of_le' enough
      refine ⟨_, _, (active _).trans (resolve_of_not_prunable _ prunable), ?_⟩
      have rest : ∀ slot ∈ range vecs.length,
          slot ∉ (seeded qry k [seg] [] seeds mask).evaluatedSlots →
            (seg.target (relax epsilon) qry mask k).eligible slot = false := by
        intro slot mem fresh
        have hin : slot < vecs.length := mem_range.mp mem
        by_contra elig
        simp only [SegmentProofView.target, SegmentProofView.tombstoned, Bool.not_eq_false,
          Bool.and_eq_true, Bool.not_eq_true'] at elig
        rcases reaches with zero | cut | seeded
        · exact some zero
        · simp [prunable] at cut
        · exact fresh (mem_evaluatedSlots_seeds _ _ ∅ (by simp) hin elig.2
            (.inl (seeded slot hin elig.1 elig.2)))
      have kept := guarantee_of_open nonneg small rfl opened rest pos
      exact { kept with }

omit [Inhabited γ] [Field α] [IsStrictOrderedRing α] in
theorem evaluated_of_mem_answer {tgt : Target α} (opened : tgt.Open slots pending prog)
    (mem : entry ∈ prog.topk.intoSortedVec) :
    entry.1 ∈ prog.evaluatedSlots ∧ entry.2 = tgt.score entry.1 := by
  obtain ⟨-, -, settled, ⟨scored, passed, aside, ledger, -⟩, -⟩ := opened
  rw [ledger.holds.intoSortedVec, mem_map] at mem
  obtain ⟨finalist, kept, rfl⟩ := mem
  obtain ⟨slot, among, rfl⟩ := mem_map.mp (mem_of_mem_best kept)
  exact ⟨ledger.marked slot among, rfl⟩

/-- A segment in which one vector stands out. -/
def spike (tree : SemanticProofTree γ) (count : Nat) (tombstones : Option (Finset NodeIndex))
    (slot : NodeIndex) : SegmentProofView Bool Unit γ :=
  ⟨tree, (range count).map fun other => other = slot, none, tombstones⟩

/-- The query that this vector matches, and no other. -/
def spikeQuery : ProofQuery Bool Unit γ α where
  score stands := if stands then 1 else 0
  upperBound _ := WithBot.some 1
  scoreL0 _ := 1
  boundL0 _ := 1
  boundL1 _ := none

omit [Inhabited γ] in
theorem vector_spike (slot other : NodeIndex) :
    (spike tree count tombstones slot).vector other = decide (other = slot ∧ other < count) := by
  by_cases hin : other < count
  · simp [spike, SegmentProofView.vector, getD_eq_getElem?_getD, hin]
  · simp [spike, SegmentProofView.vector, hin]

theorem spike_admissible (tree : SemanticProofTree γ) (count : Nat) (slot : NodeIndex) :
    Admissible (spikeQuery : ProofQuery Bool Unit γ α) (spike tree count tombstones slot) where
  coded := nofun
  region idx other _ := by
    apply WithBot.coe_le_coe.mpr
    simp only [spikeQuery]
    split
    · exact le_rfl
    · exact zero_le_one
  codeL0 := nofun
  codeL1 := nofun

theorem reaches_of_keepsGuarantee (small : epsilon < 1) (covers : tree.Covers (range count))
    (keeps : KeepsGuarantee tree count tombstones mask seeds k epsilon) :
    Reaches tree count tombstones mask seeds k := by
  by_contra unreached
  simp only [Reaches, not_or, not_forall, Bool.not_eq_true] at unreached
  obtain ⟨pos, flat, slot, hin, live, admitted, unseeded⟩ := unreached
  let seg := spike tree count tombstones slot
  let qry : ProofQuery Bool Unit γ α := spikeQuery
  let tgt := seg.target id qry mask k
  have length : seg.vectors.length = count := by simp [seg, spike]
  have score : ∀ other, tgt.score other = if other = slot ∧ other < count then 1 else 0 := by
    intro other
    simp [tgt, SegmentProofView.target, seg, vector_spike, qry, spikeQuery]
  have fielded : tgt.finalist slot ∈ tgt.field (range tgt.count) := by
    rw [Target.mem_field]
    refine ⟨mem_range.mpr (hin.trans_eq length.symm), ?_, rfl⟩
    simp only [tgt, SegmentProofView.target, SegmentProofView.tombstoned, Bool.and_eq_true,
      Bool.not_eq_true']
    exact ⟨live, admitted⟩
  have ranked : ∀ entry ∈ tgt.ranking, 0 ≤ entry.2 := by
    intro entry mem
    obtain ⟨finalist, kept, rfl⟩ := mem_map.mp mem
    rw [(Target.mem_field.mp (mem_of_mem_best kept)).2.2, score]
    split
    · exact zero_le_one
    · exact le_rfl
  obtain ⟨turns, ends⟩ := keeps Bool Unit qry seg.vectors none length
    (spike_admissible tree count slot) ranked
  obtain ⟨ans, proof, found, guarantee⟩ := ends (turns + 1) (Nat.le_succ turns)
  obtain ⟨opened, considered⟩ := @open_seeded_range _ _ _ _ _ _ seg id qry k seeds mask
  have corpus : corpusSize [seg] ([] : List (NodeIndex × α)) = count := by
    simp [corpusSize, SemanticProofTree.totalVectors, covers.size, seg, spike]
  have finalists : ans = (seeded qry k [seg] [] seeds mask).topk.intoSortedVec := by
    have ran : search (turns + 1) qry k [seg] [] seeds mask epsilon = some (ans, proof) := found
    rw [search, if_neg (by rw [corpus]; omega), resolve_of_not_prunable _ flat] at ran
    exact (congrArg Prod.fst (Option.some.inj ran)).symm
  -- The first of the best scores one, so the first that is returned does not score nothing.
  cases selected : best k (tgt.field (range tgt.count)) with
  | nil =>
    have size := congrArg List.length selected
    rw [length_best, length_nil] at size
    have nonempty := length_pos_of_mem fielded
    omega
  | cons fst rest =>
    have top : 1 ≤ fst.score := by
      have least := Finalist.score_le_of_le (le_of_best_cons selected fielded)
      have own : (tgt.finalist slot).score = 1 := by
        rw [Target.finalist, score, if_pos ⟨rfl, hin⟩]
      exact own ▸ least
    have close : Forall₂ (fun best found : NodeIndex × α => (1 - epsilon) * best.2 ≤ found.2)
        ((fst :: rest).map fun finalist => (finalist.slot, finalist.score)) ans := by
      rw [← selected]
      exact guarantee.close
    cases close with
    | @cons _ entry _ answers here _ =>
      obtain ⟨evaluated, exactly⟩ := evaluated_of_mem_answer opened
        (finalists ▸ mem_cons_self : entry ∈ _)
      have some : 0 < entry.2 := by
        have factor : 0 < 1 - epsilon := sub_pos.mpr small
        exact (mul_pos factor (zero_lt_one.trans_le top)).trans_le here
      have same : entry.1 = slot := by
        by_contra other
        have none : entry.2 = 0 := by
          rw [exactly]
          exact (score entry.1).trans (if_neg fun both => other both.1)
        exact some.ne' none
      exact unseeded (mem_toFinset.mp (considered (same ▸ evaluated)))

/-- The guarantee is kept exactly if every eligible slot is reached: by the tree of a spatially
    prunable segment, or as one of the seeds. -/
theorem keepsGuarantee_iff_reaches (tree : SemanticProofTree γ) (count : Nat)
    (covers : tree.Covers (range count)) (tombstones mask : Option (Finset NodeIndex))
    (seeds : List NodeIndex) (k : Nat) (epsilon : α) (nonneg : 0 ≤ epsilon) (small : epsilon < 1) :
    KeepsGuarantee tree count tombstones mask seeds k epsilon ↔
      Reaches tree count tombstones mask seeds k :=
  ⟨reaches_of_keepsGuarantee small covers, keepsGuarantee_of_reaches nonneg small covers⟩

end

theorem smallTree_keepsGuarantee : (0 : ℝ) ≤ 1 / 2 ∧
      KeepsGuarantee smallSegment.tree 4 (some {3}) none [2] 2 (1 / 2 : ℝ) := by
  have nonneg : (0 : ℝ) ≤ 1 / 2 := one_half_pos.le
  refine ⟨nonneg, ?_⟩
  rw [keepsGuarantee_iff_reaches smallSegment.tree 4 smallSegment_covers _ _ _ _ _ nonneg
    one_half_lt_one]
  exact .inr (.inl rfl)

/-- Eight slots in one leaf, of a geometry that is not spatially prunable. -/
def flatTree : SemanticProofTree Unit where
  nodes := [{ memberLen := 8, envelope := () }]
  leafSlots := [0, 1, 2, 3, 4, 5, 6, 7]
  isSpatiallyPrunable := false

theorem flatTree_covers : flatTree.Covers (range 8) where
  size := rfl
  whole := .of_eq rfl
  divided := ⟨1, .leaf rfl⟩

/-- Without seeds nothing is returned, although one of the eight scores one. -/
theorem flat_segment_is_not_searched :
    (∀ fuel, ∃ proof, search (fuel + 1) (spikeQuery : ProofQuery Bool Unit Unit ℝ) 1
      [spike flatTree 8 none 0] [] [] none 0 = some ([], proof)) ∧
      ((spike flatTree 8 none 0).target id (spikeQuery : ProofQuery Bool Unit Unit ℝ) none
        1).ranking.length = 1 ∧
      ¬ KeepsGuarantee flatTree 8 none none [] 1 (0 : ℝ) := by
  refine ⟨fun fuel => ?_, ?_, fun keeps => ?_⟩
  · exact ⟨_, rfl⟩
  · rw [Target.ranking, Target.rankingOf, length_map, length_best]
    rfl
  · have reaches := reaches_of_keepsGuarantee zero_lt_one flatTree_covers keeps
    simp [Reaches, flatTree, admits] at reaches
    exact absurd (reaches 0) (by decide)

end GlobalPacProofSearch
end HoloSphere.Proof
