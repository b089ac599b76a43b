import HoloSphere.Proof.Search

/-! # The accounts of a search

However a search proceeds, each slot it is done with has been scored, set aside because it is
filtered or dead, or passed over because `k` better ones are known.  The counters of the
certificate count these slots, and the accumulator holds the best of those scored.
-/

namespace HoloSphere.Proof
open Store List DenseExactProof
section
variable {α : Type} [LinearOrder α]

/-- There are `k` finalists with a higher score. -/
def Beaten (k : Nat) (offered : List (Finalist α)) (val : α) : Prop :=
  (best k offered).length = k ∧ ∀ kept ∈ best k offered, val < kept.score

theorem Beaten.offer (beaten : Beaten k offered val) (next : Finalist α) :
    Beaten k (next :: offered) val := by
  refine ⟨?_, fun kept mem => ?_⟩
  · have enough := beaten.1
    simp only [length_best, length_cons] at enough ⊢
    omega
  · obtain ⟨before, among, order⟩ := exists_le_of_mem_best_cons beaten.1 mem
    exact (beaten.2 before among).trans_le (Finalist.score_le_of_le order)

end

section
variable {α : Type} [LinearOrder α] (slot : NodeIndex) (score : α) (prog : Progress α)

theorem total_scoreExactly : (prog.scoreExactly slot score).proof.total = prog.proof.total + 1 := by
  simp only [Progress.scoreExactly, total]
  omega

theorem total_pruneL0 : (prog.pruneL0 slot).proof.total = prog.proof.total + 1 := by
  simp only [Progress.pruneL0, total]
  omega

theorem total_pruneL1 : (prog.pruneL1 slot).proof.total = prog.proof.total + 1 := by
  simp only [Progress.pruneL1, total]
  omega

theorem total_pruneRegion : (prog.pruneRegion mems).proof.total = prog.proof.total +
      (mems.filter fun slot => slot ∉ prog.evaluatedSlots).length := by
  simp only [Progress.pruneRegion, total]
  omega

end

/-- What a search is after: the best `k` of the eligible slots below `count`, with a certificate
    for `corpusSize` vectors.  Scores are relaxed before a slot is passed over. -/
structure Target (α : Type) where
  k : Nat
  count : Nat
  corpusSize : Nat
  score : NodeIndex → α
  eligible : NodeIndex → Bool
  relax : α → α

namespace Target
variable {α : Type} [LinearOrder α] (tgt : Target α)

def finalist (slot : NodeIndex) : Finalist α := ⟨slot, tgt.score slot⟩

/-- The slots that a search is done with, by what became of them. -/
structure Ledger (scored passed aside : List NodeIndex) (prog : Progress α) : Prop where
  holds : prog.topk.Holds tgt.k (scored.map tgt.finalist)
  eligible : ∀ slot ∈ scored, tgt.eligible slot = true
  ineligible : ∀ slot ∈ aside, tgt.eligible slot = false
  beaten : ∀ slot ∈ passed, tgt.eligible slot = true →
    Beaten tgt.k (scored.map tgt.finalist) (tgt.relax (tgt.score slot))
  marked : ∀ slot ∈ scored, slot ∈ prog.evaluatedSlots
  evaluated : ∀ slot ∈ prog.evaluatedSlots, slot ∈ scored ++ passed ++ aside
  total : prog.proof.total = (scored ++ passed ++ aside).length
  corpus : prog.proof.corpusSize = tgt.corpusSize

/-- The search is done with these slots. -/
def Settled (settled : List NodeIndex) (prog : Progress α) : Prop :=
  ∃ scored passed aside, tgt.Ledger scored passed aside prog ∧
    settled.Perm (scored ++ passed ++ aside)

variable {tgt} {prog : Progress α}

theorem Settled.perm {others : List NodeIndex} (done : tgt.Settled settled prog)
    (same : others.Perm settled) : tgt.Settled others prog := by
  obtain ⟨scored, passed, aside, ledger, whole⟩ := done
  exact ⟨scored, passed, aside, ledger, same.trans whole⟩

theorem Settled.note (done : tgt.Settled settled prog)
    (total : (change prog.proof).total = prog.proof.total)
    (corpus : (change prog.proof).corpusSize = prog.proof.corpusSize) :
    tgt.Settled settled (prog.note change) := by
  obtain ⟨scored, passed, aside, ledger, whole⟩ := done
  exact ⟨scored, passed, aside,
    { ledger with total := total.trans ledger.total, corpus := corpus.trans ledger.corpus }, whole⟩

theorem settled_new (corpusSize : tgt.corpusSize = prog.proof.corpusSize)
    (topk : prog.topk = .new tgt.k) (evaluated : prog.evaluatedSlots = ∅)
    (total : prog.proof.total = 0) : tgt.Settled [] prog := by
  refine ⟨[], [], [], ⟨?_, ?_, ?_, ?_, ?_, ?_, total, corpusSize.symm⟩, .refl _⟩
  · rw [topk]
    exact TopKAccumulator.holds_new tgt.k
  · simp
  · simp
  · simp
  · simp
  · simp [evaluated]

theorem mem_insert_cons {slots : Finset NodeIndex} {others : List NodeIndex}
    (known : ∀ other ∈ slots, other ∈ others) :
    ∀ other ∈ insert slot slots, other ∈ slot :: others := by
  intro other mem
  rcases Finset.mem_insert.mp mem with rfl | old
  · exact mem_cons_self
  · exact mem_cons_of_mem _ (known other old)

theorem Settled.scoreExactly (done : tgt.Settled settled prog) (fresh : slot ∉ settled)
    (elig : tgt.eligible slot = true) :
    tgt.Settled (slot :: settled) (prog.scoreExactly slot (tgt.score slot)) := by
  obtain ⟨scored, passed, aside, ledger, whole⟩ := done
  rw [whole.mem_iff] at fresh
  refine ⟨slot :: scored, passed, aside, ?_, whole.cons slot⟩
  exact {
    holds := ledger.holds.offer _ fun finalist mem => by
      obtain ⟨other, among, rfl⟩ := mem_map.mp mem
      rintro rfl
      exact fresh (by simp [among, finalist])
    eligible := forall_mem_cons.mpr ⟨elig, ledger.eligible⟩
    ineligible := ledger.ineligible
    beaten := fun other mem admitted => (ledger.beaten other mem admitted).offer _
    marked := forall_mem_cons.mpr ⟨Finset.mem_insert_self _ _,
      fun other mem => Finset.mem_insert_of_mem (ledger.marked other mem)⟩
    evaluated := mem_insert_cons ledger.evaluated
    total := by
      rw [total_scoreExactly, ledger.total]
      rfl
    corpus := ledger.corpus }

theorem Settled.setAside (done : tgt.Settled settled prog)
    (ineligible : tgt.eligible slot = false) :
    tgt.Settled (slot :: settled) (prog.setAside slot) := by
  obtain ⟨scored, passed, aside, ledger, whole⟩ := done
  have moved : (slot :: (scored ++ passed ++ aside)).Perm (scored ++ passed ++ slot :: aside) :=
    perm_middle.symm
  refine ⟨scored, passed, slot :: aside, ?_, (whole.cons slot).trans moved⟩
  exact { ledger with
    ineligible := forall_mem_cons.mpr ⟨ineligible, ledger.ineligible⟩
    marked := fun other mem => Finset.mem_insert_of_mem (ledger.marked other mem)
    evaluated := fun other mem =>
      moved.mem_iff.mp (mem_insert_cons ledger.evaluated other mem)
    total := by
      have before := ledger.total
      rw [← moved.length_eq, length_cons, ← before]
      rfl }

variable {after : Progress α}

/-- Slots that a bound rules out, whether they are marked as evaluated or not. -/
theorem Settled.pass (done : tgt.Settled settled prog) (others : List NodeIndex)
    (beaten : ∀ slot ∈ others, tgt.eligible slot = true → ∀ offered, prog.topk.Holds tgt.k offered →
        Beaten tgt.k offered (tgt.relax (tgt.score slot))) (topk : after.topk = prog.topk)
    (kept : prog.evaluatedSlots ⊆ after.evaluatedSlots)
    (evaluated : ∀ slot ∈ after.evaluatedSlots, slot ∈ prog.evaluatedSlots ∨ slot ∈ others)
    (total : after.proof.total = prog.proof.total + others.length)
    (corpus : after.proof.corpusSize = prog.proof.corpusSize) :
    tgt.Settled (others ++ settled) after := by
  obtain ⟨scored, passed, aside, ledger, whole⟩ := done
  have moved : (others ++ (scored ++ passed ++ aside)).Perm
      (scored ++ (others ++ passed) ++ aside) := by
    rw [append_assoc scored, append_assoc scored, append_assoc others]
    exact perm_append_comm_assoc others scored (passed ++ aside)
  refine ⟨scored, others ++ passed, aside, ?_, (whole.append_left others).trans moved⟩
  exact {
    holds := topk ▸ ledger.holds
    eligible := ledger.eligible
    ineligible := ledger.ineligible
    beaten := fun slot mem admitted => by
      rcases mem_append.mp mem with now | before
      · exact beaten slot now admitted _ ledger.holds
      · exact ledger.beaten slot before admitted
    marked := fun slot mem => kept (ledger.marked slot mem)
    evaluated := fun slot mem => by
      rw [← moved.mem_iff, mem_append]
      exact (evaluated slot mem).symm.imp id (ledger.evaluated slot)
    total := by
      rw [total, ledger.total, ← moved.length_eq]
      simp only [length_append]
      omega
    corpus := corpus.trans ledger.corpus }

theorem beaten_of_prunes (monotone : Monotone tgt.relax) {bound : WithBot α}
    (pruned : prog.topk.prunes (bound.map tgt.relax) = true)
    (adm : tgt.score slot ≤ bound) (offered : List (Finalist α))
    (holds : prog.topk.Holds tgt.k offered) :
    Beaten tgt.k offered (tgt.relax (tgt.score slot)) := by
  obtain ⟨full, below⟩ := holds.of_prunes pruned
  refine ⟨full, fun kept mem => WithBot.coe_lt_coe.mp ?_⟩
  exact (monotone.withBot_map adm).trans_lt (below kept mem)

theorem Settled.passCode (done : tgt.Settled settled prog) (monotone : Monotone tgt.relax)
    (pruned : prog.topk.prunes (tgt.relax bound : α) = true)
    (adm : tgt.score slot ≤ bound)
    (topk : after.topk = prog.topk)
    (evaluated : after.evaluatedSlots = insert slot prog.evaluatedSlots)
    (total : after.proof.total = prog.proof.total + 1)
    (corpus : after.proof.corpusSize = prog.proof.corpusSize) :
    tgt.Settled (slot :: settled) after := by
  refine done.pass [slot] ?_ topk (evaluated ▸ Finset.subset_insert _ _) ?_ total corpus
  · simp only [mem_singleton, forall_eq]
    have relaxed : prog.topk.prunes ((bound : WithBot α).map tgt.relax) = true := pruned
    exact fun _ => beaten_of_prunes monotone relaxed (WithBot.coe_le_coe.mpr adm)
  · intro other mem
    rw [evaluated, Finset.mem_insert] at mem
    exact mem.symm.imp id fun same => mem_singleton.mpr same

/-- Of the slots that a search is to settle, those that are not settled yet are pending and not
    evaluated. -/
structure Open (tgt : Target α) (slots pending : List NodeIndex) (prog : Progress α) : Prop where
  distinct : slots.Nodup
  inside : ∀ slot ∈ slots, slot < tgt.count
  shares : ∃ settled, tgt.Settled settled prog ∧
    (settled ++ pending.filter fun slot => slot ∉ prog.evaluatedSlots).Perm slots

theorem Open.perm (opened : tgt.Open slots pending prog) (same : pending.Perm others) :
    tgt.Open slots others prog := by
  obtain ⟨uniq, hin, settled, done, whole⟩ := opened
  exact ⟨uniq, hin, settled, done, ((same.filter _).symm.append_left settled).trans whole⟩

theorem Open.nodup (opened : tgt.Open slots pending prog) :
    (pending.filter fun slot => slot ∉ prog.evaluatedSlots).Nodup := by
  obtain ⟨uniq, -, settled, -, whole⟩ := opened
  exact (nodup_append.mp (whole.nodup_iff.mpr uniq)).2.1

theorem Open.note (opened : tgt.Open slots pending prog)
    (total : (change prog.proof).total = prog.proof.total)
    (corpus : (change prog.proof).corpusSize = prog.proof.corpusSize) :
    tgt.Open slots pending (prog.note change) := by
  obtain ⟨uniq, hin, settled, done, whole⟩ := opened
  exact ⟨uniq, hin, settled, done.note total corpus, whole⟩

theorem Open.evaluated (opened : tgt.Open slots (slot :: pending) prog)
    (evaluated : slot ∈ prog.evaluatedSlots) : tgt.Open slots pending prog := by
  obtain ⟨uniq, hin, settled, done, whole⟩ := opened
  rw [filter_cons_of_neg (by simpa using evaluated)] at whole
  exact ⟨uniq, hin, settled, done, whole⟩

section
variable {after : Progress α} (unevaluated : slot ∉ prog.evaluatedSlots)
  (evaluated : after.evaluatedSlots = insert slot prog.evaluatedSlots)
  (settles : ∀ settled, tgt.Settled settled prog → slot ∉ settled → slot < tgt.count →
    tgt.Settled (slot :: settled) after)

include unevaluated evaluated settles

theorem Open.settle (opened : tgt.Open slots (slot :: pending) prog) :
    tgt.Open slots pending after := by
  obtain ⟨uniq, hin, settled, done, whole⟩ := opened
  rw [filter_cons_of_pos (by simpa using unevaluated)] at whole
  have moved := perm_middle.symm.trans whole
  have apart := nodup_cons.mp (moved.nodup_iff.mpr uniq)
  have within : slot < tgt.count := hin slot (moved.mem_iff.mp mem_cons_self)
  refine ⟨uniq, hin, slot :: settled,
    settles settled done (fun old => apart.1 (by simp [old])) within, ?_⟩
  have same : (pending.filter fun other => other ∉ after.evaluatedSlots) =
      pending.filter fun other => other ∉ prog.evaluatedSlots := by
    apply filter_congr
    intro other mem
    have uniq : other = slot → other ∈ prog.evaluatedSlots := by
      rintro rfl
      by_contra fresh
      exact apart.1 (by simp [mem, fresh])
    simp only [evaluated, Finset.mem_insert, not_or, decide_eq_decide, and_iff_right_iff_imp]
    exact fun fresh same => fresh (uniq same)
  rw [same]
  exact moved

theorem Open.settleWithin (opened : tgt.Open slots pending prog) (mem : slot ∈ pending) :
    tgt.Open slots pending after := by
  have order := perm_cons_erase mem
  obtain ⟨uniq, hin, settled, done, whole⟩ :=
    (opened.perm order).settle unevaluated evaluated settles
  refine Open.perm ⟨uniq, hin, settled, done, ?_⟩ order.symm
  rwa [filter_cons_of_neg (by simp [evaluated])]

end

theorem Open.setAside (opened : tgt.Open slots (slot :: pending) prog)
    (unevaluated : slot ∉ prog.evaluatedSlots) (excluded : tgt.eligible slot = false) :
    tgt.Open slots pending (prog.setAside slot) :=
  opened.settle unevaluated rfl fun _ done _ _ => done.setAside excluded

theorem Open.pruneRegion (opened : tgt.Open slots (others ++ pending) prog)
    (monotone : Monotone tgt.relax) {bound : WithBot α}
    (pruned : prog.topk.prunes (bound.map tgt.relax) = true)
    (adm : ∀ slot ∈ others, tgt.score slot ≤ bound) :
    tgt.Open slots pending (prog.pruneRegion others) := by
  obtain ⟨uniq, hin, settled, done, whole⟩ := opened
  refine ⟨uniq, hin, _, done.pass (others.filter fun slot => slot ∉ prog.evaluatedSlots) ?_ rfl
      (Finset.Subset.refl _) (fun _ => .inl) (total_pruneRegion ..) rfl, ?_⟩
  · intro slot mem _
    exact beaten_of_prunes monotone pruned (adm slot (mem_of_mem_filter mem))
  · rw [filter_append] at whole
    rw [append_assoc]
    exact (perm_append_comm_assoc ..).trans whole

/-- Nothing is pending at the end. -/
theorem Open.finished (opened : tgt.Open slots [] prog) : tgt.Settled slots prog := by
  obtain ⟨-, -, settled, done, whole⟩ := opened
  exact done.perm (by simpa using whole.symm)

end Target
end HoloSphere.Proof
