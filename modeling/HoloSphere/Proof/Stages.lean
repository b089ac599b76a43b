import HoloSphere.Proof.Accounts

/-! # The stages of a search

What each stage of a search over one segment does to its accounts: the slots a stage is given
are settled by it, and none is settled twice.
-/

namespace HoloSphere.Proof
open List
section
variable {ν κ γ α : Type} [Inhabited ν]

def SegmentProofView.target (seg : SegmentProofView ν κ γ) (relax : α → α)
    (qry : ProofQuery ν κ γ α) (mask : Option (Finset NodeIndex)) (k : Nat) : Target α where
  k := k
  count := seg.vectors.length
  corpusSize := seg.tree.totalVectors
  score slot := qry.score (seg.vector slot)
  eligible slot := !seg.tombstoned slot && admits mask slot
  relax := relax

theorem eligible_eq_false {seg : SegmentProofView ν κ γ} {relax : α → α}
    {qry : ProofQuery ν κ γ α} {mask : Option (Finset NodeIndex)} {k : Nat}
    {slot : NodeIndex} :
    (seg.target relax qry mask k).eligible slot = false ↔
      (seg.tombstoned slot || !admits mask slot) = true := by
  simp [SegmentProofView.target, imp_iff_not_or]

end

section
variable {ν κ γ α : Type} [LinearOrder α] [Inhabited ν] [Inhabited κ] [Inhabited γ] {relax : α → α}
  {qry : ProofQuery ν κ γ α} {mask : Option (Finset NodeIndex)}
  {seg : SegmentProofView ν κ γ} {k : Nat} {prog : Progress α}

/-- Codes are there for all vectors or for none, and no vector scores more than a bound that
    covers it. -/
structure Admissible (qry : ProofQuery ν κ γ α) (seg : SegmentProofView ν κ γ) : Prop where
  coded : ∀ codes, seg.lutzCodes = some codes → codes.length = seg.vectors.length
  region : ∀ idx, ∀ slot ∈ seg.tree.residents idx,
    qry.score (seg.vector slot) ≤ qry.upperBound (seg.tree.node idx).envelope
  codeL0 : ∀ codes, seg.lutzCodes = some codes → ∀ slot < seg.vectors.length,
    qry.score (seg.vector slot) ≤ qry.boundL0 (codes.getD slot default)
  codeL1 : ∀ codes, seg.lutzCodes = some codes → ∀ slot < seg.vectors.length,
    ∀ bound, qry.boundL1 (codes.getD slot default) = some bound →
      qry.score (seg.vector slot) ≤ bound

theorem Target.Settled.cascade (adm : Admissible qry seg) (monotone : Monotone relax)
    (hin : slot < seg.vectors.length)
    (done : (seg.target relax qry mask k).Settled settled prog)
    (fresh : slot ∉ settled)
    (eligible : (seg.target relax qry mask k).eligible slot = true) :
    (seg.target relax qry mask k).Settled (slot :: settled) (cascade relax qry seg prog slot) := by
  unfold Proof.cascade
  cases coded : seg.lutzCodes with
  | none => exact done.scoreExactly fresh eligible
  | some codes =>
    have below := adm.codeL0 codes coded slot hin
    have refined := adm.codeL1 codes coded slot hin
    dsimp only
    split
    · rename_i pruned
      refine (done.note rfl rfl).passCode monotone pruned below rfl rfl ?_ rfl
      exact total_pruneL0 ..
    · split
      · exact (done.note rfl rfl).scoreExactly fresh eligible
      · rename_i bound snd
        split
        · rename_i pruned
          refine ((done.note rfl rfl).note rfl rfl).passCode monotone pruned
            (refined bound snd) rfl rfl ?_ rfl
          exact total_pruneL1 ..
        · exact ((done.note rfl rfl).note rfl rfl).scoreExactly fresh eligible

omit [Inhabited γ] in
theorem evaluatedSlots_cascade (relax : α → α) :
    (cascade relax qry seg prog slot).evaluatedSlots = insert slot prog.evaluatedSlots := by
  unfold cascade
  dsimp only
  repeat' split
  all_goals rfl

variable {slots pending : List NodeIndex}

theorem Target.Open.cascade (adm : Admissible qry seg) (monotone : Monotone relax)
    (opened : (seg.target relax qry mask k).Open slots (slot :: pending) prog)
    (unevaluated : slot ∉ prog.evaluatedSlots)
    (eligible : (seg.target relax qry mask k).eligible slot = true) :
    (seg.target relax qry mask k).Open slots pending (cascade relax qry seg prog slot) := by
  apply opened.settle unevaluated (evaluatedSlots_cascade ..)
  intro settled done fresh hin
  exact done.cascade adm monotone hin fresh eligible

omit [Inhabited κ] [Inhabited γ] in
theorem seedSlot_singleton : seedSlot qry [seg] slot prog = if slot < seg.vectors.length then
        if seg.tombstoned slot then prog.setAside slot
        else
          (prog.scoreExactly slot (qry.score (seg.vector slot))).note fun proof =>
            { proof with riveroSeedExactEvaluations := proof.riveroSeedExactEvaluations + 1 }
      else prog := by
  unfold seedSlot
  by_cases hin : slot < seg.vectors.length <;> simp [hin]

omit [Inhabited κ] [Inhabited γ] in
theorem evaluatedSlots_seedSlot (prog : Progress α) :
    (seedSlot qry [seg] slot prog).evaluatedSlots =
      if slot < seg.vectors.length then insert slot prog.evaluatedSlots
      else prog.evaluatedSlots := by
  rw [seedSlot_singleton]
  split
  · split <;> rfl
  · rfl

omit [Inhabited κ] [Inhabited γ] in
theorem Target.Open.seed (opened : (seg.target relax qry mask k).Open slots pending prog)
    (unevaluated : slot ∉ prog.evaluatedSlots) (admitted : admits mask slot = true)
    (known : slot < seg.vectors.length → slot ∈ pending) :
    (seg.target relax qry mask k).Open slots pending (seedSlot qry [seg] slot prog) := by
  rw [seedSlot_singleton]
  split
  · rename_i hin
    split
    · rename_i dead
      refine opened.settleWithin unevaluated rfl (fun _ done _ _ => done.setAside ?_) (known hin)
      simp [SegmentProofView.target, dead]
    · rename_i alive
      refine Target.Open.note ?_ rfl rfl
      refine opened.settleWithin unevaluated rfl (fun _ done fresh _ =>
        done.scoreExactly fresh ?_) (known hin)
      simp [SegmentProofView.target, alive, admitted]
  · exact opened

omit [Inhabited κ] [Inhabited γ] in
theorem Target.Open.seeds (seeds : List NodeIndex)
    (opened : (seg.target relax qry mask k).Open slots pending prog)
    (held : ∀ slot ∈ seeds, slot < seg.vectors.length → admits mask slot = true →
      slot ∈ pending) (known : prog.evaluatedSlots ⊆ seen) :
    let after := seeds.foldl (seedStage qry [seg] mask) (prog, seen)
    (seg.target relax qry mask k).Open slots pending after.1 ∧
      after.1.evaluatedSlots ⊆ seen ∪ seeds.toFinset := by
  induction seeds generalizing prog seen with
  | nil => exact ⟨opened, by simpa using known⟩
  | cons slot seeds ih =>
    have later := (forall_mem_cons.mp held).2
    rw [foldl_cons, seedStage]
    by_cases taken : (admits mask slot && decide (slot ∉ seen)) = true
    · rw [if_pos taken]
      obtain ⟨admitted, fresh⟩ : admits mask slot = true ∧ slot ∉ seen := by
        simpa using taken
      have counted : (seg.target relax qry mask k).Open slots pending
          (prog.note fun proof =>
            { proof with riveroSeedCandidates := proof.riveroSeedCandidates + 1 }) :=
        opened.note rfl rfl
      have kept : (seedSlot qry [seg] slot (prog.note fun proof =>
          { proof with riveroSeedCandidates := proof.riveroSeedCandidates + 1 })).evaluatedSlots ⊆
            insert slot seen := by
        rw [evaluatedSlots_seedSlot]
        split
        · exact Finset.insert_subset_insert slot known
        · exact known.trans (Finset.subset_insert _ _)
      have next := ih (counted.seed (fun old => fresh (known old)) admitted fun hin =>
        held slot mem_cons_self hin admitted) later kept
      simpa [Finset.insert_union, Finset.union_insert] using next
    · rw [if_neg taken]
      obtain ⟨after, known⟩ := ih opened later known
      refine ⟨after, known.trans (Finset.union_subset_union_right ?_)⟩
      simp

theorem Target.Open.sieve (adm : Admissible qry seg)
    (opened : (seg.target id qry mask k).Open slots (scanned ++ pending) prog) :
    (seg.target id qry mask k).Open slots pending
      (scanned.foldl (sieveSlot qry mask seg) prog) := by
  induction scanned generalizing prog with
  | nil => exact opened
  | cons slot scanned ih =>
    apply ih
    unfold sieveSlot
    split
    · rename_i evaluated
      exact Target.Open.evaluated opened evaluated
    · rename_i unevaluated
      split
      · rename_i excluded
        exact opened.setAside unevaluated (eligible_eq_false.mpr excluded)
      · rename_i included
        apply opened.cascade adm monotone_id unevaluated
        rwa [← eligible_eq_false, Bool.not_eq_false] at included

omit [Inhabited κ] [Inhabited γ] in
theorem Target.Open.gather (mems : List NodeIndex)
    (opened : (seg.target relax qry mask k).Open slots (mems ++ (candidates ++ pending)) prog)
    (eligible : ∀ slot ∈ candidates, slot ∉ prog.evaluatedSlots ∧
      (seg.target relax qry mask k).eligible slot = true) :
    let gathered := mems.foldl (gather mask seg) (prog, candidates)
    (seg.target relax qry mask k).Open slots (gathered.2 ++ pending) gathered.1 ∧
      ∀ slot ∈ gathered.2, slot ∉ gathered.1.evaluatedSlots ∧
        (seg.target relax qry mask k).eligible slot = true := by
  induction mems generalizing prog candidates with
  | nil => exact ⟨opened, eligible⟩
  | cons slot mems ih =>
    rw [foldl_cons, Proof.gather]
    split
    · rename_i evaluated
      exact ih (Target.Open.evaluated opened evaluated) eligible
    · rename_i unevaluated
      by_cases excluded : (seg.tombstoned slot || !admits mask slot) = true
      · have ineligible : (seg.target relax qry mask k).eligible slot = false :=
          eligible_eq_false.mpr excluded
        rw [if_pos excluded]
        refine ih (opened.setAside unevaluated ineligible) fun other mem => ?_
        obtain ⟨fresh, admitted⟩ := eligible other mem
        refine ⟨?_, admitted⟩
        simp only [Progress.setAside, Finset.mem_insert, not_or]
        refine ⟨?_, fresh⟩
        rintro rfl
        simp [ineligible] at admitted
      · rw [if_neg excluded]
        rw [← @eligible_eq_false _ _ _ _ _ _ relax qry _ k, Bool.not_eq_false] at excluded
        apply ih
        · apply opened.perm
          simpa using (@perm_middle _ slot (mems ++ candidates) pending).symm
        · intro other mem
          rcases mem_append.mp mem with old | new
          · exact eligible other old
          · rw [mem_singleton.mp new]
            exact ⟨unevaluated, excluded⟩

omit [Inhabited ν] [Inhabited γ] in
theorem schedule_perm (qry : ProofQuery ν κ γ α) (seg : SegmentProofView ν κ γ)
    (candidates : List NodeIndex) : (schedule qry seg candidates).Perm candidates := by
  unfold schedule
  split
  · exact .refl _
  · exact perm_insertionSort _ _

theorem Target.Open.cascades (adm : Admissible qry seg) (monotone : Monotone relax)
    (change : DenseExactProof α → DenseExactProof α)
    (total : ∀ proof, (change proof).total = proof.total)
    (corpus : ∀ proof, (change proof).corpusSize = proof.corpusSize)
    (opened : (seg.target relax qry mask k).Open slots (mems ++ pending) prog)
    (eligible : ∀ slot ∈ mems, slot ∉ prog.evaluatedSlots ∧
      (seg.target relax qry mask k).eligible slot = true) :
    (seg.target relax qry mask k).Open slots pending
      (mems.foldl (fun prog slot => Proof.cascade relax qry seg (prog.note change)
        slot) prog) := by
  induction mems generalizing prog with
  | nil => exact opened
  | cons slot mems ih =>
    obtain ⟨fresh, admitted⟩ := eligible slot mem_cons_self
    have apart : slot ∉ mems := by
      have uniq := opened.nodup
      rw [cons_append, filter_cons_of_pos (by simpa using fresh)] at uniq
      intro again
      exact (nodup_cons.mp uniq).1 (by simp [again, fresh])
    apply ih
    · exact (opened.note (total _) (corpus _)).cascade adm monotone fresh admitted
    · intro other mem
      obtain ⟨unevaluated, admitted⟩ := eligible other (mem_cons_of_mem _ mem)
      refine ⟨?_, admitted⟩
      rw [evaluatedSlots_cascade, Finset.mem_insert, not_or]
      refine ⟨?_, unevaluated⟩
      rintro rfl
      exact apart mem

theorem Target.Open.exploreLeaf (adm : Admissible qry seg) (monotone : Monotone relax)
    (mems : List NodeIndex)
    (opened : (seg.target relax qry mask k).Open slots (mems ++ pending) prog) :
    (seg.target relax qry mask k).Open slots pending
      (exploreLeaf relax qry mask seg mems prog) := by
  obtain ⟨gathered, eligible⟩ := @Target.Open.gather _ _ _ _ _ _ relax qry mask seg k
    prog slots pending [] mems opened (by simp)
  have order := schedule_perm qry seg (mems.foldl (Proof.gather mask seg) (prog, [])).2
  apply (gathered.perm (order.symm.append_right pending)).cascades adm monotone
  · exact fun _ => rfl
  · exact fun _ => rfl
  · exact fun slot mem => eligible slot (order.mem_iff.mp mem)

end
end HoloSphere.Proof
