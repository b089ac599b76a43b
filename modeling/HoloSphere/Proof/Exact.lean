import HoloSphere.Proof.Frontier

/-! # Exactness of the proof search

Over one segment whose tree covers its vectors, and with bounds that hold, the search returns
the best `k` of the eligible slots, ties going to the smaller slot, and its certificate accounts
for every vector once.
-/

namespace HoloSphere.Proof
open Store SemanticProofTree List
namespace Target
variable {α : Type} (tgt : Target α)

/-- The eligible ones of some slots as finalists. -/
def field (slots : List NodeIndex) : List (Finalist α) :=
  (slots.filter tgt.eligible).map tgt.finalist

variable {tgt} in
theorem mem_field {slots : List NodeIndex} {finalist : Finalist α} :
    finalist ∈ tgt.field slots ↔ finalist.slot ∈ slots ∧
      tgt.eligible finalist.slot = true ∧ finalist.score = tgt.score finalist.slot := by
  simp only [field, mem_map, mem_filter, Target.finalist]
  constructor
  · rintro ⟨slot, ⟨hin, elig⟩, rfl⟩
    exact ⟨hin, elig, rfl⟩
  · rintro ⟨hin, elig, score⟩
    exact ⟨finalist.slot, ⟨hin, elig⟩, by rw [← score]⟩

theorem nodup_field {slots : List NodeIndex} (uniq : slots.Nodup) :
    ((tgt.field slots).map Finalist.slot).Nodup := by
  rw [field, map_map]
  exact (uniq.filter _).map fun _ _ same => same

variable [LinearOrder α]

/-- The best `k` of some slots, by descending score and ascending slot. -/
def rankingOf (slots : List NodeIndex) : List (NodeIndex × α) :=
  (best tgt.k (tgt.field slots)).map fun finalist => (finalist.slot, finalist.score)

/-- The best `k` eligible slots. -/
def ranking : List (NodeIndex × α) := tgt.rankingOf (range tgt.count)

variable {tgt}

theorem rankingOf_of_perm (same : (slots.filter tgt.eligible).Perm others) :
    tgt.rankingOf slots = (best tgt.k (others.map tgt.finalist)).map fun finalist =>
      (finalist.slot, finalist.score) := by
  rw [rankingOf, field, best_perm (same.map tgt.finalist)]

/-- If what is still pending is not eligible, the field is what was scored and what was passed
    over. -/
theorem Open.field_perm (opened : tgt.Open slots pending prog)
    (rest : ∀ slot ∈ pending, slot ∉ prog.evaluatedSlots → tgt.eligible slot = false) :
    ∃ scored passed : List NodeIndex, prog.topk.Holds tgt.k (scored.map tgt.finalist) ∧
      (∀ slot ∈ scored, slot ∈ prog.evaluatedSlots) ∧
      (∀ slot ∈ passed, Beaten tgt.k (scored.map tgt.finalist) (tgt.relax (tgt.score slot))) ∧
      (tgt.field slots).Perm (passed.map tgt.finalist ++ scored.map tgt.finalist) := by
  obtain ⟨-, -, settled, ⟨scored, passed, aside, ledger, parts⟩, whole⟩ := opened
  refine ⟨scored, passed.filter tgt.eligible, ledger.holds, ledger.marked, ?_, ?_⟩
  · intro slot mem
    obtain ⟨among, elig⟩ := mem_filter.mp mem
    exact ledger.beaten slot among elig
  · rw [← map_append]
    apply List.Perm.map
    have all : scored.filter tgt.eligible = scored := filter_eq_self.mpr ledger.eligible
    have none : aside.filter tgt.eligible = [] := by
      rw [filter_eq_nil_iff]
      exact fun slot mem => by simp [ledger.ineligible slot mem]
    have left : (pending.filter fun slot => slot ∉ prog.evaluatedSlots).filter
        tgt.eligible = [] := by
      rw [filter_eq_nil_iff]
      intro slot mem
      obtain ⟨among, fresh⟩ := mem_filter.mp mem
      simp [rest slot among (by simpa using fresh)]
    have shares := (whole.symm.trans (parts.append_right _)).filter tgt.eligible
    rw [filter_append, filter_append, filter_append, all, none, left,
      append_nil, append_nil] at shares
    exact shares.trans perm_append_comm

/-- Without relaxation nothing that was passed over belongs to the best. -/
theorem Open.best_field (opened : tgt.Open slots [] prog) (strict : tgt.relax = id) :
    prog.topk.Holds tgt.k (tgt.field slots) := by
  obtain ⟨scored, passed, holds, -, beaten, parts⟩ := opened.field_perm (by simp)
  refine ⟨holds.limit, holds.items.trans ?_⟩
  rw [best_perm parts]
  cases passed with
  | nil => rfl
  | cons slot passed =>
    symm
    apply best_append_of_later (beaten slot mem_cons_self).1
    intro kept mem other among
    obtain ⟨slot, rank, rfl⟩ := mem_map.mp among
    have higher := (beaten slot rank).2 kept mem
    rw [strict] at higher
    exact Finalist.lt_iff.mpr (.inl higher)

theorem Settled.accounting (done : tgt.Settled slots prog) (size : slots.length = tgt.corpusSize) :
    prog.proof.total = prog.proof.corpusSize := by
  obtain ⟨scored, passed, aside, ledger, whole⟩ := done
  rw [ledger.total, ledger.corpus, ← whole.length_eq, size]

end Target

section
variable {ν κ γ α : Type} [LinearOrder α] [Inhabited ν] [Inhabited κ] [Inhabited γ]
  {seg : SegmentProofView ν κ γ}

/-- A number of members is stored in 32 bits. -/
theorem SemanticProofTree.Covers.fits {tree : SemanticProofTree γ} (covers : tree.Covers slots) :
    slots.length < 2 ^ 32 := by
  rw [← covers.whole.length_eq]
  exact (length_take_le _ _).trans_lt (tree.node tree.root).memberLen.toNat_lt

theorem SemanticProofTree.Covers.nodes_ne_nil {tree : SemanticProofTree γ}
    (covers : tree.Covers slots) (nonempty : slots ≠ []) : tree.nodes ≠ [] := by
  intro none
  have whole := covers.whole
  rw [residents_of_empty none] at whole
  exact nonempty whole.symm.eq_nil

omit [Inhabited κ] [Inhabited γ] in
theorem open_seeded (relax : α → α) (qry : ProofQuery ν κ γ α) (k : Nat)
    (mask : Option (Finset NodeIndex)) (uniq : slots.Nodup)
    (hin : ∀ slot ∈ slots, slot < seg.vectors.length)
    (held : ∀ seed ∈ seeds, seed < seg.vectors.length → admits mask seed = true → seed ∈ slots) :
    (seg.target relax qry mask k).Open slots slots (seeded qry k [seg] [] seeds mask) ∧
      (seeded qry k [seg] [] seeds mask).evaluatedSlots ⊆
        (seeds.take (max 128 (k * 2))).toFinset := by
  let start : Progress α := ⟨.new k, ∅, { corpusSize := seg.tree.totalVectors }⟩
  have fresh : (seg.target relax qry mask k).Open slots slots start :=
    ⟨uniq, hin, [], Target.settled_new rfl rfl rfl rfl, by simp [start]⟩
  have counted : (seg.target relax qry mask k).Open slots slots
      (start.note fun proof => { proof with riveroRawCandidates := seeds.length }) :=
    fresh.note rfl rfl
  have after := counted.seeds (seeds.take (max 128 (k * 2)))
    (fun seed mem => held seed (mem_of_mem_take mem)) (Finset.Subset.refl ∅)
  simpa [seeded, corpusSize, start] using after

omit [Inhabited κ] [Inhabited γ] in
/-- If all slots that have a vector are to be settled, any seeds will do. -/
theorem open_seeded_range (relax : α → α) (qry : ProofQuery ν κ γ α) (k : Nat)
    (seeds : List NodeIndex) (mask : Option (Finset NodeIndex)) :
    (seg.target relax qry mask k).Open (range seg.vectors.length)
        (range seg.vectors.length) (seeded qry k [seg] [] seeds mask) ∧
      (seeded qry k [seg] [] seeds mask).evaluatedSlots ⊆ (seeds.take (max 128 (k * 2))).toFinset :=
  open_seeded relax qry k mask nodup_range (fun _ => mem_range.mp)
    fun _ _ hin _ => mem_range.mpr hin

/-- From all slots pending, or none if the segment is not spatially prunable, to the end. -/
theorem resolve_settles (adm : Admissible qry seg) (monotone : Monotone relax)
    (covers : seg.tree.Covers held) (nonempty : held ≠ [])
    (opened : (seg.target relax qry mask k).Open slots pending prog)
    (left : pending = if seg.tree.isSpatiallyPrunable then held else []) :
    ∃ turns, ∀ fuel, turns ≤ fuel → ∃ last : Progress α,
      (seg.target relax qry mask k).Open slots [] last ∧
      resolve relax globallyExact fuel qry [seg] mask prog = some (last.topk.intoSortedVec,
          { last.proof with
            kthScore := some last.topk.kthScore
            globallyExact := globallyExact }) := by
  obtain ⟨size, divided⟩ := covers.divided
  refine ⟨seg.tree.weight seg.tree.root + 1, fun fuel enough => ?_⟩
  have started : ∃ st : Exploration α, rootStage relax qry [seg] ⟨.empty, prog⟩ 0 = st ∧
        Exploring relax qry mask k seg slots [] st ∧ st.weight seg < fuel := by
    have nodes : seg.tree.nodes.isEmpty = false := by
      simpa using covers.nodes_ne_nil nonempty
    refine ⟨_, rfl, ?_⟩
    unfold rootStage
    simp only [getD_cons_zero, nodes, Bool.or_false, Bool.not_eq_true']
    cases prunable : seg.tree.isSpatiallyPrunable with
    | false =>
      rw [prunable] at left
      simp only [if_true]
      refine ⟨⟨?_, by simp⟩, ?_⟩
      · simpa [left, Exploration.waiting] using opened
      · simp only [Exploration.weight, BinaryHeap.items_empty, map_nil, sum_nil]
        omega
    | true =>
      rw [prunable, if_pos rfl] at left
      have whole : Exploring relax qry mask k seg slots
          (seg.tree.residents seg.tree.root ++ []) ⟨.empty, prog⟩ := by
        refine ⟨?_, by simp⟩
        simpa [left, Exploration.waiting] using opened.perm (left ▸ covers.whole.symm)
      obtain ⟨exploring, light⟩ := whole.admitRegion adm monotone divided
      refine ⟨exploring, light.trans_lt ?_⟩
      simp only [Exploration.weight, BinaryHeap.items_empty, map_nil, sum_nil]
      omega
  obtain ⟨st, stage, exploring, light⟩ := started
  obtain ⟨last, ended, settled⟩ := exploring.explore adm monotone light
  refine ⟨last, settled, ?_⟩
  simp [resolve, stage, ended]

namespace GlobalExactProofSearch

/-- The slots that a search answers for: those of the tree, or all that have a vector if it is
    not spatially prunable. -/
def reach (seg : SegmentProofView ν κ γ) (held : List NodeIndex) : List NodeIndex :=
  if seg.tree.isSpatiallyPrunable then held else range seg.vectors.length

theorem search_ranks (qry : ProofQuery ν κ γ α) (seg : SegmentProofView ν κ γ)
    (seeds : List NodeIndex) (mask : Option (Finset NodeIndex)) (pos : 0 < k)
    (adm : Admissible qry seg) (fits : seg.vectors.length < 2 ^ 32)
    (nonempty : held ≠ []) (uniq : held.Nodup)
    (hin : ∀ slot ∈ held, slot < seg.vectors.length) (covers : seg.tree.Covers held)
    (seeded : ∀ seed ∈ seeds, seed < seg.vectors.length → admits mask seed = true →
      seed ∈ reach seg held) :
    ∃ turns, ∀ fuel, turns ≤ fuel → ∃ proof, search fuel qry k [seg] [] seeds mask =
        some ((seg.target id qry mask k).rankingOf (reach seg held), proof) ∧
      proof.globallyExact = true ∧
      ((reach seg held).length = seg.tree.totalVectors → proof.isAccountingExact = true) := by
  have reached : (reach seg held).Nodup ∧ ∀ slot ∈ reach seg held, slot < seg.vectors.length := by
    unfold reach
    split
    · exact ⟨uniq, hin⟩
    · exact ⟨nodup_range, fun slot => mem_range.mp⟩
  have opened := (open_seeded id qry k mask reached.1 reached.2 seeded).1
  have sieved : (seg.target id qry mask k).Open (reach seg held)
      (if seg.tree.isSpatiallyPrunable then held else [])
      ([seg].foldl (sieveStage qry mask)
        (Proof.seeded qry k [seg] [] seeds mask)) := by
    simp only [foldl_cons, foldl_nil, sieveStage]
    cases prunable : seg.tree.isSpatiallyPrunable with
    | true =>
      simp only [reach, prunable, if_true] at opened ⊢
      exact opened
    | false =>
      simp only [reach, prunable, Bool.false_eq_true, if_false, Nat.mod_eq_of_lt fits] at opened ⊢
      apply Target.Open.sieve adm
      rw [append_nil]
      apply opened.note
      · rfl
      · rfl
  obtain ⟨turns, ends⟩ := resolve_settles adm monotone_id covers nonempty sieved rfl
  refine ⟨turns, fun fuel enough => ?_⟩
  obtain ⟨last, settled, resolved⟩ := ends fuel enough
  have ranked := (settled.best_field rfl).intoSortedVec
  refine ⟨{ last.proof with kthScore := some last.topk.kthScore, globallyExact := true }, ?_, rfl,
    fun size => decide_eq_true (settled.finished.accounting size)⟩
  have corpus : 0 < corpusSize [seg] ([] : List (NodeIndex × α)) := by
    simp [corpusSize, SemanticProofTree.totalVectors, covers.size, length_pos_iff.mpr nonempty]
  rw [search, if_neg (by omega), resolved, ranked]
  rfl

/-- The search returns, and returns the best `k` eligible slots, with a certificate that is
    marked exact and adds up. -/
theorem search_exact (qry : ProofQuery ν κ γ α) (seg : SegmentProofView ν κ γ)
    (seeds : List NodeIndex) (mask : Option (Finset NodeIndex)) (k : Nat) (pos : 0 < k)
    (nonempty : 0 < seg.vectors.length)
    (covers : seg.tree.Covers (range seg.vectors.length))
    (adm : Admissible qry seg) :
    ∃ turns, ∀ fuel, turns ≤ fuel → ∃ proof, search fuel qry k [seg] [] seeds mask =
        some ((seg.target id qry mask k).ranking, proof) ∧
      proof.globallyExact = true ∧ proof.isAccountingExact = true := by
  have all : reach seg (range seg.vectors.length) = range seg.vectors.length := ite_self _
  have fits := covers.fits
  rw [length_range] at fits
  obtain ⟨turns, ends⟩ := search_ranks qry seg seeds mask pos adm fits
    (by simpa using nonempty.ne') nodup_range (fun slot => mem_range.mp) covers
    (fun seed _ hin _ => by simpa [all] using mem_range.mpr hin)
  refine ⟨turns, fun fuel enough => ?_⟩
  obtain ⟨proof, returned, exact, adds⟩ := ends fuel enough
  rw [all] at returned adds
  exact ⟨proof, returned, exact, adds covers.size.symm⟩

end GlobalExactProofSearch
end

/-- Four vectors, which are their own scores, codes and bounds, in two leaves. -/
def smallSegment : SegmentProofView Nat Nat Nat where
  tree :=
    { nodes :=
        [{ firstChild := 1, childCount := 2, memberStart := 0, memberLen := 4, envelope := 7 },
          { memberStart := 0, memberLen := 2, envelope := 7 },
          { memberStart := 2, memberLen := 2, envelope := 5 }]
      leafSlots := [1, 3, 0, 2]
      isSpatiallyPrunable := true }
  vectors := [5, 7, 5, 6]
  lutzCodes := some [5, 7, 5, 6]
  tombstones := some {3}

def smallQuery : ProofQuery Nat Nat Nat Nat where
  score := id
  upperBound := WithBot.some
  scoreL0 := id
  boundL0 := id
  boundL1 := some

theorem smallSegment_covers : smallSegment.tree.Covers (range 4) where
  size := rfl
  whole := by decide
  divided := by
    have leaves : ∀ child ∈ smallSegment.tree.children (smallSegment.tree.node 0),
        (smallSegment.tree.node child).isInternal = false := by decide
    exact ⟨_, @Divided.branch _ _ _ _ (fun _ => 1) rfl
      (fun child mem => .leaf (leaves child mem)) (by decide)⟩

theorem smallSegment_admissible : Admissible smallQuery smallSegment where
  coded codes coded := by
    cases coded
    rfl
  region idx slot mem := by
    revert slot
    rcases idx with _ | _ | _ | idx
    · decide
    · decide
    · decide
    · exact fun slot mem => nomatch mem
  codeL0 codes coded slot hin := by
    cases coded
    exact le_rfl
  codeL1 codes coded slot hin bound snd := by
    cases coded
    cases snd
    exact le_rfl

theorem smallSegment_search_exact : (0 < 2) ∧ ∃ turns, ∀ fuel, turns ≤ fuel → ∃ proof,
      GlobalExactProofSearch.search fuel smallQuery 2 [smallSegment] [] [2, 9] none =
        some ([(1, 7), (0, 5)], proof) ∧
      proof.globallyExact = true ∧ proof.isAccountingExact = true :=
  ⟨by decide, GlobalExactProofSearch.search_exact smallQuery smallSegment [2, 9] none 2 (by decide)
    (by decide) smallSegment_covers smallSegment_admissible⟩

end HoloSphere.Proof
