import HoloSphere.Proof.Stages

/-! # The frontier

Every slot that is not settled yet stands below exactly one node of the frontier.  A turn of the
loop takes a node from it and settles its slots or hands them on to its children, so that the
loop comes to its end with every slot settled.
-/

namespace HoloSphere.Proof
open Store SemanticProofTree List
variable {ν κ γ α : Type} [LinearOrder α] [Inhabited ν] [Inhabited κ] [Inhabited γ]
  {seg : SegmentProofView ν κ γ} {st : Exploration α}

/-- An entry stands for a node of the segment, with the node's bound. -/
structure ProofFrontierEntry.Stands (qry : ProofQuery ν κ γ α) (seg : SegmentProofView ν κ γ)
    (entry : ProofFrontierEntry α) : Prop where
  segmentIdx : entry.segmentIdx = 0
  upperBound : entry.upperBound = qry.upperBound (seg.tree.node entry.nodeIdx).envelope
  divided : ∃ size, Divided seg.tree entry.nodeIdx size

/-- The slots below the nodes of the frontier. -/
def Exploration.waiting (seg : SegmentProofView ν κ γ) (st : Exploration α) : List NodeIndex :=
  st.frontier.items.flatMap fun entry => seg.tree.residents entry.nodeIdx

/-- The nodes of the frontier, with what hangs below them. -/
noncomputable def Exploration.weight (seg : SegmentProofView ν κ γ) (st : Exploration α) : Nat :=
  (st.frontier.items.map fun entry => seg.tree.weight entry.nodeIdx).sum

/-- The slots in `pending` and those below the frontier are all that is left to do. -/
structure Exploring (relax : α → α) (qry : ProofQuery ν κ γ α)
    (mask : Option (Finset NodeIndex)) (k : Nat) (seg : SegmentProofView ν κ γ)
    (slots pending : List NodeIndex) (st : Exploration α) : Prop where
  opened : (seg.target relax qry mask k).Open slots
    (pending ++ st.waiting seg) st.progress
  stands : ∀ entry ∈ st.frontier.items, entry.Stands qry seg

theorem Exploring.admitRegion (adm : Admissible qry seg) (monotone : Monotone relax)
    (divided : Divided seg.tree idx size)
    (exploring : Exploring relax qry mask k seg slots (seg.tree.residents idx ++ pending) st) :
    Exploring relax qry mask k seg slots pending (admitRegion relax qry [seg] 0 st idx) ∧
      (Proof.admitRegion relax qry [seg] 0 st idx).weight seg ≤
        seg.tree.weight idx + st.weight seg := by
  have opened := exploring.opened
  rw [append_assoc] at opened
  unfold Proof.admitRegion
  simp only [getD_cons_zero]
  split
  · rename_i pruned
    refine ⟨⟨opened.pruneRegion monotone pruned (adm.region idx), exploring.stands⟩, ?_⟩
    exact Nat.le_add_left _ _
  · let entry : ProofFrontierEntry α := ⟨qry.upperBound (seg.tree.node idx).envelope, 0, idx⟩
    have pushed := st.frontier.push_perm entry
    refine ⟨⟨?_, fun other mem => ?_⟩, ?_⟩
    · apply opened.perm
      have moved := (pushed.flatMap_right fun entry =>
        seg.tree.residents entry.nodeIdx).append_left pending
      exact (perm_append_comm_assoc ..).trans moved.symm
    · rcases mem_cons.mp (pushed.mem_iff.mp mem) with rfl | old
      · exact ⟨rfl, rfl, size, divided⟩
      · exact exploring.stands other old
    · exact ((pushed.map fun entry => seg.tree.weight entry.nodeIdx).sum_eq).le

theorem Exploring.admitChildren (adm : Admissible qry seg) (monotone : Monotone relax)
    (children : List Nat) (divided : ∀ idx ∈ children, ∃ size, Divided seg.tree idx size)
    (exploring : Exploring relax qry mask k seg slots
      (children.flatMap seg.tree.residents ++ pending) st) :
    Exploring relax qry mask k seg slots pending
        (children.foldl (Proof.admitRegion relax qry [seg] 0) st) ∧
      (children.foldl (Proof.admitRegion relax qry [seg] 0) st).weight seg ≤
        (children.map seg.tree.weight).sum + st.weight seg := by
  induction children generalizing st with
  | nil => exact ⟨exploring, by simp⟩
  | cons idx children ih =>
    obtain ⟨size, here⟩ := divided idx mem_cons_self
    rw [flatMap_cons, append_assoc] at exploring
    obtain ⟨next, lighter⟩ := exploring.admitRegion adm monotone here
    obtain ⟨last, light⟩ := ih (forall_mem_cons.mp divided).2
      next
    refine ⟨last, light.trans ?_⟩
    simp only [map_cons, sum_cons]
    omega

theorem Exploring.exploreEntry (adm : Admissible qry seg) (monotone : Monotone relax)
    {entry : ProofFrontierEntry α} (stands : entry.Stands qry seg)
    (exploring : Exploring relax qry mask k seg slots (seg.tree.residents entry.nodeIdx) st) :
    Exploring relax qry mask k seg slots [] (exploreEntry relax qry mask [seg] entry st) ∧
      (Proof.exploreEntry relax qry mask [seg] entry st).weight seg <
        seg.tree.weight entry.nodeIdx + st.weight seg := by
  obtain ⟨size, divided⟩ := stands.divided
  have heavy : 0 < seg.tree.weight entry.nodeIdx := divided.weight.size_pos
  have opened := exploring.opened
  unfold Proof.exploreEntry
  simp only [stands.segmentIdx, getD_cons_zero]
  split
  · rename_i pruned
    rw [stands.upperBound] at pruned
    refine ⟨⟨?_, exploring.stands⟩, Nat.lt_add_of_pos_left heavy⟩
    exact (opened.note rfl rfl).pruneRegion monotone pruned (adm.region entry.nodeIdx)
  · split
    · rename_i inner
      obtain ⟨shares, part, below, -⟩ := divided.parts inner
      have handed : Exploring relax qry mask k seg slots
          ((seg.tree.children (seg.tree.node entry.nodeIdx)).flatMap
            seg.tree.residents ++ [])
          ⟨st.frontier, (st.progress.note fun proof =>
            { proof with proofRegionsPopped := proof.proofRegionsPopped + 1 }).note fun proof =>
              { proof with proofRegionsExpanded := proof.proofRegionsExpanded + 1 }⟩ := by
        refine ⟨?_, exploring.stands⟩
        rw [append_nil]
        dsimp only
        apply Target.Open.note
        · apply Target.Open.note (opened.perm (shares.append_right _))
          · rfl
          · rfl
        · rfl
        · rfl
      obtain ⟨next, light⟩ := handed.admitChildren adm monotone _
        fun child mem => ⟨_, below child mem⟩
      exact ⟨next, light.trans_lt (Nat.add_lt_add_right (divided.sum_weight_lt inner) _)⟩
    · refine ⟨⟨?_, exploring.stands⟩, Nat.lt_add_of_pos_left heavy⟩
      exact (opened.note rfl rfl).exploreLeaf adm monotone _

/-- With enough turns the loop ends, and every slot is settled. -/
theorem Exploring.explore (adm : Admissible qry seg) (monotone : Monotone relax)
    (enough : st.weight seg < fuel)
    (exploring : Exploring relax qry mask k seg slots [] st) :
    ∃ prog, explore relax qry mask [seg] fuel st = some prog ∧
      (seg.target relax qry mask k).Open slots [] prog := by
  induction fuel generalizing st with
  | zero => cases enough
  | succ fuel ih =>
    cases popped : st.frontier.pop with
    | none =>
      have empty := BinaryHeap.pop_eq_none.mp popped
      have opened := exploring.opened
      simp only [Exploration.waiting, empty, flatMap_nil, append_nil] at opened
      exact ⟨st.progress, by simp [Proof.explore, popped], opened⟩
    | some top =>
      obtain ⟨entry, rest⟩ := top
      have items := BinaryHeap.items_of_pop popped
      have stands : entry.Stands qry seg := exploring.stands entry (by simp [items])
      have taken : Exploring relax qry mask k seg slots
          (seg.tree.residents entry.nodeIdx) ⟨rest, st.progress⟩ := by
        refine ⟨exploring.opened.perm ?_, fun other mem =>
          exploring.stands other (by simp [items, mem])⟩
        simp only [Exploration.waiting, items, flatMap_append, flatMap_singleton, nil_append]
        exact perm_append_comm
      obtain ⟨next, lighter⟩ := taken.exploreEntry adm monotone stands
      have weight : st.weight seg = seg.tree.weight entry.nodeIdx +
          Exploration.weight seg ⟨rest, st.progress⟩ := by
        simp only [Exploration.weight, items, map_append, map_cons, map_nil,
          sum_append, sum_singleton]
        omega
      obtain ⟨prog, ended, settled⟩ := ih (by omega) next
      exact ⟨prog, by simpa [Proof.explore, popped] using ended, settled⟩

end HoloSphere.Proof
