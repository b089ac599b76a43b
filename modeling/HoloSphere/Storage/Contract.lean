import HoloSphere.Proof.Certified
import HoloSphere.Storage.LiveVersions

/-! # Retrieval contracts

`search_with_contract` of `storage/segment.rs`, for the contracts `Exact` and `Certified`, over
exact numbers.  The active segment is scanned for both contracts, with the query as it is given.
For `Certified`, a frozen segment is searched with the normalised query and the proof tree that
was built when it was frozen.  The other contracts are left out, and what the territories of a
segment return as seeds is arbitrary.
-/

namespace HoloSphere.Storage
open Store Proof List GlobalExactProofSearch

inductive RetrievalContract where
  | exact
  | certified
  deriving DecidableEq

section

-- how the bit pattern of a component is read
variable (decode : UInt32 → ℝ)

def VectorEmbedding.exact (vec : Storage.VectorEmbedding) : Proof.VectorEmbedding :=
  vec.data.map fun component => ⟨decode component.1, decode component.2⟩

namespace SegmentTable

def exactVectors (tbl : SegmentTable) : List Proof.VectorEmbedding :=
  tbl.slots.map fun entry => entry.2.exact decode

/-- A number without a slot is a panic in the source. -/
def idAt (tbl : SegmentTable) (slot : NodeIndex) : NodeId := (tbl.slots.getD slot ("", ⟨[]⟩)).1

/-- The slots that are not buried, as a scan counts them. -/
def liveSlots (tbl : SegmentTable) : List NodeIndex :=
  (range (tbl.slots.length % slotNumbers)).filter fun slot => slot ∉ tbl.tombstones

/-- The scan of the contract `Exact`. -/
noncomputable def searchExact (qry : Proof.VectorEmbedding) (k : Nat) (tbl : SegmentTable) :
    List (NodeId × ℝ) :=
  if k = 0 ∨ tbl.slots = [] then []
  else
    (best k ((liveSlots tbl).map fun slot =>
      (⟨slot, qry.dotProduct ((exactVectors decode tbl).getD slot [])⟩ : Finalist ℝ))).map
        fun finalist => (idAt tbl finalist.slot, finalist.score)

noncomputable def proofTree (dim : Nat) (tbl : SegmentTable) : SemanticProofTree Envelope :=
  .build (exactVectors decode tbl) (liveSlots tbl) dim

end SegmentTable

open SegmentTable

noncomputable def ImmutableSegment.searchCertified (fuel : Nat) (tree : SemanticProofTree Envelope)
    (route : Proof.VectorEmbedding → List NodeIndex) (qry : Proof.VectorEmbedding) (k : Nat)
    (seg : ImmutableSegment) : Option (List (NodeId × ℝ)) :=
  if k = 0 ∨ seg.table.slots = [] then some []
  else
    let normalized := qry.intoNormalized
    let seeds := (route normalized).filter fun slot => slot ∉ seg.table.tombstones
    let view : SegmentProofView Proof.VectorEmbedding Unit Envelope :=
      ⟨tree, exactVectors decode seg.table, none, some seg.table.tombstones⟩
    (search fuel (certifiedQuery seg.dimension normalized) k [view] []
      seeds none).map fun found =>
        found.1.map fun entry => (idAt seg.table entry.1, entry.2)

/-- An engine with the proof trees of its frozen segments. -/
structure ContractEngine where
  engine : SegmentedEngine
  proofTrees : List (SemanticProofTree Envelope)

namespace ContractEngine

def new (dim maxMutableCapacity : Nat) : ContractEngine := ⟨.new dim maxMutableCapacity, []⟩

/-- The trees once an insertion has rotated the active segment, if it is full. -/
noncomputable def treesAfterInsert (id : NodeId) (vec : Storage.VectorEmbedding)
    (st : ContractEngine) : List (SemanticProofTree Envelope) :=
  let active := (st.engine.deleteInternal id).1.activeMutable
  match active.insert id vec with
  | .error (.indexFull _) =>
    st.proofTrees ++ [proofTree decode active.dimension active.table]
  | _ => st.proofTrees

noncomputable def treesAfter (st : ContractEngine) :
    SegmentedEngine.Op → List (SemanticProofTree Envelope)
  | .insert id vec | .applyCommittedUpsert id vec _ =>
    st.treesAfterInsert decode id vec
  | .delete _ | .applyDeleteUnlogged _ => st.proofTrees
  | .rotateActive =>
    let active := st.engine.activeMutable
    st.proofTrees ++ [proofTree decode active.dimension active.table]
  | .compact =>
    if st.engine.immutableSegments.length < 2 then st.proofTrees
    else
      [proofTree decode st.engine.dimension
        (SegmentedEngine.mergeSegments st.engine.immutableSegments)]

noncomputable def step (st : ContractEngine) (op : SegmentedEngine.Op) : ContractEngine :=
  ⟨st.engine.step op, st.treesAfter decode op⟩

/-- The first result of each id, from the highest score on. -/
noncomputable def mergeResults (k : Nat) (results : List (NodeId × ℝ)) : List (NodeId × ℝ) :=
  let sorted := results.insertionSort fun fst snd =>
    snd.2 < fst.2 ∨ fst.2 = snd.2 ∧ ¬ snd.1 < fst.1
  (sorted.foldl (fun kept entry =>
    if entry.1 ∈ kept.map Prod.fst then kept else kept ++ [entry]) []).take k

/-- `ImmutableSegment::search_with_contract`. -/
noncomputable def searchFrozen (fuel : Nat)
    (route : ImmutableSegment → Proof.VectorEmbedding → List NodeIndex)
    (contract : RetrievalContract) (qry : Proof.VectorEmbedding) (k : Nat)
    (frozen : ImmutableSegment × SemanticProofTree Envelope) : Option (List (NodeId × ℝ)) :=
  match contract with
  | .exact => some (searchExact decode qry k frozen.1.table)
  | .certified => frozen.1.searchCertified decode fuel frozen.2 (route frozen.1) qry k

noncomputable def searchWithContract (fuel : Nat)
    (route : ImmutableSegment → Proof.VectorEmbedding → List NodeIndex)
    (contract : RetrievalContract) (qry : Proof.VectorEmbedding) (k : Nat)
    (st : ContractEngine) : Option (List (NodeId × ℝ)) :=
  if k = 0 then some []
  else
    let active := searchExact decode qry k st.engine.activeMutable.table
    ((st.engine.immutableSegments.zip st.proofTrees).mapM
      (searchFrozen decode fuel route contract qry k)).map fun found =>
        mergeResults k (active ++ found.flatten)

end ContractEngine
end

/-- All vectors are at most of unit length, and a cast to `u32` changes no slot number. -/
structure SegmentTable.Short (decode : UInt32 → ℝ) (dim : Nat) (tbl : SegmentTable) : Prop where
  vectors : ∀ entry ∈ tbl.slots, (entry.2.exact decode).Short dim
  fits : tbl.slots.length < 2 ^ 31

/-- The tree was built from slots among which are all that are live. -/
structure Proven (decode : UInt32 → ℝ) (dim : Nat) (tbl : SegmentTable)
    (held : List NodeIndex) (tree : SemanticProofTree Envelope) : Prop where
  built : tree = .build (SegmentTable.exactVectors decode tbl) held dim
  distinct : held.Nodup
  inside : ∀ slot ∈ held, slot < tbl.slots.length
  live : ∀ slot < tbl.slots.length, slot ∉ tbl.tombstones → slot ∈ held

theorem SegmentTable.liveSlots_of_fits (fits : tbl.slots.length < 2 ^ 31) :
    SegmentTable.liveSlots tbl =
      (range tbl.slots.length).filter fun slot => slot ∉ tbl.tombstones := by
  rw [SegmentTable.liveSlots, Nat.mod_eq_of_lt]
  simp only [slotNumbers]
  omega

theorem SegmentTable.Short.vector (short : SegmentTable.Short decode dim tbl)
    (hin : slot < tbl.slots.length) :
    Proof.VectorEmbedding.Short dim ((SegmentTable.exactVectors decode tbl).getD slot []) := by
  rw [getD_eq_getElem?_getD, SegmentTable.exactVectors, getElem?_map, getElem?_eq_getElem hin]
  exact short.vectors _ (getElem_mem hin)

theorem proven_proofTree (fits : tbl.slots.length < 2 ^ 31) :
    Proven decode dim tbl (SegmentTable.liveSlots tbl) (SegmentTable.proofTree decode dim tbl) := by
  refine ⟨rfl, nodup_range.filter _, ?_, ?_⟩
  · intro slot mem
    rw [SegmentTable.liveSlots_of_fits fits] at mem
    exact mem_range.mp (mem_of_mem_filter mem)
  · intro slot hin alive
    rw [SegmentTable.liveSlots_of_fits fits]
    simpa [hin] using alive

theorem Proven.kill (proven : Proven decode dim tbl held tree) (id : NodeId) :
    Proven decode dim (tbl.kill id) held tree := by
  refine ⟨?_, proven.distinct, ?_, ?_⟩
  · rw [proven.built, SegmentTable.exactVectors, SegmentTable.exactVectors, SlotTable.kill_slots]
  · simpa using proven.inside
  · intro slot hin alive
    rw [SlotTable.kill_slots] at hin
    exact proven.live slot hin fun dead => alive (tbl.tombstones_subset_kill dead)

/-- What a certified search of the segment answers for is what is live. -/
theorem Proven.reach_perm (proven : Proven decode dim tbl held tree)
    (view : SegmentProofView Proof.VectorEmbedding Unit Envelope)
    (vecs : view.vectors.length = tbl.slots.length) :
    ((reach view held).filter fun slot => slot ∉ tbl.tombstones).Perm
      ((range tbl.slots.length).filter fun slot => slot ∉ tbl.tombstones) := by
  unfold reach
  split
  · rw [perm_ext_iff_of_nodup (proven.distinct.filter _) (nodup_range.filter _)]
    intro slot
    simp only [mem_filter, decide_eq_true_eq, mem_range]
    exact ⟨fun both => ⟨proven.inside slot both.1, both.2⟩,
      fun both => ⟨proven.live slot both.1 both.2, both.2⟩⟩
  · rw [vecs]

theorem searchCertified_eq_searchExact {seg : ImmutableSegment}
    (pos : seg.table.slots ≠ [] → 0 < seg.dimension)
    (short : SegmentTable.Short decode seg.dimension seg.table)
    (proven : Proven decode seg.dimension seg.table held tree)
    (route : Proof.VectorEmbedding → List NodeIndex)
    (length : qry.dimension = seg.dimension) :
    ∃ turns, ∀ fuel, turns ≤ fuel → seg.searchCertified decode fuel tree route qry k =
        some (SegmentTable.searchExact decode qry.intoNormalized k seg.table) := by
  unfold ImmutableSegment.searchCertified SegmentTable.searchExact
  by_cases trivial : k = 0 ∨ seg.table.slots = []
  · simp [if_pos trivial]
  simp only [if_neg trivial]
  rw [not_or] at trivial
  obtain ⟨some, filled⟩ := trivial
  have few : (seg.table.exactVectors decode).length = seg.table.slots.length := length_map _
  have fits := short.fits
  rw [SegmentTable.liveSlots_of_fits fits]
  by_cases none : held = []
  · -- nothing was live when the segment was frozen
    have dead : (range seg.table.slots.length).filter
        (fun slot => slot ∉ seg.table.tombstones) = [] := by
      rw [filter_eq_nil_iff]
      intro slot hin alive
      have mem := proven.live slot (mem_range.mp hin) (by simpa using alive)
      rw [none] at mem
      cases mem
    refine ⟨0, fun fuel _ => ?_⟩
    rw [proven.built, none, dead, search, if_pos (.inr rfl)]
    simp [best]
  · let view : SegmentProofView Proof.VectorEmbedding Unit Envelope :=
      ⟨tree, SegmentTable.exactVectors decode seg.table, Option.none,
        Option.some seg.table.tombstones⟩
    have normal := qry.short_intoNormalized
    rw [length] at normal
    have searched := @certified_ranks k seg.dimension held
      (SegmentTable.exactVectors decode seg.table) (Option.some seg.table.tombstones)
      qry.intoNormalized
      (Nat.pos_of_ne_zero some) normal (pos filled) none proven.distinct
      (fun slot mem => few.symm ▸ proven.inside slot mem) (few.symm ▸ fits)
      (fun slot mem => short.vector (proven.inside slot mem)) Option.none
      ((route qry.intoNormalized).filter fun slot => slot ∉ seg.table.tombstones)
    rw [← proven.built] at searched
    obtain ⟨turns, ends⟩ := searched (by
      intro seed mem hin _
      have alive := (mem_filter.mp mem).2
      unfold reach
      split
      · exact proven.live seed (few ▸ hin) (by simpa using alive)
      · exact mem_range.mpr hin)
    refine ⟨turns, fun fuel enough => ?_⟩
    obtain ⟨proof, returned, -⟩ := ends fuel enough
    rw [returned]
    have elig : (view.target id (certifiedQuery seg.dimension qry.intoNormalized)
        Option.none k).eligible = fun slot => decide (slot ∉ seg.table.tombstones) := by
      funext slot
      simp [SegmentProofView.target, SegmentProofView.tombstoned, admits, view]
    have same := proven.reach_perm view few
    rw [← elig] at same
    rw [Option.map_some, Target.rankingOf_of_perm same, map_map, elig]
    rfl

end HoloSphere.Storage
