import HoloSphere.Storage.Contract

/-! # Runs of an engine under both contracts

A frozen segment is searched with the normalised query, the active one with the query as it is
given, so their scores are comparable only if these are the same or only one of the two kinds
holds anything.  Then the contracts `Exact` and `Certified` return the same ids, after every run
that writes vectors of at most unit length.
-/

namespace HoloSphere.Storage
open Store Proof SegmentTable Function List SlotTable
namespace ContractEngine
variable {decode : UInt32 → ℝ}

/-- A vector that is not zero and at most of unit length. -/
structure Fine (decode : UInt32 → ℝ) (vec : Storage.VectorEmbedding) : Prop where
  nonzero : 0 < (vec.exact decode).norm
  short : (vec.exact decode).norm ≤ 1

def slotCount (eng : SegmentedEngine) : Nat :=
  eng.activeMutable.table.slots.length +
    (eng.immutableSegments.map fun seg => seg.table.slots.length).sum

def Holds (decode : UInt32 → ℝ) (dim : Nat) (tbl : SegmentTable) : Prop :=
  ∀ entry ∈ tbl.slots, entry.2.dimension = dim ∧ Fine decode entry.2

structure Certified (decode : UInt32 → ℝ) (dim : Nat) (seg : ImmutableSegment)
    (tree : SemanticProofTree Envelope) : Prop where
  sized : seg.dimension = dim
  holds : Holds decode dim seg.table
  proven : ∃ held, Proven decode dim seg.table held tree

/-- What is kept by every step. -/
structure Sound (decode : UInt32 → ℝ) (eng : SegmentedEngine)
    (trees : List (SemanticProofTree Envelope)) : Prop where
  sized : eng.activeMutable.dimension = eng.dimension
  active : Holds decode eng.dimension eng.activeMutable.table
  frozen : List.Forall₂ (Certified decode eng.dimension) eng.immutableSegments trees
  room : slotCount eng < 2 ^ 31

variable {eng : SegmentedEngine}

theorem Holds.kill (holds : Holds decode dim tbl) (id : NodeId) :
    Holds decode dim (tbl.kill id) := by
  simpa [Holds] using holds

theorem slotCount_deleteInternal (eng : SegmentedEngine) (id : NodeId) :
    slotCount (eng.deleteInternal id).1 = slotCount eng := by
  simp [slotCount, SegmentedEngine.deleteInternal, MutableSegment.delete, ImmutableSegment.delete,
    comp_def]

theorem slotCount_rotateActive (eng : SegmentedEngine) :
    slotCount eng.rotateActive = slotCount eng := by
  simp [slotCount, SegmentedEngine.rotateActive, MutableSegment.new, ImmutableSegment.freeze,
    Nat.add_comm]

theorem sound_new (dim maxMutableCapacity : Nat) :
    Sound decode (.new dim maxMutableCapacity) [] := by
  refine ⟨rfl, ?_, .nil, by simp [slotCount, SegmentedEngine.new, MutableSegment.new]⟩
  simp [Holds, SegmentedEngine.new, MutableSegment.new]

section
variable (sound : Sound decode eng trees)
include sound

theorem Sound.deleteInternal (id : NodeId) : Sound decode (eng.deleteInternal id).1 trees := by
  refine ⟨sound.sized, sound.active.kill id, ?_, ?_⟩
  · simp only [SegmentedEngine.deleteInternal, map_map, forall₂_map_left_iff]
    refine sound.frozen.imp fun seg tree certified => ?_
    obtain ⟨held, proven⟩ := certified.proven
    exact ⟨certified.sized, certified.holds.kill id, held, proven.kill id⟩
  · rw [slotCount_deleteInternal]
    exact sound.room

theorem Sound.rotateActive : Sound decode eng.rotateActive (trees ++ [proofTree decode
      eng.activeMutable.dimension eng.activeMutable.table]) := by
  rw [sound.sized]
  refine ⟨rfl, by simp [Holds, SegmentedEngine.rotateActive, MutableSegment.new], ?_, ?_⟩
  · apply rel_append sound.frozen
    refine .cons ⟨sound.sized, sound.active, _, proven_proofTree ?_⟩ .nil
    exact (Nat.le_add_right _ _).trans_lt sound.room
  · rw [slotCount_rotateActive]
    exact sound.room

theorem Sound.store (id : NodeId)
    {vec : Storage.VectorEmbedding} (sized : vec.dimension = eng.dimension)
    (fine : Fine decode vec) (room : slotCount eng + 1 < 2 ^ 31) :
    Sound decode (eng.store id vec) trees := by
  refine ⟨sound.sized, ?_, sound.frozen, ?_⟩
  · intro entry mem
    simp only [SegmentedEngine.store, put, push_slots, kill_slots, mem_append,
      mem_singleton] at mem
    rcases mem with old | rfl
    · exact sound.active entry old
    · exact ⟨sized, fine⟩
  · simp only [slotCount, SegmentedEngine.store, put, push_slots, kill_slots,
      length_append, length_singleton] at room ⊢
    omega

theorem Sound.insertActive (id : NodeId)
    (fine : Fine decode vec) (room : slotCount eng + 1 < 2 ^ 31) :
    Sound decode (eng.insertActive id vec).1 (match eng.activeMutable.insert id vec with
        | .error (.indexFull _) => trees ++ [proofTree decode
            eng.activeMutable.dimension eng.activeMutable.table]
        | _ => trees) := by
  have inserted := SegmentedEngine.insertActive_inserted id vec eng
  generalize eng.insertActive id vec = ans at inserted ⊢
  unfold MutableSegment.insert
  have rotated := sound.rotateActive
  cases inserted with
  | refused e apart =>
    rw [if_pos apart]
    exact sound
  | rotated e same full unfit =>
    rw [if_neg (not_not.mpr same), if_pos full]
    exact rotated
  | renewed same full fit =>
    rw [if_neg (not_not.mpr same), if_pos full]
    exact rotated.store id fit.1 fine (slotCount_rotateActive eng ▸ room)
  | stored same free =>
    rw [if_neg (not_not.mpr same), if_neg (not_le.mpr free)]
    exact sound.store id (same.trans sound.sized) fine room

end

theorem holds_of_certified (frozen : List.Forall₂ (Certified decode dim) segs trees) :
    ∀ seg ∈ segs, Holds decode dim seg.table := by
  induction frozen with
  | nil => simp
  | cons certified _ ih => exact forall_mem_cons.mpr ⟨certified.holds, ih⟩

theorem length_liveSlots_le (segs : List ImmutableSegment) :
    (segs.flatMap ImmutableSegment.liveSlots).length ≤
      (segs.map fun seg => seg.table.slots.length).sum := by
  rw [length_flatMap]
  apply sum_le_sum
  intro seg _
  have bound := length_filterMap_le (seg.table.liveAt slotNumbers) (range seg.table.slots.length)
  rwa [length_range] at bound

theorem mem_slots_of_mem_live {tbl : SegmentTable} (mem : entry ∈ tbl.live slotNumbers) :
    entry ∈ tbl.slots := by
  obtain ⟨position, found⟩ := mem_live.mp mem
  unfold liveAt at found
  split at found
  · cases found
  · exact mem_of_getElem? found

theorem Sound.compact (sound : Sound decode eng trees) :
    Sound decode (eng.swapCompacted (SegmentedEngine.mergeSegments eng.immutableSegments))
      [proofTree decode eng.dimension (SegmentedEngine.mergeSegments eng.immutableSegments)] := by
  have room := sound.room
  obtain ⟨taken, among, slots⟩ := @SlotTable.foldl_absorb_slots _ _ _ slotNumbers
    (eng.immutableSegments.reverse.flatMap ImmutableSegment.liveSlots) ({} : SegmentTable)
  have merged : (SegmentedEngine.mergeSegments eng.immutableSegments).slots = taken := by
    simpa [SegmentedEngine.mergeSegments] using slots
  have size : taken.length ≤ (eng.immutableSegments.map fun seg => seg.table.slots.length).sum := by
    have counted := length_liveSlots_le eng.immutableSegments.reverse
    rw [map_reverse, sum_reverse] at counted
    exact among.length_le.trans counted
  have holds : Holds decode eng.dimension
      (SegmentedEngine.mergeSegments eng.immutableSegments) := by
    intro entry mem
    rw [merged] at mem
    obtain ⟨seg, frozen, live⟩ := mem_flatMap.mp (among.subset mem)
    exact holds_of_certified sound.frozen seg (mem_reverse.mp frozen) entry
      (mem_slots_of_mem_live live)
  simp only [slotCount] at room
  refine ⟨sound.sized, sound.active, .cons ⟨rfl, holds, _, proven_proofTree ?_⟩ .nil, ?_⟩
  · rw [merged]
    omega
  · simp only [slotCount, SegmentedEngine.swapCompacted, map_cons, map_nil, sum_cons,
      sum_nil, merged]
    omega

/-- The condition on a step: a vector that is written is not zero and at most of unit length, and
    there are slot numbers left. -/
def Keeps (decode : UInt32 → ℝ) (st : ContractEngine) : SegmentedEngine.Op → Prop
  | .insert _ vec | .applyCommittedUpsert _ vec _ =>
    Fine decode vec ∧ slotCount st.engine + 1 < 2 ^ 31
  | _ => True

def KeepsThroughout (decode : UInt32 → ℝ) (st : ContractEngine) : List SegmentedEngine.Op → Prop
  | [] => True
  | op :: rest => st.Keeps decode op ∧ (st.step decode op).KeepsThroughout decode rest

variable {st : ContractEngine}

theorem Sound.insert (sound : Sound decode st.engine st.proofTrees) (id : NodeId)
    (fine : Fine decode vec) (room : slotCount st.engine + 1 < 2 ^ 31) :
    Sound decode (st.engine.insert id vec).1 (st.treesAfterInsert decode id vec) :=
  (sound.deleteInternal id).insertActive id fine (slotCount_deleteInternal st.engine id ▸ room)

theorem Sound.step (sound : Sound decode st.engine st.proofTrees) (keeps : st.Keeps decode op) :
    Sound decode (st.step decode op).engine (st.step decode op).proofTrees := by
  cases op with
  | insert id vec => exact sound.insert id keeps.1 keeps.2
  | delete id => exact sound.deleteInternal id
  | applyCommittedUpsert id vec md =>
    obtain ⟨metadata, upserted, -⟩ := SegmentedEngine.applyCommittedUpsert_eq id vec md st.engine
    rw [ContractEngine.step, SegmentedEngine.step, upserted]
    exact { sound.insert id keeps.1 keeps.2 with }
  | applyDeleteUnlogged id => exact { sound.deleteInternal id with }
  | rotateActive => exact sound.rotateActive
  | compact =>
    simp only [ContractEngine.step, SegmentedEngine.step, SegmentedEngine.compact, treesAfter]
    split
    · exact sound
    · exact sound.compact

noncomputable def run (decode : UInt32 → ℝ) (st : ContractEngine)
    (ops : List SegmentedEngine.Op) : ContractEngine :=
  ops.foldl (step decode) st

theorem Sound.run (sound : Sound decode st.engine st.proofTrees)
    {ops : List SegmentedEngine.Op} (keeps : st.KeepsThroughout decode ops) :
    Sound decode (st.run decode ops).engine (st.run decode ops).proofTrees := by
  induction ops generalizing st with
  | nil => exact sound
  | cons op rest ih => exact ih (sound.step keeps.1) keeps.2

theorem dimension_run (st : ContractEngine) :
    (st.run decode ops).engine.dimension = st.engine.dimension := by
  induction ops generalizing st with
  | nil => rfl
  | cons op rest ih => exact (ih _).trans (st.engine.step_config op).1

theorem Fine.exact_short (fine : Fine decode vec) : (vec.exact decode).Short vec.dimension := by
  have length : (vec.exact decode).dimension = vec.dimension := length_map _
  refine ⟨length, ?_⟩
  rw [← length]
  exact Geometry.size_le_one.mp fine.short

theorem Fine.dimension_pos (fine : Fine decode vec) : 0 < vec.dimension := by
  rw [Nat.pos_iff_ne_zero]
  intro zero
  have length : (vec.exact decode).dimension = 0 := (length_map _).trans zero
  have pos := fine.nonzero
  simp [Proof.VectorEmbedding.norm, length, Geometry.size, Geometry.dot] at pos

theorem Certified.search {seg : ImmutableSegment} (certified : Certified decode dim seg tree)
    (fits : seg.table.slots.length < 2 ^ 31) (route : Proof.VectorEmbedding → List NodeIndex)
    {qry : Proof.VectorEmbedding} (length : qry.dimension = dim) (k : Nat) :
    ∃ turns, ∀ fuel, turns ≤ fuel → seg.searchCertified decode fuel tree route qry k =
        some (searchExact decode qry.intoNormalized k seg.table) := by
  obtain ⟨rfl, holds, held, proven⟩ := certified
  apply searchCertified_eq_searchExact
  · intro filled
    obtain ⟨entry, mem⟩ := exists_mem_of_ne_nil _ filled
    obtain ⟨sized, fine⟩ := holds entry mem
    exact sized ▸ fine.dimension_pos
  · refine ⟨fun entry mem => ?_, fits⟩
    obtain ⟨sized, fine⟩ := holds entry mem
    exact sized ▸ fine.exact_short
  · exact proven
  · exact length

noncomputable def frozenQuery (qry : Proof.VectorEmbedding) :
    RetrievalContract → Proof.VectorEmbedding
  | .exact => qry
  | .certified => qry.intoNormalized

theorem mapM_searchFrozen (frozen : List.Forall₂ (Certified decode dim) segs trees)
    (fits : ∀ seg ∈ segs, seg.table.slots.length < 2 ^ 31)
    (route : ImmutableSegment → Proof.VectorEmbedding → List NodeIndex)
    {qry : Proof.VectorEmbedding} (length : qry.dimension = dim) :
    ∃ turns, ∀ fuel, turns ≤ fuel → ∀ contract,
      (segs.zip trees).mapM (searchFrozen decode fuel route contract qry k) =
        some (segs.map fun seg =>
          searchExact decode (frozenQuery qry contract) k seg.table) := by
  induction frozen with
  | nil => exact ⟨0, fun _ _ _ => rfl⟩
  | @cons seg tree segs trees certified _ ih =>
    obtain ⟨here, others⟩ := forall_mem_cons.mp fits
    obtain ⟨fst, found⟩ := certified.search here (route seg) length k
    obtain ⟨rest, later⟩ := ih others
    refine ⟨max fst rest, fun fuel enough contract => ?_⟩
    have one : searchFrozen decode fuel route contract qry k (seg, tree) =
        some (searchExact decode (frozenQuery qry contract) k seg.table) := by
      cases contract with
      | exact => rfl
      | certified => exact found fuel ((le_max_left _ _).trans enough)
    simp only [zip_cons_cons, mapM_cons, one, later fuel ((le_max_right _ _).trans enough) contract]
    rfl

theorem Sound.fits (sound : Sound decode eng trees) :
    ∀ seg ∈ eng.immutableSegments, seg.table.slots.length < 2 ^ 31 := by
  intro seg mem
  have room := sound.room
  have part := single_le_sum (by simp)
    _ (mem_map_of_mem (f := fun seg => seg.table.slots.length) mem)
  simp only [slotCount] at room
  omega

/-- The merged results, if the frozen segments are scanned with a query of their own. -/
noncomputable def answerWith (decode : UInt32 → ℝ) (qry frozen : Proof.VectorEmbedding) (k : Nat)
    (st : ContractEngine) : List (NodeId × ℝ) :=
  mergeResults k
    (searchExact decode qry k st.engine.activeMutable.table ++
      (st.engine.immutableSegments.map fun seg =>
        searchExact decode frozen k seg.table).flatten)

theorem Sound.searchWithContract {st : ContractEngine}
    (sound : Sound decode st.engine st.proofTrees)
    (route : ImmutableSegment → Proof.VectorEmbedding → List NodeIndex)
    {qry : Proof.VectorEmbedding} (length : qry.dimension = st.engine.dimension) {k : Nat}
    (some : k ≠ 0) :
    ∃ turns, ∀ fuel, turns ≤ fuel → ∀ contract,
      st.searchWithContract decode fuel route contract qry k =
        Option.some (st.answerWith decode qry (frozenQuery qry contract) k) := by
  obtain ⟨turns, found⟩ := mapM_searchFrozen sound.frozen sound.fits route length
  refine ⟨turns, fun fuel enough contract => ?_⟩
  rw [ContractEngine.searchWithContract, if_neg some, found fuel enough contract]
  rfl

/-- The result with its score multiplied. -/
def rescale (factor : ℝ) (res : NodeId × ℝ) : NodeId × ℝ := (res.1, factor * res.2)

theorem dotProduct_intoNormalized {qry : Proof.VectorEmbedding} (long : ¬ qry.norm < 1e-9)
    (vec : Proof.VectorEmbedding) :
    qry.intoNormalized.dotProduct vec = 1 / qry.norm * qry.dotProduct vec := by
  rw [Proof.VectorEmbedding.dotProduct, Proof.VectorEmbedding.dotProduct,
    qry.dimension_intoNormalized, qry.coordinate_intoNormalized, if_neg long,
    Geometry.dot_smul_left]

theorem searchExact_rescale (pos : 0 < factor) {qry scaled : Proof.VectorEmbedding}
    (score : ∀ vec, scaled.dotProduct vec = factor * qry.dotProduct vec) :
    searchExact decode scaled k tbl = (searchExact decode qry k tbl).map (rescale factor) := by
  unfold searchExact
  split
  · rfl
  · let grow : Finalist ℝ → Finalist ℝ := fun finalist => ⟨finalist.slot, factor * finalist.score⟩
    have order : ∀ fst snd : Finalist ℝ, fst ≤ snd ↔ grow fst ≤ grow snd := by
      intro fst snd
      rw [← not_lt, ← not_lt, Finalist.lt_iff, Finalist.lt_iff]
      simp [grow, mul_lt_mul_iff_right₀ pos, mul_right_inj' pos.ne']
    have sorted := map_insertionSort (· ≤ ·) (· ≤ ·) grow
      ((liveSlots tbl).map fun slot =>
        (⟨slot, qry.dotProduct ((exactVectors decode tbl).getD slot [])⟩ :
          Finalist ℝ)) fun fst _ snd _ => order fst snd
    simp only [score]
    simp only [best, map_take, map_map, comp_def, grow] at sorted ⊢
    rw [← sorted]
    simp [comp_def, rescale]

theorem searchExact_idle (idle : liveSlots tbl = []) : searchExact decode qry k tbl = [] := by
  unfold searchExact
  split
  · rfl
  · simp [idle]

theorem mergeResults_rescale (pos : 0 < factor) : mergeResults k (results.map (rescale factor)) =
      (mergeResults k results).map (rescale factor) := by
  have sorted := map_insertionSort
    (fun fst snd : NodeId × ℝ =>
      snd.2 < fst.2 ∨ fst.2 = snd.2 ∧ ¬ snd.1 < fst.1)
    (fun fst snd : NodeId × ℝ =>
      snd.2 < fst.2 ∨ fst.2 = snd.2 ∧ ¬ snd.1 < fst.1)
    (rescale factor) results fun fst _ snd _ => by
      simp [rescale, mul_lt_mul_iff_right₀ pos, mul_right_inj' pos.ne']
  have kept : ∀ (ents found : List (NodeId × ℝ)),
      (ents.map (rescale factor)).foldl (fun kept entry =>
          if entry.1 ∈ kept.map Prod.fst then kept else kept ++ [entry])
        (found.map (rescale factor)) =
      (ents.foldl (fun kept entry =>
        if entry.1 ∈ kept.map Prod.fst then kept else kept ++ [entry]) found).map
          (rescale factor) := by
    intro ents
    induction ents with
    | nil => exact fun found => rfl
    | cons entry ents ih =>
      intro found
      have ids : (found.map (rescale factor)).map Prod.fst = found.map Prod.fst := by
        simp [rescale, comp_def]
      rw [map_cons, foldl_cons, foldl_cons, ids, ← ih]
      congr 1
      rw [apply_ite (map (rescale factor)), map_append]
      rfl
  unfold mergeResults
  rw [← sorted, map_take, ← kept]
  rfl

/-- The condition on a query: it is of unit length, or only frozen segments have live slots, or
    none of them has. -/
def Comparable (qry : Proof.VectorEmbedding) (st : ContractEngine) : Prop :=
  qry.norm = 1 ∨ 1e-9 ≤ qry.norm ∧ liveSlots st.engine.activeMutable.table = [] ∨
    ∀ seg ∈ st.engine.immutableSegments, liveSlots seg.table = []

/-- The merged results of one contract are those of the other, with all scores multiplied by one
    factor. -/
theorem Comparable.answerWith (comparable : Comparable qry st) (k : Nat) :
    ∃ factor : ℝ, st.answerWith decode qry qry.intoNormalized k =
      (st.answerWith decode qry qry k).map (rescale factor) := by
  have one : rescale 1 = id := funext fun res => by simp [rescale]
  rcases comparable with unit | ⟨long, idle⟩ | idle
  · have same : qry.intoNormalized = qry := by
      rw [Proof.VectorEmbedding.intoNormalized, unit, if_neg (by norm_num)]
      simp
    exact ⟨1, by rw [same, one, map_id]⟩
  · have pos : 0 < 1 / qry.norm := one_div_pos.mpr (lt_of_lt_of_le (by norm_num) long)
    refine ⟨1 / qry.norm, ?_⟩
    rw [ContractEngine.answerWith, ContractEngine.answerWith, searchExact_idle idle,
      nil_append, nil_append, ← mergeResults_rescale pos, map_flatten,
      map_map]
    simp [comp_def, searchExact_rescale pos (dotProduct_intoNormalized (not_lt.mpr long))]
  · refine ⟨1, ?_⟩
    have empty : ∀ other : Proof.VectorEmbedding, (st.engine.immutableSegments.map fun seg =>
        searchExact decode other k seg.table) =
          st.engine.immutableSegments.map fun _ => [] := fun other =>
      map_congr_left fun seg mem => searchExact_idle (idle seg mem)
    rw [one, map_id, ContractEngine.answerWith, ContractEngine.answerWith, empty, empty]

/-- After any inserts, deletes, rotations and compactions in which the vectors are not zero and at
    most of unit length, both contracts answer a comparable query with the same ids. -/
theorem certified_answers_as_exact (decode : UInt32 → ℝ) (dim cap : Nat)
    (ops : List SegmentedEngine.Op)
    (keeps : (new dim cap).KeepsThroughout decode ops)
    (route : ImmutableSegment → Proof.VectorEmbedding → List NodeIndex)
    (qry : Proof.VectorEmbedding) (length : qry.dimension = dim)
    (comparable : Comparable qry ((new dim cap).run decode ops)) (k : Nat) :
    ∃ ids turns, ∀ fuel, turns ≤ fuel → ∀ contract, ∃ ans,
      ((new dim cap).run decode ops).searchWithContract decode fuel route contract
        qry k = some ans ∧ ans.map Prod.fst = ids := by
  have sound := (sound_new dim cap : Sound decode _ _).run keeps
  by_cases none : k = 0
  · exact ⟨[], 0, fun _ _ _ => ⟨[], if_pos none, rfl⟩⟩
  · obtain ⟨turns, found⟩ := sound.searchWithContract route
      (length.trans (dimension_run (new dim cap)).symm) none
    obtain ⟨factor, scaled⟩ := @Comparable.answerWith decode _ _ comparable k
    refine ⟨(((new dim cap).run decode ops).answerWith decode qry qry k).map Prod.fst,
      turns, fun fuel enough contract => ⟨_, found fuel enough contract, ?_⟩⟩
    cases contract with
    | exact => rfl
    | certified =>
      rw [frozenQuery, scaled, map_map]
      rfl

/-- Components in quarters. -/
noncomputable def quarters (bits : UInt32) : ℝ := bits.toNat / 4

def mixedOps : List SegmentedEngine.Op :=
  [.insert "a" (SegmentedEngine.scalar 4), .rotateActive, .insert "b" (SegmentedEngine.scalar 3)]

theorem exact_scalar :
    (SegmentedEngine.scalar bits).exact quarters = [((bits.toNat / 4 : ℝ) : ℂ)] := by
  simp [SegmentedEngine.scalar, VectorEmbedding.exact, quarters, Complex.ext_iff]

theorem fine_scalar {bits : UInt32} (some : 0 < bits.toNat) (few : bits.toNat ≤ 4) :
    Fine quarters (SegmentedEngine.scalar bits) := by
  have norm : ((SegmentedEngine.scalar bits).exact quarters).norm = bits.toNat / 4 := by
    rw [exact_scalar, Proof.VectorEmbedding.norm_singleton, Complex.norm_real,
      Real.norm_of_nonneg (by positivity)]
  have bounded : (bits.toNat : ℝ) ≤ 4 := Nat.cast_le_ofNat.mpr few
  refine ⟨?_, ?_⟩
  · rw [norm]
    positivity
  · linarith

theorem mixedOps_keeps : (new 1 4).KeepsThroughout quarters mixedOps :=
  ⟨⟨fine_scalar (by decide) (by decide), by decide⟩, trivial,
    ⟨fine_scalar (by decide) (by decide), by decide⟩, trivial⟩

theorem mixed_segments_answer_alike :
    Proof.VectorEmbedding.norm [1] = 1 ∧ ∃ ids turns, ∀ fuel, turns ≤ fuel → ∀ contract,
      ∃ ans, ((new 1 4).run quarters mixedOps).searchWithContract quarters fuel (fun _ _ => [])
        contract [1] 2 = some ans ∧ ans.map Prod.fst = ids := by
  have unit : Proof.VectorEmbedding.norm [1] = 1 := by
    rw [Proof.VectorEmbedding.norm_singleton, norm_one]
  exact ⟨unit, certified_answers_as_exact quarters 1 4 mixedOps mixedOps_keeps (fun _ _ => []) [1]
    rfl (.inl unit) 2⟩

theorem searchExact_single {decode : UInt32 → ℝ} {tbl : SegmentTable} {id : NodeId}
    {vec : Storage.VectorEmbedding} (slots : tbl.slots = [(id, vec)])
    (alive : tbl.tombstones = ∅) (qry : Proof.VectorEmbedding) {k : Nat} (some : k ≠ 0) :
    searchExact decode qry k tbl = [(id, qry.dotProduct (vec.exact decode))] := by
  have live : liveSlots tbl = [0] := by
    simp [liveSlots, slots, alive, slotNumbers]
  obtain ⟨k, rfl⟩ := Nat.exists_eq_succ_of_ne_zero some
  simp [searchExact, live, slots, best, idAt, exactVectors]

theorem mergeResults_pair {fst snd : NodeId × ℝ} (higher : snd.2 < fst.2) :
    mergeResults 1 [fst, snd] = [fst] ∧ mergeResults 1 [snd, fst] = [fst] := by
  have later : ¬ (fst.2 < snd.2 ∨ snd.2 = fst.2 ∧ ¬ fst.1 < snd.1) := by
    rintro (lower | ⟨same, -⟩)
    · exact lower.not_gt higher
    · exact higher.ne same
  constructor
  · simp only [mergeResults, insertionSort_cons, insertionSort_nil,
      orderedInsert_nil, orderedInsert_cons, higher, true_or, if_true, foldl_cons,
      foldl_nil, map_nil, not_mem_nil, if_false, nil_append]
    split <;> simp
  · simp only [mergeResults, insertionSort_cons, insertionSort_nil,
      orderedInsert_nil, orderedInsert_cons, later, if_false, foldl_cons,
      foldl_nil, map_nil, not_mem_nil, nil_append]
    split <;> simp

theorem dotProduct_scalar (x : ℝ) :
    Proof.VectorEmbedding.dotProduct [(x : ℂ)] ((SegmentedEngine.scalar bits).exact quarters) =
      x * (bits.toNat / 4) := by
  rw [exact_scalar, Proof.VectorEmbedding.dotProduct_singleton]
  simp

/-- The active segment holds "b", the frozen one "a". -/
theorem answerWith_mixedOps (x y : ℝ) :
    ((new 1 4).run quarters mixedOps).answerWith quarters [(x : ℂ)] [(y : ℂ)] 1 =
      mergeResults 1 [("b", x * (3 / 4)), ("a", y * (4 / 4))] := by
  have active := @searchExact_single quarters
    ((new 1 4).run quarters mixedOps).engine.activeMutable.table _ _ rfl rfl [(x : ℂ)] 1
    Nat.one_ne_zero
  have frozen := @searchExact_single quarters
    (put slotNumbers "a" (SegmentedEngine.scalar 4) {}) _ _ rfl rfl [(y : ℂ)] 1
    Nat.one_ne_zero
  rw [dotProduct_scalar] at active frozen
  rw [answerWith, active]
  change mergeResults 1 (_ ++ [searchExact quarters _ 1
    (put slotNumbers "a" (SegmentedEngine.scalar 4) {})].flatten) = _
  rw [frozen]
  rfl

/-- A query of length two scores the active segment twice as high as the frozen one. -/
theorem long_query_ranks_differently : ∃ turns, ∀ fuel, turns ≤ fuel →
      ((new 1 4).run quarters mixedOps).searchWithContract quarters fuel (fun _ _ => []) .exact
          [((2 : ℝ) : ℂ)] 1 = some [("a", 2)] ∧
        ((new 1 4).run quarters mixedOps).searchWithContract quarters fuel (fun _ _ => [])
          .certified [((2 : ℝ) : ℂ)] 1 = some [("b", 3 / 2)] := by
  have sound := (sound_new 1 4 : Sound quarters _ _).run mixedOps_keeps
  obtain ⟨turns, found⟩ := @Sound.searchWithContract _ _ sound (fun _ _ => []) [((2 : ℝ) : ℂ)] rfl
    1 Nat.one_ne_zero
  have normalized : Proof.VectorEmbedding.intoNormalized [((2 : ℝ) : ℂ)] = [((1 : ℝ) : ℂ)] := by
    rw [Proof.VectorEmbedding.intoNormalized, Proof.VectorEmbedding.norm_singleton,
      Complex.norm_real, Real.norm_ofNat, if_neg (by norm_num)]
    simp
  refine ⟨turns, fun fuel enough => ⟨?_, ?_⟩⟩
  · rw [found fuel enough .exact, frozenQuery, answerWith_mixedOps,
      (@mergeResults_pair ("a", 2 * (4 / 4)) ("b", 2 * (3 / 4)) (by norm_num)).2]
    norm_num
  · rw [found fuel enough .certified, frozenQuery, normalized, answerWith_mixedOps,
      (@mergeResults_pair ("b", 2 * (3 / 4)) ("a", 1 * (4 / 4)) (by norm_num)).1]
    norm_num

end ContractEngine
end HoloSphere.Storage
