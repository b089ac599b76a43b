import HoloSphere.Storage.LoggedEngine
import Mathlib.Algebra.GroupWithZero.Nat
import Mathlib.Algebra.Order.BigOperators.Group.List
import Mathlib.Algebra.Order.Group.Multiset
import Mathlib.Algebra.Order.Group.Nat
import Mathlib.Data.Finset.Card

/-! # What a refused insert leaves behind

`insert` and `apply_committed_upsert` bury the stored version of the id before the new
vector is looked at.  When the vector is then refused, the version is gone.  An engine
comes out of a refused call as it went in exactly if it had no version of the id to bury.
-/

namespace HoloSphere.Store.SlotTable
variable {κ ν : Type}

theorem cleared_of_card_kill {tbl : SlotTable κ ν}
    (same : (tbl.kill key).tombstones.card ≤ tbl.tombstones.card) : tbl.Cleared key := by
  intro slot found
  by_contra alive
  rw [kill_tombstones found, Finset.card_insert_of_notMem alive] at same
  omega

end HoloSphere.Store.SlotTable

namespace HoloSphere.Storage
open Store Consensus
namespace SegmentedEngine

/-- The segments with their numbers, the active one first. -/
def segments (eng : SegmentedEngine) : List (Nat × SegmentTable) :=
  (eng.activeMutable.id, eng.activeMutable.table) ::
    eng.immutableSegments.map fun seg => (seg.id, seg.table)

def tombstones (eng : SegmentedEngine) : Multiset (Nat × Nat) :=
  (eng.segments.map fun seg => seg.2.tombstones.val.map (Prod.mk seg.1)).sum

/-- Two engines with the same live vectors, metadata and tombstones. -/
structure SameContents (pre after : SegmentedEngine) : Prop where
  versions : ∀ id, (after.versions id).Perm (pre.versions id)
  metadata : after.metadataStore = pre.metadataStore
  tombstones : after.tombstones = pre.tombstones

/-- No segment holds a version of the id that is not buried. -/
def Unstored (id : NodeId) (eng : SegmentedEngine) : Prop := ∀ seg ∈ eng.segments, seg.2.Cleared id

/-- The vector has the dimension of the active segment, which has room or can be replaced
    by a new one that takes the vector. -/
def Takes (vec : VectorEmbedding) (eng : SegmentedEngine) : Prop :=
  vec.dimension = eng.activeMutable.dimension ∧
    (eng.activeMutable.table.slots.length < eng.activeMutable.maxCapacity ∨
      vec.dimension = eng.dimension ∧ 1 ≤ eng.maxMutableCapacity)

/-- A call that returns an error has changed nothing. -/
def FailsCleanly (pre : SegmentedEngine) (outc : SegmentedEngine × Except HNSQRError Unit) : Prop :=
  ∀ failure, outc.2 = .error failure → SameContents pre outc.1

theorem SameContents.refl (eng : SegmentedEngine) : SameContents eng eng :=
  ⟨fun _ => .refl _, rfl, rfl⟩

variable (id : NodeId) (eng : SegmentedEngine)

theorem segments_deleteInternal :
    (eng.deleteInternal id).1.segments = eng.segments.map fun seg => (seg.1, seg.2.kill id) := by
  simp [segments, deleteInternal, MutableSegment.delete, ImmutableSegment.delete, Function.comp_def]

theorem deleteInternal_of_unstored {id : NodeId} {eng : SegmentedEngine}
    (unstored : eng.Unstored id) : (eng.deleteInternal id).1 = eng := by
  have active : eng.activeMutable.table.kill id = eng.activeMutable.table :=
    (unstored _ List.mem_cons_self).kill
  have frozen : eng.immutableSegments.map (fun seg => (ImmutableSegment.delete id seg).1) =
      eng.immutableSegments := by
    refine (List.map_congr_left ?_).trans (List.map_id _)
    intro seg mem
    have cleared : seg.table.Cleared id :=
      unstored (seg.id, seg.table) (List.mem_cons_of_mem _ (List.mem_map_of_mem mem))
    simp [ImmutableSegment.delete, cleared.kill]
  simp [deleteInternal, MutableSegment.delete, active, Function.comp_def, frozen]

theorem card_tombstones :
    eng.tombstones.card = (eng.segments.map fun seg => seg.2.tombstones.card).sum := by
  have total := map_list_sum (Multiset.cardHom : Multiset (Nat × Nat) →+ Nat)
    (eng.segments.map fun seg => seg.2.tombstones.val.map (Prod.mk seg.1))
  simpa [tombstones, Function.comp_def] using total

/-- A deletion that adds no tombstone found no version to bury. -/
theorem unstored_of_tombstones {id : NodeId} {eng : SegmentedEngine}
    (same : (eng.deleteInternal id).1.tombstones = eng.tombstones) :
    eng.Unstored id := by
  have counts := congrArg Multiset.card same
  rw [card_tombstones, card_tombstones, segments_deleteInternal, List.map_map] at counts
  intro seg mem
  by_contra stored
  refine absurd counts (Nat.ne_of_gt (List.sum_lt_sum _ _ ?_ ?_))
  · intro other _
    exact Finset.card_le_card other.2.tombstones_subset_kill
  · refine ⟨seg, mem, ?_⟩
    by_contra same
    exact stored (SlotTable.cleared_of_card_kill (Nat.le_of_not_lt same))

theorem tombstones_rotateActive : eng.rotateActive.tombstones = eng.tombstones := by
  simp [tombstones, segments, rotateActive, MutableSegment.new, ImmutableSegment.freeze,
    Function.comp_def, add_comm]

theorem versions_rotateActive : (eng.rotateActive.versions id).Perm (eng.versions id) := by
  simp [versions, rotateActive, MutableSegment.new, ImmutableSegment.freeze, SlotTable.versions,
    SlotTable.live, List.perm_append_comm]

theorem SameContents.rotateActive : SameContents eng eng.rotateActive :=
  ⟨fun id => versions_rotateActive id eng, rfl, tombstones_rotateActive eng⟩

/-- An insertion is refused exactly if the engine does not take the vector, and then at most
    a rotation has taken place. -/
theorem insertActive_refused (vec : VectorEmbedding) (eng : SegmentedEngine) :
    (eng.Takes vec ∧ (eng.insertActive id vec).2 = .ok ()) ∨ (¬ eng.Takes vec ∧
        (∃ failure, (eng.insertActive id vec).2 = .error failure) ∧
        ((eng.insertActive id vec).1 = eng ∨ (eng.insertActive id vec).1 = eng.rotateActive)) := by
  have inserted := insertActive_inserted id vec eng
  generalize eng.insertActive id vec = ans at inserted ⊢
  unfold Takes
  cases inserted with
  | refused e apart => exact .inr ⟨fun takes => apart takes.1, ⟨e, rfl⟩, .inl rfl⟩
  | rotated e same full unfit =>
    refine .inr ⟨?_, ⟨e, rfl⟩, .inr rfl⟩
    rintro ⟨-, room | fit⟩
    · omega
    · exact unfit fit
  | renewed same full fit => exact .inl ⟨⟨same, .inr fit⟩, rfl⟩
  | stored same room => exact .inl ⟨⟨same, .inl room⟩, rfl⟩

theorem takes_deleteInternal : (eng.deleteInternal id).1.Takes vec ↔ eng.Takes vec := by
  simp [Takes, deleteInternal, MutableSegment.delete]

/-- The upsert that `insert` and `apply_committed_upsert` share. -/
theorem failsCleanly_insert :
    FailsCleanly eng (eng.insert id vec) ↔ eng.Takes vec ∨ eng.Unstored id := by
  have refusal := insertActive_refused id vec (eng.deleteInternal id).1
  rw [takes_deleteInternal] at refusal
  unfold SegmentedEngine.insert FailsCleanly
  rcases refusal with ⟨taken, done⟩ | ⟨refused, ⟨failure, failed⟩, left⟩
  · simp [taken, done]
  · simp only [refused, failed, Except.error.injEq, forall_eq', false_or]
    constructor
    · intro same
      refine unstored_of_tombstones ?_
      rcases left with kept | rotated
      · rw [← same.tombstones, kept]
      · rw [← same.tombstones, rotated, tombstones_rotateActive]
    · intro unstored
      rw [deleteInternal_of_unstored unstored] at left ⊢
      rcases left with kept | rotated
      · rw [kept]
        exact .refl eng
      · rw [rotated]
        exact .rotateActive eng

theorem failsCleanly_applyCommittedUpsert (md : Option Metadata) (eng : SegmentedEngine) :
    FailsCleanly eng (eng.applyCommittedUpsert id vec md) ↔
      FailsCleanly eng (eng.insert id vec) := by
  obtain ⟨metadata, upserted, same⟩ := applyCommittedUpsert_eq id vec md eng
  rw [upserted]
  rcases same with done | rfl
  · simp [FailsCleanly, done]
  · rfl

end SegmentedEngine

namespace LoggedEngine
open SegmentedEngine (FailsCleanly)

/-- A refused insert changes nothing exactly if the engine had no version of the id or the
    write to the log failed before the engine was touched. -/
theorem failed_insert_changes_nothing_iff (serde : Serde WalMutation) (id : NodeId)
    (vec : VectorEmbedding) (md : Option Metadata) (disk : DiskOutcome)
    (logged : LoggedEngine) :
    (FailsCleanly logged.engine (logged.engine.insert id vec) ↔
      logged.engine.Takes vec ∨ logged.engine.Unstored id) ∧
    (FailsCleanly logged.engine (logged.engine.applyCommittedUpsert id vec md) ↔
      logged.engine.Takes vec ∨ logged.engine.Unstored id) ∧
    (FailsCleanly logged.engine ((logged.insert serde id vec disk).1.engine,
        (logged.insert serde id vec disk).2) ↔
      (∃ failure, (logged.wal.append serde (.upsert id vec none) logged.walDurability disk).2 =
        .error failure) ∨
      logged.engine.Takes vec ∨ logged.engine.Unstored id) := by
  refine ⟨SegmentedEngine.failsCleanly_insert id logged.engine,
    (SegmentedEngine.failsCleanly_applyCommittedUpsert id md logged.engine).trans
      (SegmentedEngine.failsCleanly_insert id logged.engine), ?_⟩
  unfold LoggedEngine.insert
  rcases logged.wal.append serde (.upsert id vec none) logged.walDurability disk with
    ⟨wal, failure | lsn⟩
  · simpa [FailsCleanly] using SegmentedEngine.SameContents.refl logged.engine
  · simpa using SegmentedEngine.failsCleanly_insert id logged.engine

end LoggedEngine

namespace SegmentedEngine

/-- An engine of dimension one that has stored one vector. -/
def oneVector : SegmentedEngine := ((new 1 10).insert "a" ⟨[(0, 0)]⟩).1

/-- A vector of the wrong dimension is refused, and the stored version of its id is gone. -/
theorem refused_vector_buries_the_stored_one : oneVector.versions "a" = [⟨[(0, 0)]⟩] ∧
      (oneVector.insert "a" ⟨[]⟩).2 = .error (.dimensionMismatch 1 0) ∧
      (oneVector.insert "a" ⟨[]⟩).1.versions "a" = [] ∧
      (oneVector.insert "a" ⟨[]⟩).1.tombstones ≠ oneVector.tombstones := by
  decide

end SegmentedEngine
end HoloSphere.Storage
