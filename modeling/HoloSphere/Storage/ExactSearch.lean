import HoloSphere.Storage.Contract
import HoloSphere.Storage.FailedInsert
import HoloSphere.Store.FirstOfKey
import Mathlib.Data.String.Basic

/-! # Exact search over segments

The contract `Exact` of `search_with_contract` with scores of any total order.  Each segment
gives its `k` best slots, where equal scores are ranked by slot, and only then are the results
of all segments ranked by score and id.  The answer is the ranking of all live ids exactly if
no segment has cut a result that belongs to it.
-/

namespace HoloSphere.Storage
open Store Proof SegmentTable List
variable {α θ : Type}

/-- A result of a search. -/
structure Hit (α : Type) where
  id : NodeId
  score : α
  deriving DecidableEq

namespace Hit

def key (hit : Hit α) : αᵒᵈ ×ₗ NodeId := toLex (OrderDual.toDual hit.score, hit.id)

theorem key_injective : Function.Injective (key : Hit α → αᵒᵈ ×ₗ NodeId) := by
  rintro ⟨id, score⟩ ⟨other, rival⟩ same
  cases same
  rfl

variable [LinearOrder α]

/-- The highest score comes first, and the smallest id among equal scores. -/
instance : LinearOrder (Hit α) := LinearOrder.lift' key key_injective

end Hit

namespace SegmentTable

def vectorAt (tbl : SegmentTable) (slot : NodeIndex) : VectorEmbedding :=
  (tbl.slots.getD slot ("", ⟨[]⟩)).2

def finalistAt (score : VectorEmbedding → α) (tbl : SegmentTable) (slot : NodeIndex) : Finalist α :=
  ⟨slot, score (vectorAt tbl slot)⟩

def hitAt (score : VectorEmbedding → α) (tbl : SegmentTable) (slot : NodeIndex) : Hit α :=
  ⟨idAt tbl slot, score (vectorAt tbl slot)⟩

def scanExact [LinearOrder α] (score : VectorEmbedding → α) (k : Nat) (tbl : SegmentTable) :
    List (Hit α) :=
  if k = 0 ∨ tbl.slots = [] then []
  else
    (best k ((liveSlots tbl).map (finalistAt score tbl))).map fun finalist =>
      ⟨idAt tbl finalist.slot, finalist.score⟩

def liveHits (score : VectorEmbedding → α) (tbl : SegmentTable) : List (Hit α) :=
  (tbl.live slotNumbers).map fun entry => ⟨entry.1, score entry.2⟩

end SegmentTable

namespace SegmentedEngine

def tables (eng : SegmentedEngine) : List SegmentTable :=
  eng.activeMutable.table :: eng.immutableSegments.map ImmutableSegment.table

variable [LinearOrder α]

/-- `search_with_contract` for `Exact`: the results of the segments are sorted, and the first of
    each id is kept until there are `k`. -/
def searchExact (score : VectorEmbedding → α) (k : Nat) (eng : SegmentedEngine) : List (Hit α) :=
  if k = 0 then []
  else (firstOfKey Hit.id (eng.tables.flatMap (scanExact score k))).take k

/-- What the search is for: the first `k` of all live ids. -/
def ranking (score : VectorEmbedding → α) (k : Nat) (eng : SegmentedEngine) : List (Hit α) :=
  (firstOfKey Hit.id (eng.tables.flatMap (liveHits score))).take k

/-- Some segment has a live slot for the hit, and fewer than `k` of its live slots are ranked
    before it: with a higher score, or with the same score and a smaller number. -/
def Reaches (score : VectorEmbedding → α) (k : Nat) (eng : SegmentedEngine) (hit : Hit α) : Prop :=
  ∃ tbl ∈ eng.tables, ∃ slot ∈ liveSlots tbl, hitAt score tbl slot = hit ∧
      ((liveSlots tbl).filter fun other =>
        finalistAt score tbl other < finalistAt score tbl slot).length < k

end SegmentedEngine

namespace SegmentTable
variable {hit : Hit α}

theorem hitAt_mem_liveHits (mem : slot ∈ liveSlots tbl) :
    hitAt score tbl slot ∈ liveHits score tbl := by
  obtain ⟨hin, alive⟩ := mem_filter.mp mem
  have small := mem_range.mp hin
  have below : slot < slotNumbers := Nat.lt_trans small (Nat.mod_lt _ (by decide))
  have within : slot < tbl.slots.length := Nat.lt_of_lt_of_le small (Nat.mod_le _ _)
  have live : tbl.liveAt slotNumbers slot = some tbl.slots[slot] := by
    rw [SlotTable.liveAt, Nat.mod_eq_of_lt below, if_neg (by simpa using alive),
      getElem?_eq_getElem within]
  refine mem_map.mpr ⟨tbl.slots[slot], SlotTable.mem_live.mpr ⟨slot, live⟩, ?_⟩
  simp [hitAt, idAt, vectorAt, within]

variable [LinearOrder α]

theorem mem_scanExact (some : k ≠ 0) : hit ∈ scanExact score k tbl ↔
      ∃ slot ∈ liveSlots tbl, hitAt score tbl slot = hit ∧ ((liveSlots tbl).filter fun other =>
          finalistAt score tbl other < finalistAt score tbl slot).length < k := by
  by_cases empty : tbl.slots = []
  · simp [scanExact, empty, liveSlots]
  · have scanned : ¬ (k = 0 ∨ tbl.slots = []) := by simp [some, empty]
    rw [scanExact, if_neg scanned, mem_map]
    constructor
    · rintro ⟨finalist, selected, rfl⟩
      obtain ⟨mem, few⟩ := mem_best_iff.mp selected
      obtain ⟨slot, live, rfl⟩ := mem_map.mp mem
      refine ⟨slot, live, rfl, ?_⟩
      rw [filter_map, length_map] at few
      exact few
    · rintro ⟨slot, live, rfl, few⟩
      refine ⟨finalistAt score tbl slot, mem_best_iff.mpr ⟨mem_map_of_mem live, ?_⟩, rfl⟩
      rw [filter_map, length_map]
      exact few

end SegmentTable

namespace SegmentedEngine
variable {score : VectorEmbedding → α} {eng : SegmentedEngine}

theorem mem_liveHits : hit ∈ eng.tables.flatMap (liveHits score) ↔
      ∃ vec ∈ eng.versions hit.id, score vec = hit.score := by
  have one : ∀ tbl : SegmentTable, hit ∈ liveHits score tbl ↔
      ∃ vec ∈ tbl.versions slotNumbers hit.id, score vec = hit.score := by
    intro tbl
    simp only [liveHits, mem_map, SlotTable.mem_versions]
    constructor
    · rintro ⟨⟨id, vec⟩, live, rfl⟩
      exact ⟨vec, live, rfl⟩
    · rintro ⟨vec, live, same⟩
      exact ⟨(hit.id, vec), live, by simp [same]⟩
  simp only [mem_flatMap, tables, mem_cons, mem_map, exists_eq_or_imp, one, versions, mem_append]
  constructor
  · rintro (⟨vec, live, same⟩ | ⟨tbl, ⟨seg, mem, rfl⟩, vec, live, same⟩)
    · exact ⟨vec, .inl live, same⟩
    · exact ⟨vec, .inr ⟨seg, mem, live⟩, same⟩
  · rintro ⟨vec, live | ⟨seg, mem, live⟩, same⟩
    · exact .inl ⟨vec, live, same⟩
    · exact .inr ⟨seg.table, ⟨seg, mem, rfl⟩, vec, live, same⟩

variable [LinearOrder α]

theorem ranking_congr {other : SegmentedEngine}
    (same : ∀ id vec, vec ∈ other.versions id ↔ vec ∈ eng.versions id) :
    other.ranking score k = eng.ranking score k := by
  rw [ranking, ranking, firstOfKey_congr]
  intro hit
  rw [mem_liveHits, mem_liveHits]
  simp [same]

theorem searchExact_eq_ranking (some : k ≠ 0) : eng.searchExact score k = eng.ranking score k ↔
      ∀ hit ∈ eng.ranking score k, eng.Reaches score k hit := by
  have part : eng.tables.flatMap (scanExact score k) ⊆ eng.tables.flatMap (liveHits score) := by
    intro hit mem
    obtain ⟨tbl, held, scanned⟩ := mem_flatMap.mp mem
    obtain ⟨slot, live, rfl, -⟩ := (mem_scanExact some).mp scanned
    exact mem_flatMap.mpr ⟨tbl, held, hitAt_mem_liveHits live⟩
  rw [searchExact, if_neg some, ranking, take_firstOfKey_eq_iff part]
  simp [mem_scanExact some, Reaches]

/-- The answer is the ranking of the live ids exactly if each of them is within the first `k`
    slots of a segment.  Neither a rotation nor a compaction changes the ranking. -/
theorem exact_search_ranks_live_ids_iff (score : θ → VectorEmbedding → α) (qry : θ) (k : Nat)
    (eng : SegmentedEngine) :
    (eng.searchExact (score qry) k = eng.ranking (score qry) k ↔
      ∀ hit ∈ eng.ranking (score qry) k, eng.Reaches (score qry) k hit) ∧
    eng.rotateActive.ranking (score qry) k = eng.ranking (score qry) k ∧
    ∀ cont, eng.Holds cont →
      (eng.immutableSegments.flatMap ImmutableSegment.liveSlots).length ≤ slotNumbers →
      eng.compact.1.ranking (score qry) k = eng.ranking (score qry) k := by
  refine ⟨?_, ?_, fun cont holds fits => ?_⟩
  · by_cases none : k = 0
    · simp [searchExact, ranking, none]
    · exact searchExact_eq_ranking none
  · exact ranking_congr fun id vec => (versions_rotateActive id eng).mem_iff
  · refine ranking_congr fun id vec => ?_
    rw [(holds.compact fits).versions_eq, holds.versions_eq]

def alwaysZero (_ _ : VectorEmbedding) : Nat := 0

/-- Two ids of the same score, in one segment or in two, the larger one first. -/
def tied (rotated : Bool) : SegmentedEngine :=
  let fst := ((new 0 2).insert "b" ⟨[]⟩).1
  ((if rotated then fst.rotateActive else fst).insert "a" ⟨[]⟩).1

theorem ties_in_two_segments_are_ranked :
    (tied true).searchExact (alwaysZero ⟨[]⟩) 1 = (tied true).ranking (alwaysZero ⟨[]⟩) 1 := by
  refine (exact_search_ranks_live_ids_iff alwaysZero ⟨[]⟩ 1 (tied true)).1.mpr ?_
  unfold Reaches
  decide +kernel

/-- The segment keeps the smaller slot, which has the larger id. -/
theorem tie_in_one_segment_drops_the_smaller_id :
    (tied false).searchExact (alwaysZero ⟨[]⟩) 1 = [⟨"b", 0⟩] ∧
      (tied false).ranking (alwaysZero ⟨[]⟩) 1 = [⟨"a", 0⟩] := by
  decide +kernel

end SegmentedEngine
end HoloSphere.Storage
