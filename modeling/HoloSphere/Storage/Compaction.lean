import HoloSphere.Storage.LiveVersions
import Mathlib.Data.List.Flatten

/-! # Compaction beside writers

`SegmentedEngine::compact` takes no lock over its whole run: it clones the list of
frozen segments, merges what it finds in them, and then overwrites the list.  Here
these are three steps with complete writer calls in between.  The clone shares its
segments with the engine, so the scan sees the tombstones of its own time; it is
kept as the ids of the segments.
-/

namespace HoloSphere.Storage
open Store List

inductive Phase where
  | idle
  | cloned (ids : List Nat)
  | merged (ids : List Nat) (tbl : SegmentTable)

def Phase.ids : Phase → List Nat
  | .idle => []
  | .cloned ids | .merged ids _ => ids

/-- The slots that a finished scan has copied; before it, any slot may still be. -/
def Phase.Copied : Phase → NodeId × VectorEmbedding → Prop
  | .merged _ tbl, entry => entry ∈ tbl.live slotNumbers
  | _, _ => True

def Phase.Sound : Phase → Prop
  | .merged _ tbl => tbl.Sound slotNumbers
  | _ => True

/-- An engine and the compaction that runs on it, if any. -/
structure OnlineEngine where
  engine : SegmentedEngine
  phase : Phase := .idle

namespace OnlineEngine

inductive Event where
  | insert (id : NodeId) (vec : VectorEmbedding)
  | delete (id : NodeId)
  | rotateActive
  | cloneList
  | scanAndMerge
  | swapList

def Event.isCompaction : Event → Bool
  | .cloneList | .scanAndMerge | .swapList => true
  | _ => false

def new (dim cap : Nat) : OnlineEngine := { engine := .new dim cap }

/-- The segments of a clone as they are now. -/
def shared (ids : List Nat) (eng : SegmentedEngine) : List ImmutableSegment :=
  eng.immutableSegments.filter fun seg => seg.id ∈ ids

/-- A compaction step out of its turn does nothing; fewer than two segments end the
    compaction at once. -/
def step (st : OnlineEngine) : Event → OnlineEngine
  | .insert id vec => { st with engine := (st.engine.insert id vec).1 }
  | .delete id => { st with engine := (st.engine.delete id).1 }
  | .rotateActive => { st with engine := st.engine.rotateActive }
  | .cloneList =>
    match st.phase with
    | .idle =>
      if st.engine.immutableSegments.length < 2 then st
      else { st with phase := .cloned (st.engine.immutableSegments.map (·.id)) }
    | _ => st
  | .scanAndMerge =>
    match st.phase with
    | .cloned ids =>
      { st with phase := .merged ids (SegmentedEngine.mergeSegments
          (shared ids st.engine)) }
    | _ => st
  | .swapList =>
    match st.phase with
    | .merged _ tbl => { engine := st.engine.swapCompacted tbl, phase := .idle }
    | _ => st

def run (st : OnlineEngine) (events : List Event) : OnlineEngine := events.foldl step st

/-- The id has a live slot with this vector in some segment. -/
def Live (st : OnlineEngine) (id : NodeId) (vec : VectorEmbedding) : Prop :=
  vec ∈ st.engine.versions id

/-- What a compaction step asks of the state before it: the scan meets no more live
    slots than slot numbers; at the swap no segment that came after the clone has a
    live slot, and every slot that was copied is still live. -/
def Undisturbed (st : OnlineEngine) : Event → Prop
  | .scanAndMerge =>
    match st.phase with
    | .cloned ids => ((shared ids st.engine).flatMap ImmutableSegment.liveSlots).length ≤
        slotNumbers
    | _ => True
  | .swapList =>
    match st.phase with
    | .merged ids tbl =>
      (∀ seg ∈ st.engine.immutableSegments, seg.id ∉ ids → seg.liveSlots = []) ∧
        ∀ entry ∈ tbl.live slotNumbers, ∃ seg ∈ st.engine.immutableSegments, entry ∈ seg.liveSlots
    | _ => True
  | _ => True

def UndisturbedThroughout (st : OnlineEngine) : List Event → Prop
  | [] => True
  | event :: rest => st.Undisturbed event ∧ (st.step event).UndisturbedThroughout rest

section

/-- How the segments of a clone stay known to the engine: no other segment gets their
    ids, and the live slots they still have are among the copied ones. -/
structure Sharing (ids : List Nat) (copied : NodeId × VectorEmbedding → Prop)
    (eng : SegmentedEngine) : Prop where
  frozen : ∀ seg ∈ eng.immutableSegments, seg.id < eng.nextSegmentId
  active : eng.activeMutable.id < eng.nextSegmentId
  apart : ∀ seg ∈ eng.immutableSegments, seg.id ≠ eng.activeMutable.id
  taken : ∀ id ∈ ids, id < eng.nextSegmentId
  outside : eng.activeMutable.id ∉ ids
  slots : ∀ seg ∈ eng.immutableSegments, seg.id ∈ ids → ∀ entry ∈ seg.liveSlots, copied entry

variable {copied : NodeId × VectorEmbedding → Prop} {eng : SegmentedEngine}

theorem Sharing.deleteInternal (h : Sharing ids copied eng) (id : NodeId) :
    Sharing ids copied (eng.deleteInternal id).1 := by
  have pre : ∀ seg ∈ (eng.deleteInternal id).1.immutableSegments,
      ∃ old ∈ eng.immutableSegments, seg = { old with table := old.table.kill id } := by
    intro seg mem
    rw [SegmentedEngine.deleteInternal_frozen] at mem
    obtain ⟨old, hin, rfl⟩ := mem_map.mp mem
    exact ⟨old, hin, rfl⟩
  refine ⟨?_, h.active, ?_, h.taken, h.outside, ?_⟩
  · intro seg mem
    obtain ⟨old, hin, rfl⟩ := pre seg mem
    exact h.frozen old hin
  · intro seg mem
    obtain ⟨old, hin, rfl⟩ := pre seg mem
    exact h.apart old hin
  · intro seg mem listed entry live
    obtain ⟨old, hin, rfl⟩ := pre seg mem
    exact h.slots old hin listed entry (SlotTable.mem_live_of_kill live)

theorem Sharing.rotateActive (h : Sharing ids copied eng) :
    Sharing ids copied eng.rotateActive := by
  refine ⟨?_, Nat.lt_succ_self _, ?_, ?_, ?_, ?_⟩
  · intro seg mem
    show seg.id < eng.nextSegmentId + 1
    rcases mem_append.mp mem with old | new
    · have below := h.frozen seg old
      omega
    · obtain rfl := mem_singleton.mp new
      exact Nat.lt_succ_of_lt h.active
  · intro seg mem
    rcases mem_append.mp mem with old | new
    · exact Nat.ne_of_lt (h.frozen seg old)
    · obtain rfl := mem_singleton.mp new
      exact Nat.ne_of_lt h.active
  · exact fun id mem => Nat.lt_succ_of_lt (h.taken id mem)
  · exact fun mem => Nat.lt_irrefl _ (h.taken _ mem)
  · intro seg mem listed
    rcases mem_append.mp mem with old | new
    · exact h.slots seg old listed
    · obtain rfl := mem_singleton.mp new
      exact absurd listed h.outside

theorem Sharing.of_active (h : Sharing ids copied eng) {active : MutableSegment}
    (same : active.id = eng.activeMutable.id) :
    Sharing ids copied { eng with activeMutable := active } := by
  refine ⟨h.frozen, ?_, ?_, h.taken, ?_, h.slots⟩
  · rw [same]
    exact h.active
  · rw [same]
    exact h.apart
  · rw [same]
    exact h.outside

theorem Sharing.insert (h : Sharing ids copied eng) (id : NodeId) (vec : VectorEmbedding) :
    Sharing ids copied (eng.insert id vec).1 := by
  have deleted := h.deleteInternal id
  have inserted := SegmentedEngine.insertActive_inserted id vec (eng.deleteInternal id).1
  rw [SegmentedEngine.insert]
  generalize (eng.deleteInternal id).1.insertActive id vec = ans at inserted ⊢
  cases inserted with
  | refused => exact deleted
  | rotated => exact deleted.rotateActive
  | renewed => exact deleted.rotateActive.of_active rfl
  | stored => exact deleted.of_active rfl

end

/-- The invariant: the engine holds the map, and a running compaction shares its
    segments. -/
structure Consistent (dim cap : Nat) (st : OnlineEngine) (cont : SegmentedEngine.Contents) :
    Prop where
  sized : st.engine.dimension = dim
  limited : st.engine.maxMutableCapacity = cap
  holds : st.engine.Holds cont
  sharing : Sharing st.phase.ids st.phase.Copied st.engine
  table : st.phase.Sound

theorem Consistent.new (dim : Nat) (bounded : cap ≤ slotNumbers) :
    Consistent dim cap (new dim cap) fun _ => none where
  sized := rfl
  limited := rfl
  holds := .new dim bounded
  sharing := by
    refine ⟨fun _ mem => ?_, Nat.lt_succ_self 1, fun _ mem => ?_, fun _ mem => ?_, ?_,
      fun _ mem => ?_⟩
    · cases mem
    · cases mem
    · cases mem
    · exact not_mem_nil
    · cases mem
  table := trivial

theorem mem_liveSlots {seg : ImmutableSegment} {id : NodeId} {vec : VectorEmbedding} :
    vec ∈ seg.table.versions slotNumbers id ↔ (id, vec) ∈ seg.liveSlots :=
  SlotTable.mem_versions

theorem mem_frozenVersions {eng : SegmentedEngine} {id : NodeId} {vec : VectorEmbedding} :
    vec ∈ eng.frozenVersions id ↔ ∃ seg ∈ eng.immutableSegments, (id, vec) ∈ seg.liveSlots := by
  unfold SegmentedEngine.frozenVersions
  simp [mem_liveSlots]

theorem eq_of_mem_iff {α : Type} {fst snd : List α} (short : fst.length ≤ 1)
    (short' : snd.length ≤ 1) (same : ∀ x, x ∈ fst ↔ x ∈ snd) : fst = snd := by
  match fst, snd with
  | [], [] => rfl
  | [], [y] => exact absurd ((same y).mpr mem_cons_self) not_mem_nil
  | [x], [] => exact absurd ((same x).mp mem_cons_self) not_mem_nil
  | [x], [y] =>
    have equal : x = y := mem_singleton.mp ((same x).mp mem_cons_self)
    rw [equal]

theorem Consistent.scanAndMerge (h : Consistent dim cap st cont) (phase : st.phase = .cloned ids)
    (fits : ((shared ids st.engine).flatMap ImmutableSegment.liveSlots).length ≤ slotNumbers) :
    Consistent dim cap { st with phase := .merged ids (SegmentedEngine.mergeSegments
      (shared ids st.engine)) } cont := by
  have sharing := h.sharing
  rw [phase] at sharing
  obtain ⟨sound, versions⟩ := SegmentedEngine.mergeSegments_versions fits
  refine { h with sharing := { sharing with slots := ?_ }, table := sound }
  rintro seg mem listed ⟨id, vec⟩ live
  have hin : seg ∈ shared ids st.engine := mem_filter.mpr ⟨mem, decide_eq_true listed⟩
  have part : ((shared ids st.engine).flatMap fun seg =>
      seg.table.versions slotNumbers id).length ≤ 1 :=
    Nat.le_trans (filter_sublist.flatMap _).length_le (h.holds.frozenVersions_length id)
  refine SlotTable.mem_versions.mp ?_
  rw [versions id part]
  exact mem_flatMap.mpr ⟨seg, hin, mem_liveSlots.mpr live⟩

/-- At an undisturbed swap the copied slots are the live slots of the whole list. -/
theorem Consistent.swapList (h : Consistent dim cap st cont) {ids : List Nat} {tbl : SegmentTable}
    (phase : st.phase = .merged ids tbl)
    (later : ∀ seg ∈ st.engine.immutableSegments, seg.id ∉ ids → seg.liveSlots = [])
    (still : ∀ entry ∈ tbl.live slotNumbers,
      ∃ seg ∈ st.engine.immutableSegments, entry ∈ seg.liveSlots) :
    Consistent dim cap ⟨st.engine.swapCompacted tbl, .idle⟩ cont := by
  have sharing := h.sharing
  have sound := h.table
  rw [phase] at sharing sound
  have same : ∀ id, tbl.versions slotNumbers id = st.engine.frozenVersions id := by
    intro id
    refine eq_of_mem_iff (sound.versions_length id) (h.holds.frozenVersions_length id) ?_
    intro vec
    rw [SlotTable.mem_versions, mem_frozenVersions]
    constructor
    · exact still (id, vec)
    · rintro ⟨seg, mem, live⟩
      have listed : seg.id ∈ ids := by
        by_contra outside
        rw [later seg mem outside] at live
        cases live
      exact sharing.slots seg mem listed (id, vec) live
  refine ⟨h.sized, h.limited, h.holds.swapCompacted sound same,
    ⟨?_, Nat.lt_succ_of_lt sharing.active, ?_, ?_, ?_, ?_⟩, trivial⟩
  · intro seg mem
    obtain rfl := mem_singleton.mp mem
    exact Nat.lt_succ_self _
  · intro seg mem
    obtain rfl := mem_singleton.mp mem
    exact Nat.ne_of_gt sharing.active
  · intro id mem
    cases mem
  · exact not_mem_nil
  · intro seg mem listed
    cases listed

theorem Consistent.cloneList (h : Consistent dim cap st cont) :
    Consistent dim cap { st with phase := .cloned (st.engine.immutableSegments.map (·.id)) }
      cont := by
  have sharing := h.sharing
  refine { h with
    sharing := { sharing with taken := ?_, outside := ?_, slots := ?_ }
    table := trivial }
  · intro id mem
    obtain ⟨seg, hin, rfl⟩ := mem_map.mp mem
    exact sharing.frozen seg hin
  · intro mem
    obtain ⟨seg, hin, same⟩ := mem_map.mp mem
    exact sharing.apart seg hin same
  · exact fun _ _ _ _ _ => trivial

/-- What an event writes; a compaction writes nothing. -/
def Event.write (dim cap : Nat) (cont : SegmentedEngine.Contents) : Event → SegmentedEngine.Contents
  | .insert id vec => Function.update cont id
      (if vec.dimension = dim ∧ 1 ≤ cap then some vec else none)
  | .delete id => Function.update cont id none
  | _ => cont

theorem Consistent.step (h : Consistent dim cap st cont) (undisturbed : st.Undisturbed event) :
    Consistent dim cap (st.step event) (event.write dim cap cont) := by
  cases event with
  | insert id vec =>
    obtain ⟨dimension, capacity⟩ :=
      SegmentedEngine.insertActive_config id vec (st.engine.deleteInternal id).1
    have written := (h.holds.insert id vec).1
    rw [SegmentedEngine.accepted, h.sized, h.limited] at written
    exact ⟨dimension.trans h.sized, capacity.trans h.limited, written, h.sharing.insert id vec,
      h.table⟩
  | delete id =>
    exact { h with holds := h.holds.deleteInternal id, sharing := h.sharing.deleteInternal id }
  | rotateActive =>
    exact { h with holds := h.holds.rotateActive, sharing := h.sharing.rotateActive }
  | cloneList =>
    unfold OnlineEngine.step
    cases phase : st.phase with
    | idle =>
      simp only
      split
      · exact h
      · exact h.cloneList
    | cloned | merged => exact h
  | scanAndMerge =>
    unfold OnlineEngine.step
    cases phase : st.phase with
    | cloned ids =>
      simp only [Undisturbed, phase] at undisturbed
      exact h.scanAndMerge phase undisturbed
    | idle | merged => exact h
  | swapList =>
    unfold OnlineEngine.step
    cases phase : st.phase with
    | merged ids tbl =>
      simp only [Undisturbed, phase] at undisturbed
      exact h.swapList phase undisturbed.1 undisturbed.2
    | idle | cloned => exact h

theorem Consistent.run (events : List Event) (h : Consistent dim cap st cont)
    (undisturbed : st.UndisturbedThroughout events) :
    Consistent dim cap (st.run events) (events.foldl (Event.write dim cap) cont) := by
  induction events generalizing st cont with
  | nil => exact h
  | cons event rest ih => exact ih (h.step undisturbed.1) undisturbed.2

def writersOnly (events : List Event) : List Event := events.filter fun event => !event.isCompaction

theorem foldl_write_writersOnly (dim cap : Nat) (cont : SegmentedEngine.Contents) :
    (writersOnly events).foldl (Event.write dim cap) cont =
      events.foldl (Event.write dim cap) cont := by
  induction events generalizing cont with
  | nil => rfl
  | cons event rest ih =>
    cases event with
    | insert | delete | rotateActive => exact ih _
    | cloneList | scanAndMerge | swapList => exact ih cont

theorem undisturbed_writersOnly (st : OnlineEngine) :
    st.UndisturbedThroughout (writersOnly events) := by
  induction events generalizing st with
  | nil => trivial
  | cons event rest ih =>
    cases event with
    | insert | delete | rotateActive => exact ⟨trivial, ih _⟩
    | cloneList | scanAndMerge | swapList => exact ih st

/-- With every swap undisturbed, the live slots are those of the run in which no
    compaction takes place. -/
theorem undisturbed_compaction_is_invisible (dim cap : Nat) (events : List Event)
    (bounded : cap ≤ slotNumbers)
    (undisturbed : (new dim cap).UndisturbedThroughout events) (id : NodeId)
    (vec : VectorEmbedding) :
    ((new dim cap).run events).Live id vec ↔
      ((new dim cap).run (writersOnly events)).Live id vec := by
  have online := (Consistent.new dim bounded).run events undisturbed
  have plain := (Consistent.new dim bounded).run (writersOnly events)
    (undisturbed_writersOnly _)
  rw [foldl_write_writersOnly] at plain
  unfold Live
  rw [online.holds.versions_eq id, plain.holds.versions_eq id]

instance (st : OnlineEngine) (id : NodeId) (vec : VectorEmbedding) :
    Decidable (st.Live id vec) := inferInstanceAs (Decidable (_ ∈ _))

open SegmentedEngine (scalar)

/-- Two frozen segments with one id each. -/
def twoSegments : List Event :=
  [.insert "a" (scalar 1), .rotateActive, .insert "b" (scalar 2), .rotateActive]

/-- Writers that touch neither the frozen ids nor the list. -/
def quietEvents : List Event :=
  twoSegments ++ [.cloneList, .delete "a", .scanAndMerge, .insert "c" (scalar 3), .swapList]

theorem quiet_compaction_is_invisible : (((new 1 4).run quietEvents).Live "b" (scalar 2) ↔
        ((new 1 4).run (writersOnly quietEvents)).Live "b" (scalar 2)) ∧
      ((new 1 4).run quietEvents).Live "b" (scalar 2) := by
  have undisturbed : (new 1 4).UndisturbedThroughout quietEvents := by
    refine ⟨trivial, trivial, trivial, trivial, trivial, trivial, ?_, trivial, ?_, trivial⟩
    · show length _ ≤ slotNumbers
      decide
    · refine ⟨?_, ?_⟩ <;> decide
  exact ⟨undisturbed_compaction_is_invisible 1 4 quietEvents (by decide) undisturbed "b"
    (scalar 2), by decide⟩

/-- A rotation between the clone and the swap. -/
def rotatedEvents : List Event :=
  twoSegments ++ [.cloneList, .insert "c" (scalar 3), .rotateActive, .scanAndMerge, .swapList]

/-- The rotated segment is overwritten with its only slot. -/
theorem rotation_before_swap_loses_id : ¬ (((new 1 4).run rotatedEvents).Live "c" (scalar 3) ↔
      ((new 1 4).run (writersOnly rotatedEvents)).Live "c" (scalar 3)) := by
  decide

/-- A delete between the scan and the swap is undone by the swap. -/
example : ¬ (((new 1 4).run
      (twoSegments ++ [.cloneList, .scanAndMerge, .delete "a", .swapList])).Live "a" (scalar 1) ↔
    ((new 1 4).run (twoSegments ++ [.delete "a"])).Live "a" (scalar 1)) := by
  decide

end OnlineEngine
end HoloSphere.Storage
