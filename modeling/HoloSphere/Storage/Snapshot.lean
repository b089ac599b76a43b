import HoloSphere.Storage.LiveVersions

/-! # Snapshots of the engine

`SegmentedEngine::snapshot` copies the active segment but clones only the pointers of
the frozen ones, and the tombstones of a frozen segment stay writable.  So the frozen
segments live in a heap of shared allocations here, and the engine and its snapshots
hold addresses.  Read through its addresses, the engine is the one whose list holds the
segments themselves.  A snapshot keeps what it ranks over exactly as long as no write goes
to an id that is live in a segment which both sides still hold.
-/

namespace HoloSphere.Storage
open SegmentedEngine (Op scalar)

/-- What an exact search of a segment ranks over: the range ends at the number of
    vectors as a `u32` has it. -/
def ImmutableSegment.ranked (seg : ImmutableSegment) : List (NodeId × VectorEmbedding) :=
  (List.range (seg.table.slots.length % slotNumbers)).filterMap
    (seg.table.liveAt slotNumbers)

/-- The engine with its frozen segments behind pointers. -/
structure SharedEngine where
  dimension : Nat
  maxMutableCapacity : Nat
  nextSegmentId : Nat
  activeMutable : MutableSegment
  heap : List ImmutableSegment
  immutableSegments : List Nat
  metadataStore : NodeId → Option Metadata
  allocated : ∀ addr ∈ immutableSegments, addr < heap.length

/-- The frozen segments by pointer, the active one as a copy of its own. -/
structure ImmutableVectorSnapshot where
  dimension : Nat
  immutableSegments : List Nat
  activeSnapshot : ImmutableSegment

namespace SharedEngine

/-- The segments that some pointers lead to. -/
def pointees (addrs : List Nat) (heap : List ImmutableSegment) : List ImmutableSegment :=
  addrs.filterMap fun addr => heap[addr]?

def new (dim maxMutableCapacity : Nat) : SharedEngine where
  dimension := dim
  maxMutableCapacity := maxMutableCapacity
  nextSegmentId := 2
  activeMutable := .new 1 dim maxMutableCapacity
  heap := []
  immutableSegments := []
  metadataStore := fun _ => none
  allocated _ mem := by cases mem

/-- The delete reaches every allocation that the engine points at. -/
def deleteInternal (id : NodeId) (st : SharedEngine) : SharedEngine where
  dimension := st.dimension
  maxMutableCapacity := st.maxMutableCapacity
  nextSegmentId := st.nextSegmentId
  activeMutable := (st.activeMutable.delete id).1
  heap := st.heap.mapIdx fun addr seg =>
    if addr ∈ st.immutableSegments then (seg.delete id).1 else seg
  immutableSegments := st.immutableSegments
  metadataStore := st.metadataStore
  allocated addr mem := by
    rw [List.length_mapIdx]
    exact st.allocated addr mem

def rotateActive (st : SharedEngine) : SharedEngine where
  dimension := st.dimension
  maxMutableCapacity := st.maxMutableCapacity
  nextSegmentId := st.nextSegmentId + 1
  activeMutable := .new st.nextSegmentId st.dimension st.maxMutableCapacity
  heap := st.heap ++ [.freeze st.activeMutable]
  immutableSegments := st.immutableSegments ++ [st.heap.length]
  metadataStore := st.metadataStore
  allocated addr mem := by
    rw [List.length_append, List.length_singleton]
    rcases List.mem_append.mp mem with old | new
    · exact Nat.lt_succ_of_lt (st.allocated addr old)
    · rw [List.mem_singleton.mp new]
      exact Nat.lt_succ_self _

def insertActive (id : NodeId) (vec : VectorEmbedding) (st : SharedEngine) :
    SharedEngine × Except HNSQRError Unit :=
  match st.activeMutable.insert id vec with
  | .ok (active, _) => ({ st with activeMutable := active }, .ok ())
  | .error (.indexFull _) =>
    let rotated := st.rotateActive
    match rotated.activeMutable.insert id vec with
    | .ok (active, _) => ({ rotated with activeMutable := active }, .ok ())
    | .error e => (rotated, .error e)
  | .error e => (st, .error e)

/-- `insert` on an engine without a write-ahead log. -/
def insert (id : NodeId) (vec : VectorEmbedding) (st : SharedEngine) :
    SharedEngine × Except HNSQRError Unit :=
  (st.deleteInternal id).insertActive id vec

/-- `delete` on an engine without a write-ahead log. -/
def delete (id : NodeId) (st : SharedEngine) : SharedEngine := st.deleteInternal id

def applyCommittedUpsert (id : NodeId) (vec : VectorEmbedding) (md : Option Metadata)
    (st : SharedEngine) : SharedEngine × Except HNSQRError Unit :=
  match (st.deleteInternal id).insertActive id vec with
  | (written, .ok ()) =>
    match md with
    | none => (written, .ok ())
    | some fields =>
      ({ written with metadataStore := Function.update written.metadataStore id (some fields) },
        .ok ())
  | (written, .error e) => (written, .error e)

def applyDeleteUnlogged (id : NodeId) (st : SharedEngine) : SharedEngine :=
  { st with metadataStore := Function.update st.metadataStore id none }.deleteInternal id

/-- The compacted segment is a new allocation; the old ones stay with who points at them. -/
def compact (st : SharedEngine) : SharedEngine :=
  if st.immutableSegments.length < 2 then st
  else
    { dimension := st.dimension
      maxMutableCapacity := st.maxMutableCapacity
      nextSegmentId := st.nextSegmentId + 1
      activeMutable := st.activeMutable
      heap := st.heap ++ [⟨st.nextSegmentId, st.dimension,
        SegmentedEngine.mergeSegments (pointees st.immutableSegments st.heap)⟩]
      immutableSegments := [st.heap.length]
      metadataStore := st.metadataStore
      allocated := fun addr mem => by
        rw [List.mem_singleton.mp mem, List.length_append, List.length_singleton]
        exact Nat.lt_succ_self _ }

def snapshot (st : SharedEngine) : ImmutableVectorSnapshot :=
  ⟨st.dimension, st.immutableSegments, .freeze st.activeMutable⟩

def step (st : SharedEngine) : Op → SharedEngine
  | .insert id vec => (st.insert id vec).1
  | .delete id => st.delete id
  | .applyCommittedUpsert id vec md => (st.applyCommittedUpsert id vec md).1
  | .applyDeleteUnlogged id => st.applyDeleteUnlogged id
  | .rotateActive => st.rotateActive
  | .compact => st.compact

def run (st : SharedEngine) (ops : List Op) : SharedEngine := ops.foldl step st

end SharedEngine

/-- The live pairs that an exact search of the snapshot ranks over, with the frozen
    segments as they are in the heap now. -/
def ImmutableVectorSnapshot.ranked (snapshot : ImmutableVectorSnapshot)
    (heap : List ImmutableSegment) : List (NodeId × VectorEmbedding) :=
  (SharedEngine.pointees snapshot.immutableSegments heap).flatMap ImmutableSegment.ranked ++
    snapshot.activeSnapshot.ranked

namespace SharedEngine
variable {st : SharedEngine}

/-- The engine with its frozen segments in its own list. -/
def view (st : SharedEngine) : SegmentedEngine where
  dimension := st.dimension
  maxMutableCapacity := st.maxMutableCapacity
  nextSegmentId := st.nextSegmentId
  activeMutable := st.activeMutable
  immutableSegments := pointees st.immutableSegments st.heap
  metadataStore := st.metadataStore

theorem pointees_append {addrs : List Nat} {heap : List ImmutableSegment}
    (inHeap : ∀ addr ∈ addrs, addr < heap.length) :
    pointees addrs (heap ++ [seg]) = pointees addrs heap :=
  List.filterMap_congr fun addr mem => List.getElem?_append_left (inHeap addr mem)

theorem view_deleteInternal (id : NodeId) (st : SharedEngine) :
    (st.deleteInternal id).view = (st.view.deleteInternal id).1 := by
  have frozen : pointees st.immutableSegments (st.deleteInternal id).heap =
      (pointees st.immutableSegments st.heap).map fun seg => (seg.delete id).1 := by
    rw [pointees, pointees, List.map_filterMap]
    refine List.filterMap_congr fun addr mem => ?_
    simp [deleteInternal, mem]
  simp only [view, SegmentedEngine.deleteInternal, List.map_map]
  exact congrArg (SegmentedEngine.mk _ _ _ _ · _) frozen

theorem view_rotateActive : st.rotateActive.view = st.view.rotateActive := by
  have frozen : pointees st.rotateActive.immutableSegments st.rotateActive.heap =
      pointees st.immutableSegments st.heap ++ [.freeze st.activeMutable] := by
    rw [rotateActive, pointees, List.filterMap_append, ← pointees, pointees_append st.allocated]
    simp
  exact congrArg (SegmentedEngine.mk _ _ _ _ · _) frozen

theorem view_insertActive (id : NodeId) (vec : VectorEmbedding) (st : SharedEngine) :
    ((st.insertActive id vec).1.view, (st.insertActive id vec).2) =
      st.view.insertActive id vec := by
  have active : ∀ st : SharedEngine, st.view.activeMutable = st.activeMutable := fun _ => rfl
  simp only [insertActive, SegmentedEngine.insertActive, ← view_rotateActive, active]
  cases st.activeMutable.insert id vec with
  | ok => rfl
  | error e =>
    cases e with
    | indexFull =>
      dsimp only
      cases st.rotateActive.activeMutable.insert id vec with
      | ok | error => rfl
    | _ => rfl

theorem view_applyCommittedUpsert (id : NodeId) (vec : VectorEmbedding) (md : Option Metadata) :
    (st.applyCommittedUpsert id vec md).1.view = (st.view.applyCommittedUpsert id vec md).1 := by
  rw [applyCommittedUpsert, SegmentedEngine.applyCommittedUpsert,
    SegmentedEngine.applyUpsertUnlogged, ← view_deleteInternal, ← view_insertActive]
  generalize (st.deleteInternal id).insertActive id vec = ans
  obtain ⟨next, res⟩ := ans
  cases res with
  | error => rfl
  | ok => cases md <;> rfl

theorem view_compact : st.compact.view = st.view.compact.1 := by
  have size : (pointees st.immutableSegments st.heap).length = st.immutableSegments.length := by
    refine List.filterMap_length_eq_length.mpr fun addr mem => ?_
    simpa using st.allocated addr mem
  rw [compact, SegmentedEngine.compact]
  simp only [view, size]
  split
  · rfl
  · simp [pointees, SegmentedEngine.swapCompacted]

/-- The engine with pointers does what the engine with its own segments does. -/
theorem view_run (ops : List Op) : (st.run ops).view = st.view.run ops := by
  induction ops generalizing st with
  | nil => rfl
  | cons op rest ih =>
    have one : (st.step op).view = st.view.step op := by
      cases op with
      | insert id vec =>
        rw [step, insert, SegmentedEngine.step, SegmentedEngine.insert, ← view_deleteInternal,
          ← view_insertActive]
      | delete id => exact view_deleteInternal id st
      | applyCommittedUpsert id vec md => exact view_applyCommittedUpsert id vec md
      | applyDeleteUnlogged id => exact view_deleteInternal id _
      | rotateActive => exact view_rotateActive
      | compact => exact view_compact
    exact ih.trans (congrArg (·.run rest) one)

/-- The id is not live in a frozen segment that the engine holds at one of the addresses. -/
def SparesShared (id : NodeId) (addrs : List Nat) (st : SharedEngine) : Prop :=
  ∀ addr ∈ addrs, addr ∈ st.immutableSegments → ∀ seg ∈ st.heap[addr]?, seg.table.Cleared id

/-- What a write asks of the state before it: its id is not live in a frozen segment
    that the snapshot and the engine both hold. -/
def Untouched (snapshot : ImmutableVectorSnapshot) (st : SharedEngine) : Op → Prop
  | .insert id _ | .delete id | .applyCommittedUpsert id _ _ | .applyDeleteUnlogged id =>
    SparesShared id snapshot.immutableSegments st
  | .rotateActive | .compact => True

instance (id : NodeId) (addrs : List Nat) (st : SharedEngine) :
    Decidable (SparesShared id addrs st) :=
  inferInstanceAs (Decidable (∀ addr ∈ addrs, addr ∈ st.immutableSegments →
    ∀ seg ∈ st.heap[addr]?, seg.table.Cleared id))

instance (snapshot : ImmutableVectorSnapshot) (st : SharedEngine) (op : Op) :
    Decidable (Untouched snapshot st op) :=
  match op with
  | .insert .. | .delete _ | .applyCommittedUpsert .. | .applyDeleteUnlogged _ =>
    inferInstanceAs (Decidable (SparesShared _ snapshot.immutableSegments st))
  | .rotateActive | .compact => inferInstanceAs (Decidable True)

def UntouchedThroughout (snapshot : ImmutableVectorSnapshot) (st : SharedEngine) : List Op → Prop
  | [] => True
  | op :: rest => st.Untouched snapshot op ∧ (st.step op).UntouchedThroughout snapshot rest

/-- The allocations at these addresses are the same before and after. -/
structure Keeps (addrs : List Nat) (pre after : SharedEngine) : Prop where
  longer : pre.heap.length ≤ after.heap.length
  cells : ∀ addr ∈ addrs, after.heap[addr]? = pre.heap[addr]?

variable {addrs : List Nat}

theorem Keeps.refl (st : SharedEngine) : Keeps addrs st st := ⟨le_rfl, fun _ _ => rfl⟩

theorem Keeps.trans (fst : Keeps addrs pre middle) (snd : Keeps addrs middle after) :
    Keeps addrs pre after :=
  ⟨fst.longer.trans snd.longer, fun addr mem => (snd.cells addr mem).trans (fst.cells addr mem)⟩

variable {snapshot : ImmutableVectorSnapshot}

theorem Keeps.ranked (keeps : Keeps snapshot.immutableSegments pre after) :
    snapshot.ranked after.heap = snapshot.ranked pre.heap := by
  have same : pointees snapshot.immutableSegments after.heap =
      pointees snapshot.immutableSegments pre.heap :=
    List.filterMap_congr keeps.cells
  rw [ImmutableVectorSnapshot.ranked, same, ImmutableVectorSnapshot.ranked]

theorem keeps_deleteInternal {id : NodeId} (untouched : SparesShared id addrs st) :
    Keeps addrs st (st.deleteInternal id) := by
  constructor
  · simp [deleteInternal]
  · intro addr mem
    simp only [deleteInternal, List.getElem?_mapIdx]
    cases found : st.heap[addr]? with
    | none => rfl
    | some seg =>
      by_cases shared : addr ∈ st.immutableSegments
      · have spared := untouched addr mem shared seg found
        simp [shared, ImmutableSegment.delete, spared.kill]
      · simp [shared]

variable (inHeap : ∀ addr ∈ addrs, addr < st.heap.length)
include inHeap

theorem keeps_rotateActive : Keeps addrs st st.rotateActive := by
  constructor
  · simp [rotateActive]
  · intro addr mem
    exact List.getElem?_append_left (inHeap addr mem)

theorem keeps_compact : Keeps addrs st st.compact := by
  unfold compact
  split
  · exact .refl st
  · constructor
    · simp
    · intro addr mem
      exact List.getElem?_append_left (inHeap addr mem)

theorem keeps_insertActive (id : NodeId) : Keeps addrs st (st.insertActive id vec).1 := by
  have rotated := keeps_rotateActive inHeap
  unfold insertActive
  cases st.activeMutable.insert id vec with
  | ok => exact ⟨le_rfl, fun _ _ => rfl⟩
  | error e =>
    cases e with
    | indexFull =>
      dsimp only
      cases st.rotateActive.activeMutable.insert id vec with
      | ok => exact ⟨rotated.longer, rotated.cells⟩
      | error => exact rotated
    | _ => exact .refl st

theorem keeps_write (id : NodeId) (vec : VectorEmbedding) (untouched : SparesShared id addrs st) :
    Keeps addrs st ((st.deleteInternal id).insertActive id vec).1 := by
  have deleted := keeps_deleteInternal untouched
  apply deleted.trans
  apply keeps_insertActive
  intro addr mem
  exact Nat.lt_of_lt_of_le (inHeap addr mem) deleted.longer

theorem keeps_step
    (same : addrs = snapshot.immutableSegments) (untouched : st.Untouched snapshot op) :
    Keeps addrs st (st.step op) := by
  subst same
  cases op with
  | insert id vec => exact keeps_write inHeap id vec untouched
  | delete id => exact keeps_deleteInternal untouched
  | applyDeleteUnlogged id =>
    have deleted := keeps_deleteInternal untouched
    exact ⟨deleted.longer, deleted.cells⟩
  | applyCommittedUpsert id vec md =>
    have written := keeps_write inHeap id vec untouched
    simp only [step, applyCommittedUpsert]
    generalize (st.deleteInternal id).insertActive id vec = ans at written ⊢
    obtain ⟨next, res⟩ := ans
    cases res with
    | error => exact written
    | ok =>
      cases md with
      | none => exact written
      | some fields => exact ⟨written.longer, written.cells⟩
  | rotateActive => exact keeps_rotateActive inHeap
  | compact => exact keeps_compact inHeap

omit inHeap

theorem keeps_run (ops : List Op)
    (inHeap : ∀ addr ∈ snapshot.immutableSegments, addr < st.heap.length)
    (untouched : st.UntouchedThroughout snapshot ops) :
    Keeps snapshot.immutableSegments st (st.run ops) := by
  induction ops generalizing st with
  | nil => exact .refl st
  | cons op rest ih =>
    have fst := keeps_step inHeap rfl untouched.1
    apply fst.trans
    apply ih _ untouched.2
    intro addr mem
    exact Nat.lt_of_lt_of_le (inHeap addr mem) fst.longer

/-- A snapshot ranks over the pairs of the moment it was taken, as long as no write goes
    to an id that is live in a segment which it shares with the engine. -/
theorem untouched_snapshot_is_frozen (st : SharedEngine) (ops : List Op)
    (untouched : st.UntouchedThroughout st.snapshot ops)
    (pair : NodeId × VectorEmbedding) :
    pair ∈ st.snapshot.ranked (st.run ops).heap ↔ pair ∈ st.snapshot.ranked st.heap := by
  rw [(keeps_run ops st.allocated untouched).ranked]

/-- One frozen segment with `a`, and `b` in the active one. -/
def oneFrozen : SharedEngine :=
  (new 1 4).run [.insert "a" (scalar 1), .rotateActive, .insert "b" (scalar 2)]

/-- Writes to other ids, a rotation and a compaction, after which `a` may be written. -/
def laterWrites : List Op :=
  [.delete "b", .insert "c" (scalar 3), .rotateActive, .compact, .insert "a" (scalar 4)]

theorem snapshot_outlives_compaction :
    oneFrozen.UntouchedThroughout oneFrozen.snapshot laterWrites ∧
      (("a", scalar 1) ∈ oneFrozen.snapshot.ranked (oneFrozen.run laterWrites).heap ↔
        ("a", scalar 1) ∈ oneFrozen.snapshot.ranked oneFrozen.heap) := by
  have untouched : oneFrozen.UntouchedThroughout oneFrozen.snapshot laterWrites := by
    refine ⟨?_, ?_, trivial, trivial, ?_, trivial⟩ <;> decide
  exact ⟨untouched, untouched_snapshot_is_frozen oneFrozen laterWrites untouched _⟩

/-- The delete of `a` buries its slot in the segment that the snapshot shares. -/
theorem delete_reaches_snapshot :
    ¬ (("a", scalar 1) ∈ oneFrozen.snapshot.ranked (oneFrozen.run [.delete "a"]).heap ↔
      ("a", scalar 1) ∈ oneFrozen.snapshot.ranked oneFrozen.heap) := by
  decide

end SharedEngine
end HoloSphere.Storage
