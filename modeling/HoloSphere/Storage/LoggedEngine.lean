import HoloSphere.Program.Machine
import HoloSphere.Storage.LiveVersions
import HoloSphere.Storage.WalDirectory

/-! # The engine with its log attached

`insert` and `delete` of a `SegmentedEngine` that has a write-ahead log, and
`recover_from_wal`, which applies the records of the log to a fresh engine.  An insert is
logged before the vector is looked at, so a refused vector is in the log as well and stops
the recovery.  Calls that are not refused and whose records reach the log are reproduced.
-/

namespace HoloSphere.Storage
open Format Consensus Program Function
namespace SegmentedEngine

def applyWalMutation (op : WalMutation) (eng : SegmentedEngine) :
    SegmentedEngine × Except HNSQRError Unit :=
  match op with
  | .upsert extId vec md => eng.applyCommittedUpsert extId vec md
  | .delete extId => ((eng.applyDeleteUnlogged extId).1, .ok ())
  | _ => (eng, .ok ())

end SegmentedEngine

structure LoggedEngine where
  engine : SegmentedEngine
  wal : WalManager
  walDurability : DurabilityPolicy

/-- A call with what the disk does to its record. -/
inductive LoggedCall where
  | insert (id : NodeId) (vec : VectorEmbedding) (disk : DiskOutcome)
  | delete (id : NodeId) (disk : DiskOutcome)

def LoggedCall.record : LoggedCall → WalMutation
  | .insert id vec _ => .upsert id vec none
  | .delete id _ => .delete id

def LoggedCall.disk : LoggedCall → DiskOutcome
  | .insert _ _ disk | .delete _ disk => disk

namespace LoggedEngine

def insert (serde : Serde WalMutation) (id : NodeId) (vec : VectorEmbedding)
    (disk : DiskOutcome) (logged : LoggedEngine) : LoggedEngine × Except HNSQRError Unit :=
  match logged.wal.append serde (.upsert id vec none) logged.walDurability disk with
  | (wal, .error e) => ({ logged with wal := wal }, .error e)
  | (wal, .ok _) =>
    let (eng, outc) := logged.engine.insert id vec
    ({ logged with engine := eng, wal := wal }, outc)

def delete (serde : Serde WalMutation) (id : NodeId) (disk : DiskOutcome)
    (logged : LoggedEngine) : LoggedEngine × Bool :=
  let (wal, _) := logged.wal.append serde (.delete id) logged.walDurability disk
  let (eng, found) := logged.engine.delete id
  ({ logged with engine := eng, wal := wal }, found)

/-- The closure that `recover_from_wal` hands to `replay`. -/
def recoverOne (_lsn : Nat) (op : WalMutation) (st : SegmentedEngine × Nat) :
    (SegmentedEngine × Nat) × Except HNSQRError Unit :=
  match st.1.applyWalMutation op with
  | (eng, .error e) => ((eng, st.2), .error e)
  | (eng, .ok ()) => ((eng, st.2 + 1), .ok ())

def recoverFromWal (serde : Serde WalMutation) (logged : LoggedEngine) :
    LoggedEngine × Except HNSQRError Nat :=
  match logged.wal.replay serde 0 recoverOne (logged.engine, 0) with
  | ((wal, eng, _), .error e) => ({ logged with engine := eng, wal := wal }, .error e)
  | ((wal, eng, replayedCount), .ok _) =>
    ({ logged with engine := eng, wal := wal }, .ok replayedCount)

/-- A new engine on a new directory. -/
def fresh (dim cap : Nat) (walDir : String) (maxSeg : Nat)
    (policy : DurabilityPolicy) : LoggedEngine where
  engine := .new dim cap
  wal := .openDir walDir maxSeg []
  walDurability := policy

def act (serde : Serde WalMutation) (logged : LoggedEngine) : LoggedCall → Option LoggedEngine
  | .insert id vec disk => some (logged.insert serde id vec disk).1
  | .delete id disk => some (logged.delete serde id disk).1

/-- A fresh engine of the same dimension recovers the vectors and the metadata from the log. -/
def Reproduced (serde : Serde WalMutation) (cap : Nat) (logged : LoggedEngine) : Prop :=
  ∃ recovered count,
    recoverFromWal serde { logged with engine := .new logged.engine.dimension cap } =
      (recovered, .ok count) ∧
    (∀ id, recovered.engine.versions id = logged.engine.versions id) ∧
    recovered.engine.metadataStore = logged.engine.metadataStore

/-- The vector of an insert has the dimension of the engine; the record of the call can be
    serialised and reaches the disk. -/
structure Recorded (serde : Serde WalMutation) (logged : LoggedEngine) (call : LoggedCall) :
    Prop where
  sized : ∀ id vec disk, call = .insert id vec disk → vec.dimension = logged.engine.dimension
  roundTrips : serde.RoundTrips call.record
  written : call.disk = .done
  numbered : logged.wal.currentLsn + 1 < 2 ^ 64

end LoggedEngine

open SegmentedEngine (Contents Holds)

/-- The mutations that `insert` and `delete` log for vectors that are not refused. -/
def WalMutation.Plain (dim : Nat) : WalMutation → Prop
  | .upsert _ vec md => vec.dimension = dim ∧ md = none
  | .delete _ => True
  | _ => False

def WalMutation.write (cont : Contents) : WalMutation → Contents
  | .upsert id vec _ => update cont id (some vec)
  | .delete id => update cont id none
  | _ => cont

def contentsOf (recs : List WalRecord) (cont : Contents) : Contents :=
  recs.foldl (fun cont rec => rec.mutation.write cont) cont

/-- The engine shows the map and has no metadata. -/
structure Shows (dim : Nat) (cont : Contents) (eng : SegmentedEngine) : Prop where
  holds : eng.Holds cont
  dimension : eng.dimension = dim
  positive : 1 ≤ eng.maxMutableCapacity
  bare : eng.metadataStore = fun _ => none

namespace Shows
variable {dim : Nat}

theorem new (dim : Nat) (pos : 1 ≤ cap) (bounded : cap ≤ slotNumbers) :
    Shows dim (fun _ => none) (SegmentedEngine.new dim cap) :=
  ⟨Holds.new dim bounded, rfl, pos, rfl⟩

theorem insertActive_metadataStore (id : NodeId) (eng : SegmentedEngine) :
    (eng.insertActive id vec).1.metadataStore = eng.metadataStore := by
  have inserted := SegmentedEngine.insertActive_inserted id vec eng
  generalize eng.insertActive id vec = ans at inserted ⊢
  cases inserted with
  | refused | rotated | renewed | stored => rfl

theorem insert (shows : Shows dim cont eng) (id : NodeId) {vec : VectorEmbedding}
    (sized : vec.dimension = dim) :
    Shows dim (update cont id (some vec)) (eng.insert id vec).1 ∧
      (eng.insert id vec).2 = .ok () := by
  have acc : eng.accepted vec = some vec :=
    SegmentedEngine.accepted_eq_some (sized.trans shows.dimension.symm) shows.positive
  obtain ⟨holds, outc⟩ := shows.holds.insert id vec
  obtain ⟨sameDimension, sameCapacity⟩ :=
    SegmentedEngine.insertActive_config id vec (eng.deleteInternal id).1
  rw [acc] at holds outc
  refine ⟨⟨holds, sameDimension.trans shows.dimension, ?_, ?_⟩, outc.mpr rfl⟩
  · exact shows.positive.trans_eq sameCapacity.symm
  · exact (insertActive_metadataStore id _).trans shows.bare

theorem deleteInternal (shows : Shows dim cont eng) (id : NodeId) :
    Shows dim (update cont id none) (eng.deleteInternal id).1 :=
  { shows with holds := shows.holds.deleteInternal id }

theorem applyCommittedUpsert_none (id : NodeId) (eng : SegmentedEngine) :
    eng.applyCommittedUpsert id vec none = eng.insert id vec := by
  have same : eng.applyUpsertUnlogged id vec = eng.insert id vec := rfl
  unfold SegmentedEngine.applyCommittedUpsert
  rw [same]
  rcases eng.insert id vec with ⟨written, e | _⟩ <;> rfl

theorem applyDeleteUnlogged (shows : Shows dim cont eng) (id : NodeId) :
    eng.applyDeleteUnlogged id = eng.deleteInternal id := by
  have kept : update eng.metadataStore id none = eng.metadataStore := by
    rw [shows.bare]
    exact update_eq_self id _
  rw [SegmentedEngine.applyDeleteUnlogged, kept]

theorem applyWalMutation (shows : Shows dim cont eng) {op : WalMutation} (plain : op.Plain dim) :
    Shows dim (op.write cont) (eng.applyWalMutation op).1 ∧
      (eng.applyWalMutation op).2 = .ok () := by
  cases op with
  | upsert id vec md =>
    obtain ⟨sized, rfl⟩ := plain
    have inserted := shows.insert id sized
    rw [← applyCommittedUpsert_none] at inserted
    exact inserted
  | delete id =>
    have deleted := shows.deleteInternal id
    rw [← shows.applyDeleteUnlogged] at deleted
    exact ⟨deleted, rfl⟩
  | metadataUpdate | checkpoint | clusterState => exact plain.elim

end Shows

namespace LoggedEngine

/-- The records of the log, applied one after the other. -/
theorem run_recoverOne {recs : List WalRecord}
    (plain : ∀ rec ∈ recs, rec.mutation.Plain dim) {cont : Contents}
    {eng : SegmentedEngine} (shows : Shows dim cont eng) (count top : Nat) :
    ∃ recovered total bound, Program.run (Replay.deliver recoverOne) (recs.map WalRecord.entry)
        ((eng, count), top) = (((recovered, total), bound), .ok ()) ∧
      Shows dim (contentsOf recs cont) recovered := by
  induction recs generalizing cont eng count top with
  | nil => exact ⟨eng, count, top, rfl, shows⟩
  | cons rec rest ih =>
    obtain ⟨shown, applied⟩ := shows.applyWalMutation (plain rec List.mem_cons_self)
    have one : Replay.deliver recoverOne rec.entry ((eng, count), top) =
        ((((eng.applyWalMutation rec.mutation).1, count + 1), max top rec.lsn), .ok ()) := by
      simp only [Replay.deliver, recoverOne, WalRecord.entry]
      cases outc : eng.applyWalMutation rec.mutation with
      | mk after res =>
        rw [outc] at applied
        cases applied
        rfl
    rw [List.map_cons, run_cons_ok (by rw [one]), one]
    exact ih (List.forall_mem_cons.mp plain).2 shown _ _

/-- The log and the engine tell the same story. -/
structure InStep (serde : Serde WalMutation) (dim : Nat) (logged : LoggedEngine)
    (recs : List WalRecord) : Prop where
  log : logged.wal.LogHolds serde recs
  plain : ∀ rec ∈ recs, rec.mutation.Plain dim
  shows : Shows dim (contentsOf recs fun _ => none) logged.engine
  durable : logged.walDurability ≠ .memory

theorem inStep_fresh (dim : Nat) (pos : 1 ≤ cap) (bounded : cap ≤ slotNumbers)
    (maxSeg : Nat) (durable : policy ≠ .memory) :
    (fresh dim cap walDir maxSeg policy).InStep serde dim [] := by
  refine ⟨⟨(WalManager.openDir_stored .empty walDir maxSeg).1, [], ⟨1, []⟩,
    ⟨rfl, rfl, fun _ mem => absurd mem List.not_mem_nil, Nat.one_pos⟩, wholeRecords_nil⟩,
    fun _ mem => absurd mem List.not_mem_nil, Shows.new dim pos bounded, durable⟩

variable {logged : LoggedEngine}

section
variable (inStep : logged.InStep serde dim recs)
include inStep

theorem InStep.record {rec : WalRecord}
    {wal : WalManager} {eng : SegmentedEngine} (log : wal.LogHolds serde (recs ++ [rec]))
    (plain : rec.mutation.Plain dim)
    (shows : Shows dim (rec.mutation.write (contentsOf recs fun _ => none)) eng) :
    ({ logged with engine := eng, wal := wal } : LoggedEngine).InStep serde dim
      (recs ++ [rec]) := by
  refine ⟨log, ?_, ?_, inStep.durable⟩
  · intro other mem
    rcases List.mem_append.mp mem with earlier | new
    · exact inStep.plain other earlier
    · cases List.mem_singleton.mp new
      exact plain
  · rw [contentsOf, List.foldl_append]
    exact shows

theorem InStep.act
    (recorded : logged.Recorded serde call) (done : logged.act serde call = some next) :
    ∃ recs, next.InStep serde dim recs := by
  obtain ⟨sized, roundTrips, written, numbered⟩ := recorded
  obtain ⟨wal, rec, appended, same, -, -, log⟩ :=
    inStep.log.append_done roundTrips inStep.durable numbered
  refine ⟨recs ++ [rec], ?_⟩
  cases call with
  | insert id vec disk =>
    cases written
    have fitting : vec.dimension = dim := (sized id vec .done rfl).trans inStep.shows.dimension
    have shown := (inStep.shows.insert id fitting).1
    simp only [LoggedCall.record] at appended same
    simp only [LoggedEngine.act, LoggedEngine.insert, appended, Option.some.injEq] at done
    rw [← done]
    apply inStep.record log
    · rw [same]
      exact ⟨fitting, rfl⟩
    · rw [same]
      exact shown
  | delete id disk =>
    cases written
    have shown := inStep.shows.deleteInternal id
    simp only [LoggedCall.record] at appended same
    simp only [LoggedEngine.act, LoggedEngine.delete, appended, Option.some.injEq] at done
    rw [← done]
    apply inStep.record log
    · rw [same]
      exact trivial
    · rw [same]
      exact shown

theorem InStep.reproduced (pos : 1 ≤ cap) (bounded : cap ≤ slotNumbers) :
    logged.Reproduced serde cap := by
  have start := Shows.new logged.engine.dimension pos bounded
  rw [inStep.shows.dimension] at start
  obtain ⟨recovered, total, bound, ran, shown⟩ := run_recoverOne inStep.plain start 0 0
  obtain ⟨summary, replayed⟩ := WalManager.replay_stored inStep.log.stored 0 recoverOne
    (SegmentedEngine.new dim cap, 0)
  rw [WalManager.filter_lsn_pos, ran] at replayed
  have recovers : recoverFromWal serde
      { logged with engine := .new logged.engine.dimension cap } = ({ logged with
          engine := recovered
          wal := { logged.wal with currentLsn := bound, lastSyncedLsn := bound } }, .ok total) := by
    rw [recoverFromWal, inStep.shows.dimension, replayed]
  refine ⟨_, total, recovers, fun id => ?_, ?_⟩
  · rw [shown.holds.versions_eq, inStep.shows.holds.versions_eq]
  · rw [shown.bare, inStep.shows.bare]

end

/-- Calls whose records reach the log and whose vectors have the engine's dimension are
    reproduced by a recovery, after each of them. -/
theorem recovery_reproduces_engine (serde : Serde WalMutation) (dim cap : Nat)
    (pos : 1 ≤ cap) (bounded : cap ≤ slotNumbers) (walDir : String)
    (maxSeg : Nat) (policy : DurabilityPolicy) (durable : policy ≠ .memory)
    (calls : List LoggedCall)
    (recorded : Throughout (act serde) (Recorded serde)
      (fresh dim cap walDir maxSeg policy) calls) :
    Always (act serde) (fun logged => ∀ cap, 1 ≤ cap → cap ≤ slotNumbers →
        logged.Reproduced serde cap)
      (fresh dim cap walDir maxSeg policy) calls := by
  have inStep : Always (act serde) (fun logged => ∃ recs, logged.InStep serde dim recs)
      (fresh dim cap walDir maxSeg policy) calls :=
    recorded.always ⟨[], inStep_fresh dim pos bounded maxSeg durable⟩
      fun _ _ _ ⟨_, inStep⟩ recorded done => inStep.act recorded done
  intro count logged ran cap pos bounded
  obtain ⟨recs, inStep⟩ := inStep count logged ran
  exact inStep.reproduced pos bounded

/-- The layout of an upsert of the node `a` without metadata. -/
def upsertOf (vec : VectorEmbedding) : Bytes :=
  toLe 4 0 ++ toLe 8 1 ++ [97] ++ toLe 8 vec.data.length ++ (vec.data.flatMap fun component =>
      toLe 4 component.1.toNat ++ toLe 4 component.2.toNat) ++ [0]

def shortVector : VectorEmbedding := ⟨[(0x3F800000, 0)]⟩
def longVector : VectorEmbedding := ⟨[(0x3F800000, 0), (0x40000000, 0)]⟩

/-- The serialiser on the upserts of two vectors. -/
def upsertSerde : Serde WalMutation where
  serialize
    | .upsert "a" vec none => .ok (upsertOf vec)
    | _ => .error "unsupported mutation"
  deserialize bytes :=
    if bytes = upsertOf shortVector then .ok (.upsert "a" shortVector none)
    else if bytes = upsertOf longVector then .ok (.upsert "a" longVector none)
    else .error "unexpected bytes"

theorem insert_is_reproduced : Always (act upsertSerde)
      (fun logged => ∀ cap, 1 ≤ cap → cap ≤ slotNumbers → logged.Reproduced upsertSerde cap)
      (fresh 1 4 "wal" 0 .walSync) [.insert "a" shortVector .done] :=
  recovery_reproduces_engine upsertSerde 1 4 (by decide) (by decide) "wal" 0 .walSync (by decide)
    [.insert "a" shortVector .done]
    (.cons rfl ⟨by rintro _ _ _ ⟨⟩; rfl, ⟨upsertOf shortVector, rfl, by decide, rfl⟩, rfl,
      by decide⟩ trivial)

/-- A vector of the wrong dimension is refused after it has been logged. -/
def refusedCalls : List LoggedCall := [.insert "a" shortVector .done, .insert "a" longVector .done]

theorem refused_insert_stops_recovery :
    ∃ logged, refusedCalls.foldlM (act upsertSerde) (fresh 1 4 "wal" 0 .walSync) = some logged ∧
      ¬ logged.Reproduced upsertSerde 4 := by
  have stopped : (refusedCalls.foldlM (act upsertSerde) (fresh 1 4 "wal" 0 .walSync)).map
      (fun logged => (recoverFromWal upsertSerde
        { logged with engine := .new logged.engine.dimension 4 }).2.toBool) = some false := by
    decide +kernel
  obtain ⟨logged, ran, failed⟩ := Option.map_eq_some_iff.mp stopped
  refine ⟨logged, ran, ?_⟩
  rintro ⟨recovered, count, succeeded, -⟩
  rw [succeeded] at failed
  cases failed

end LoggedEngine
end HoloSphere.Storage
