import HoloSphere.Consensus.Types

/-! # The in-memory Raft store

`MemoryRaftStorage` of `consensus/storage.rs`.  Each call takes the fault that is
injected into it; the source sets these through its `fail_before_*` and
`fail_after_*` flags.  A position of the stored vector is not forced to be the
index of the entry kept there: `appendEntries` overwrites by index below the
length and pushes otherwise.
-/

namespace HoloSphere.Consensus
variable {δ : Type}

structure MemoryRaftStorage (δ : Type) where
  hardState : RaftHardState := {}
  progress : RaftPersistentProgress := {}
  snapshotMeta : RaftSnapshotMeta := {}
  log : List (RaftLogEntry δ) := [.sentinel]
  deriving DecidableEq

namespace MemoryRaftStorage

def new : MemoryRaftStorage δ := {}

def saveHardState (fault : Fault) (st : RaftHardState) (sto : MemoryRaftStorage δ) :
    MemoryRaftStorage δ × Bool :=
  fault.run sto { sto with hardState := st }

def saveProgress (fault : Fault) (prog : RaftPersistentProgress)
    (sto : MemoryRaftStorage δ) : MemoryRaftStorage δ × Bool :=
  fault.run sto { sto with progress := prog }

/-- One iteration of the loop in `append_entries`. -/
def putEntry (log : List (RaftLogEntry δ)) (entry : RaftLogEntry δ) : List (RaftLogEntry δ) :=
  if entry.index < log.length then log.set entry.index entry else log ++ [entry]

def appendEntries (fault : Fault) (ents : List (RaftLogEntry δ))
    (sto : MemoryRaftStorage δ) : MemoryRaftStorage δ × Bool :=
  fault.run sto { sto with log := ents.foldl putEntry sto.log }

def truncateSuffix (fault : Fault) (fromIndex : Nat) (sto : MemoryRaftStorage δ) :
    MemoryRaftStorage δ × Bool :=
  fault.run sto { sto with
    log := if fromIndex < sto.log.length then sto.log.take fromIndex else sto.log }

def loadLogEntries (fromIndex : Nat) (sto : MemoryRaftStorage δ) : List (RaftLogEntry δ) :=
  if fromIndex < sto.log.length then sto.log.drop fromIndex else []

theorem loadLogEntries_eq_drop (fromIndex : Nat) (sto : MemoryRaftStorage δ) :
    sto.loadLogEntries fromIndex = sto.log.drop fromIndex := by
  unfold loadLogEntries
  split
  · rfl
  · exact (List.drop_eq_nil_of_le (by omega)).symm

@[simp] theorem loadLogEntries_zero (sto : MemoryRaftStorage δ) :
    sto.loadLogEntries 0 = sto.log := by
  rw [loadLogEntries_eq_drop, List.drop_zero]

theorem putEntry_end {log : List (RaftLogEntry δ)} {entry : RaftLogEntry δ}
    (beyond : log.length ≤ entry.index) : putEntry log entry = log ++ [entry] := by
  simp [putEntry, Nat.not_lt.mpr beyond]

/-- Entries numbered from the end of the stored log are appended as they are. -/
theorem foldl_putEntry_end (ents log : List (RaftLogEntry δ))
    (numbered : ∀ k (hin : k < ents.length), ents[k].index = log.length + k) :
    ents.foldl putEntry log = log ++ ents := by
  induction ents generalizing log with
  | nil => simp
  | cons head rest ih =>
    have first : head.index = log.length := numbered 0 (by simp)
    rw [List.foldl_cons, putEntry_end (by omega)]
    rw [ih (log ++ [head])]
    · simp
    · intro k hin
      have shifted : rest[k].index = log.length + (k + 1) := numbered (k + 1) (by simpa using hin)
      simp only [List.length_append, List.length_singleton]
      omega

end MemoryRaftStorage
end HoloSphere.Consensus
