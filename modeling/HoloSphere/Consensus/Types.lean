import HoloSphere.Error

/-! # Raft data model

The value types of `consensus/raft.rs` and `consensus/storage.rs`.  Every `u64`
is a natural number: all build profiles of the crate set `overflow-checks`, so
an overflow aborts the process and no counter ever wraps.

Commands carry an arbitrary payload `δ` where the source carries a
`DataMutation`; the consensus code never inspects it.
-/

namespace HoloSphere.Consensus

abbrev NodeId := Nat

inductive RaftRole where
  | follower
  | candidate
  | leader
  | learner
  deriving DecidableEq

structure TopologyMutation where
  epoch : Nat
  shardOwners : List (Nat × NodeId)
  deriving DecidableEq

structure MembershipMutation where
  newPeers : List NodeId
  deriving DecidableEq

inductive RaftCommand (δ : Type) where
  | data (op : δ)
  | topology (op : TopologyMutation)
  | membership (op : MembershipMutation)
  | noOp
  deriving DecidableEq

structure RaftLogEntry (δ : Type) where
  term : Nat
  index : Nat
  command : RaftCommand δ
  deriving DecidableEq

/-- The entry every fresh storage starts with, at index 0. -/
def RaftLogEntry.sentinel {δ : Type} : RaftLogEntry δ := ⟨0, 0, .noOp⟩

structure RequestVoteArgs where
  term : Nat
  candidateId : NodeId
  lastLogIndex : Nat
  lastLogTerm : Nat
  deriving DecidableEq

structure RequestVoteReply where
  term : Nat
  voteGranted : Bool
  deriving DecidableEq

structure AppendEntriesArgs (δ : Type) where
  term : Nat
  leaderId : NodeId
  prevLogIndex : Nat
  prevLogTerm : Nat
  entries : List (RaftLogEntry δ)
  leaderCommit : Nat
  isHeartbeat : Bool
  deriving DecidableEq

structure AppendEntriesReply where
  term : Nat
  success : Bool
  matchIndex : Nat
  deriving DecidableEq

structure RaftHardState where
  currentTerm : Nat := 0
  votedFor : Option NodeId := none
  deriving DecidableEq

structure RaftPersistentProgress where
  commitIndex : Nat := 0
  lastApplied : Nat := 0
  snapshotIndex : Nat := 0
  snapshotTerm : Nat := 0
  deriving DecidableEq

structure RaftSnapshotMeta where
  lastIncludedIndex : Nat := 0
  lastIncludedTerm : Nat := 0
  topologyEpoch : Nat := 0
  deriving DecidableEq

/-- How a call can end other than with a value: an `Err`, or a panic. -/
inductive Failure where
  | error (error : HNSQRError)
  | panic (message : String)
  deriving DecidableEq

/-- What a storage call does: complete, fail and leave the stored value alone,
    or fail although the new value has reached the store. -/
inductive Fault where
  | none
  | before
  | after
  deriving DecidableEq

namespace Fault

/-- The stored value after a call, and whether the call reported success. -/
def run {α : Type} (fault : Fault) (old new : α) : α × Bool :=
  match fault with
  | .none => (new, true)
  | .before => (old, false)
  | .after => (new, false)

@[simp] theorem run_none {α : Type} (old new : α) : Fault.none.run old new = (new, true) := rfl

def logError : Fault → HNSQRError
  | .after => .internal "Injected crash after log persistence"
  | _ => .internal "Injected crash before log persistence"

end Fault

/-- The outcome of the `n`-th storage call of each kind which one operation
    makes on one node. -/
structure StorageFaults where
  hardState : Nat → Fault := fun _ => .none
  append : Nat → Fault := fun _ => .none
  truncate : Nat → Fault := fun _ => .none
  progress : Nat → Fault := fun _ => .none

end HoloSphere.Consensus
