import HoloSphere.Consensus.MemoryStorage
import HoloSphere.Consensus.Pending
import HoloSphere.Consensus.ReadIndex

/-! # One Raft replica

`RaftNode` of `consensus/raft.rs` with its message handlers.  Every handler takes
the faults injected into the storage calls it makes.  Clocks, telemetry and the
batching plan are left out: no handler reads them.
-/

namespace HoloSphere.Consensus

structure ApplyReceipt where
  mutationId : MutationId
  appliedIndex : Nat
  appliedGeneration : Nat
  durableLsn : Nat
  deriving DecidableEq

/-- The trait object which committed data commands are applied to.  A rejected
    command may still have changed the machine. -/
class ReplicatedStateMachine (σ δ : Type) where
  apply : σ → Nat → δ → σ × Except HNSQRError ApplyReceipt
  mutationId : δ → MutationId

/-- A counter: the smallest machine, for concrete runs. -/
instance : ReplicatedStateMachine Nat Nat where
  apply st idx val := (st + val, .ok ⟨"", idx, idx, 0⟩)
  mutationId _ := ""

structure RaftNode (σ δ : Type) where
  id : NodeId
  votingPeers : List NodeId
  role : RaftRole := .follower
  currentTerm : Nat := 0
  votedFor : Option NodeId := none
  log : List (RaftLogEntry δ)
  commitIndex : Nat := 0
  lastApplied : Nat := 0
  leaderId : Option NodeId := none
  nextIndex : NodeId → Option Nat := fun _ => none
  matchIndex : NodeId → Option Nat := fun _ => none
  shardOwners : Nat → Option NodeId := fun _ => none
  topologyEpoch : Nat := 1
  replicatedSm : Option σ := none
  ioErrorCount : Nat := 0
  pendingProposals : PendingProposals := {}
  readIndexEngine : ReadIndexEngine := {}
  storage : MemoryRaftStorage δ

namespace RaftNode
variable {σ δ : Type}

/-- A replica built from what its storage holds. -/
def tryWithStorage (fault : Fault) (id : NodeId) (initialVotingPeers : List NodeId)
    (sto : MemoryRaftStorage δ) : Except HNSQRError (RaftNode σ δ) :=
  let peers := initialVotingPeers.dedup.insert id
  let build (sto : MemoryRaftStorage δ) (log : List (RaftLogEntry δ)) : RaftNode σ δ :=
    { id := id, votingPeers := peers, log := log, storage := sto
      currentTerm := sto.hardState.currentTerm, votedFor := sto.hardState.votedFor
      commitIndex := sto.progress.commitIndex, lastApplied := sto.progress.lastApplied }
  match sto.loadLogEntries 0 with
  | [] =>
    let (sto, ok) := sto.appendEntries fault [.sentinel]
    if ok then .ok (build sto [.sentinel]) else .error fault.logError
  | entries => .ok (build sto entries)

def isLeader (node : RaftNode σ δ) : Bool := node.role == .leader

def isLearner (node : RaftNode σ δ) : Bool := node.role == .learner

/-- The last log entry.  The source unwraps it: a replica's log is never empty. -/
def lastLog (node : RaftNode σ δ) : RaftLogEntry δ := node.log.getLastD .sentinel

/-- A message of a newer term: the term is saved before it is adopted in memory. -/
def adoptTerm (fault : Fault) (term : Nat) (node : RaftNode σ δ) : RaftNode σ δ × Bool :=
  let (sto, ok) := node.storage.saveHardState fault ⟨term, none⟩
  if ok then
    ({ node with
        storage := sto
        currentTerm := term
        role := if node.role = .learner then .learner else .follower
        votedFor := none
        pendingProposals := node.pendingProposals.cancelAllLeadershipLost term }, true)
  else ({ node with storage := sto }, false)

/-- The second half of `handle_request_vote`, at the voter's final term. -/
def castVote (fault : Fault) (args : RequestVoteArgs) (node : RaftNode σ δ) :
    RaftNode σ δ × RequestVoteReply :=
  let last := node.lastLog
  let logUpToDate := args.lastLogTerm > last.term ∨
    (args.lastLogTerm = last.term ∧ args.lastLogIndex ≥ last.index)
  if (node.votedFor = none ∨ node.votedFor = some args.candidateId) ∧
      args.term = node.currentTerm ∧ logUpToDate then
    let (sto, ok) := node.storage.saveHardState fault ⟨node.currentTerm, some args.candidateId⟩
    if ok then
      ({ node with storage := sto, votedFor := some args.candidateId }, ⟨node.currentTerm, true⟩)
    else ({ node with storage := sto }, ⟨node.currentTerm, false⟩)
  else (node, ⟨node.currentTerm, false⟩)

def handleRequestVote (faults : StorageFaults) (args : RequestVoteArgs) (node : RaftNode σ δ) :
    RaftNode σ δ × RequestVoteReply :=
  if node.isLearner then (node, ⟨node.currentTerm, false⟩)
  else if args.term > node.currentTerm then
    let (updated, ok) := node.adoptTerm (faults.hardState 0) args.term
    if ok then castVote (faults.hardState 1) args { updated with leaderId := none }
    else (updated, ⟨node.currentTerm, false⟩)
  else castVote (faults.hardState 1) args node

section
variable [ReplicatedStateMachine σ δ]

/-- Effect of one committed command, the answer owed to its proposer and whether
    the apply loop may go on. -/
def applyCommand (entry : RaftLogEntry δ) (node : RaftNode σ δ) :
    RaftNode σ δ × Option (ProposalId × Except ApplyError Nat) × Bool :=
  let proposal : ProposalId := ⟨entry.term, entry.index⟩
  match entry.command with
  | .topology top =>
    ({ node with
        topologyEpoch := top.epoch
        shardOwners := top.shardOwners.foldl
          (fun owners (shard, owner) other => if other = shard then some owner else owners other)
          node.shardOwners }, none, true)
  | .membership mem => ({ node with votingPeers := mem.newPeers.dedup }, none, true)
  | .noOp => (node, none, true)
  | .data op =>
    match node.replicatedSm with
    | none => (node, some (proposal, .error (.stateMachineUnavailable entry.index)), false)
    | some sm =>
      match ReplicatedStateMachine.apply sm entry.index op with
      | (sm, .ok receipt) =>
        ({ node with replicatedSm := some sm }, some (proposal, .ok receipt.appliedIndex), true)
      | (sm, .error reason) =>
        ({ node with replicatedSm := some sm }, some (proposal, .error (.stateApplyFailed
            (ReplicatedStateMachine.mutationId σ op) reason.display entry.index)),
          false)

/-- The `while` loop of `apply_committed_entries`.  On a log whose entries carry
    their position as index each round advances `last_applied` by one, so the
    distance to the target is enough fuel. -/
def applyLoop (log : List (RaftLogEntry δ)) (targetCommit : Nat) :
    Nat → RaftNode σ δ → List (ProposalId × Except ApplyError Nat) →
      RaftNode σ δ × List (ProposalId × Except ApplyError Nat)
  | 0, node, answers => (node, answers)
  | fuel + 1, node, answers =>
    if node.lastApplied < targetCommit then
      match log[node.lastApplied + 1]? with
      | none => (node, answers)
      | some entry =>
        let (applied, ans, goOn) := node.applyCommand entry
        if goOn then
          applyLoop log targetCommit fuel { applied with lastApplied := entry.index }
            (answers ++ ans.toList)
        else (applied, answers ++ ans.toList)
    else (node, answers)

def answerProposal (epoch : Nat) (pending : PendingProposals)
    (ans : ProposalId × Except ApplyError Nat) : PendingProposals :=
  match ans with
  | (proposal, .ok appliedIndex) =>
    pending.completeApplied proposal proposal.term appliedIndex epoch .quorumReplicated
  | (proposal, .error error) => pending.failProposal proposal error

def applyCommittedEntries (fault : Fault) (log : List (RaftLogEntry δ)) (targetCommit : Nat)
    (node : RaftNode σ δ) : RaftNode σ δ :=
  let epoch := node.topologyEpoch
  let (applied, answers) := node.applyLoop log targetCommit (targetCommit - node.lastApplied) []
  let (sto, ok) := applied.storage.saveProgress fault ⟨targetCommit, applied.lastApplied, 0, 0⟩
  { applied with
    storage := sto
    ioErrorCount := if ok then applied.ioErrorCount else applied.ioErrorCount + 1
    pendingProposals := answers.foldl (answerProposal epoch) applied.pendingProposals }

def prevMatches (args : AppendEntriesArgs δ) (node : RaftNode σ δ) : Prop :=
  (node.log[args.prevLogIndex]?).map RaftLogEntry.term = some args.prevLogTerm

instance (args : AppendEntriesArgs δ) (node : RaftNode σ δ) : Decidable (node.prevMatches args) :=
  inferInstanceAs (Decidable (_ = _))

/-- The follower's commit rule, at the end of both branches of the handler. -/
def advanceCommit (fault : Fault) (leaderCommit matched : Nat) (node : RaftNode σ δ) :
    RaftNode σ δ :=
  if leaderCommit > node.commitIndex then
    let newCommit := min leaderCommit matched
    applyCommittedEntries fault node.log newCommit { node with commitIndex := newCommit }
  else node

structure Repair (δ : Type) where
  storage : MemoryRaftStorage δ
  log : List (RaftLogEntry δ)
  completed : Bool

/-- The entry loop of `handle_append_entries`: `k` counts the entries handled so
    far and a failed storage call leaves the loop with what was done before it. -/
def repairLog (faults : StorageFaults) (k insertIdx : Nat) (sto : MemoryRaftStorage δ)
    (log : List (RaftLogEntry δ)) : List (RaftLogEntry δ) → Repair δ
  | [] => ⟨sto, log, true⟩
  | entry :: rest =>
    match log[insertIdx]? with
    | some existing =>
      if existing.term ≠ entry.term then
        let (truncated, okTruncate) := sto.truncateSuffix (faults.truncate k) insertIdx
        if okTruncate then
          let (appended, okAppend) := truncated.appendEntries (faults.append k) [entry]
          if okAppend then
            repairLog faults (k + 1) (insertIdx + 1) appended (log.take insertIdx ++ [entry])
              rest
          else ⟨appended, log, false⟩
        else ⟨truncated, log, false⟩
      else repairLog faults (k + 1) (insertIdx + 1) sto log rest
    | none =>
      let (appended, okAppend) := sto.appendEntries (faults.append k) [entry]
      if okAppend then
        repairLog faults (k + 1) (insertIdx + 1) appended (log ++ [entry]) rest
      else ⟨appended, log, false⟩

/-- `handle_append_entries` on an empty heartbeat. -/
def heartbeat (faults : StorageFaults) (args : AppendEntriesArgs δ) (node : RaftNode σ δ) :
    RaftNode σ δ × AppendEntriesReply :=
  let curMatch := node.log.length - 1
  if node.prevMatches args then
    (node.advanceCommit (faults.progress 0) args.leaderCommit curMatch,
      ⟨node.currentTerm, true, curMatch⟩)
  else (node, ⟨node.currentTerm, false, curMatch⟩)

/-- `handle_append_entries` on a message with entries. -/
def replicate (faults : StorageFaults) (args : AppendEntriesArgs δ) (node : RaftNode σ δ) :
    RaftNode σ δ × AppendEntriesReply :=
  if node.prevMatches args then
    let repair := repairLog faults 0 (args.prevLogIndex + 1) node.storage node.log args.entries
    let repaired := { node with storage := repair.storage, log := repair.log }
    if repair.completed then
      let newMatch := repaired.log.length - 1
      (repaired.advanceCommit (faults.progress 0) args.leaderCommit newMatch,
        ⟨node.currentTerm, true, newMatch⟩)
    else (repaired, ⟨node.currentTerm, false, 0⟩)
  else (node, ⟨node.currentTerm, false, node.log.length - 1⟩)

def followLeader (leaderId : NodeId) (node : RaftNode σ δ) : RaftNode σ δ :=
  { node with
    role := if node.role = .learner then .learner else .follower
    leaderId := some leaderId }

/-- `handle_append_entries` once the message's term is not newer than the node's. -/
def acceptEntries (faults : StorageFaults) (args : AppendEntriesArgs δ) (node : RaftNode σ δ) :
    RaftNode σ δ × AppendEntriesReply :=
  if args.term < node.currentTerm then (node, ⟨node.currentTerm, false, 0⟩)
  else if args.isHeartbeat ∧ args.entries = [] then
    (node.followLeader args.leaderId).heartbeat faults args
  else (node.followLeader args.leaderId).replicate faults args

def handleAppendEntries (faults : StorageFaults) (args : AppendEntriesArgs δ)
    (node : RaftNode σ δ) : RaftNode σ δ × AppendEntriesReply :=
  if args.term > node.currentTerm then
    let (updated, ok) := node.adoptTerm (faults.hardState 0) args.term
    if ok then updated.acceptEntries faults args
    else (updated, ⟨node.currentTerm, false, 0⟩)
  else node.acceptEntries faults args

end

def notLeaderError (node : RaftNode σ δ) : HNSQRError :=
  let id := node.id
  let leader := debugOption node.leaderId
  .internal s!"Node {id} is not leader (current leader: {leader})"

def newEntries (cmds : List (RaftCommand δ)) (node : RaftNode σ δ) : List (RaftLogEntry δ) :=
  cmds.mapIdx fun i cmd => ⟨node.currentTerm, node.log.length + i, cmd⟩

/-- An empty batch reaches `indices.last().unwrap()` and panics with nothing done. -/
def proposeBatch (faults : StorageFaults) (cmds : List (RaftCommand δ))
    (node : RaftNode σ δ) : RaftNode σ δ × Except Failure (List Nat) :=
  if node.isLeader then
    let entries := node.newEntries cmds
    let (sto, ok) := node.storage.appendEntries (faults.append 0) entries
    if ok then
      match entries.getLast? with
      | none =>
        ({ node with storage := sto }, .error (.panic
          "called `Option::unwrap()` on a `None` value"))
      | some last =>
        ({ node with
            storage := sto
            log := node.log ++ entries
            matchIndex := fun peer =>
              if peer = node.id then some last.index else node.matchIndex peer },
          .ok (entries.map RaftLogEntry.index))
    else ({ node with storage := sto }, .error (.error (faults.append 0).logError))
  else (node, .error (.error node.notLeaderError))

def propose (faults : StorageFaults) (cmd : RaftCommand δ) (node : RaftNode σ δ) :
    RaftNode σ δ × Except Failure Nat :=
  match node.proposeBatch faults [cmd] with
  | (updated, .ok indices) => (updated, .ok (indices.headD 0))
  | (updated, .error failure) => (updated, .error failure)

/-- A proposal whose outcome its caller waits for; the answer is a ticket of the
    registry.  A full registry fails the call although the command is in the log. -/
def proposeDataMutation [ReplicatedStateMachine σ δ] (faults : StorageFaults) (op : δ)
    (node : RaftNode σ δ) : RaftNode σ δ × Except Failure Nat :=
  if node.isLeader then
    match node.propose faults (.data op) with
    | (updated, .error failure) => (updated, .error failure)
    | (updated, .ok idx) =>
      match updated.pendingProposals.register ⟨node.currentTerm, idx⟩
        (ReplicatedStateMachine.mutationId σ op) with
      | (pending, .ok ticket) => ({ updated with pendingProposals := pending }, .ok ticket)
      | (pending, .error error) =>
        ({ updated with pendingProposals := pending }, .error (.error error))
  else (node, .error (.error node.notLeaderError))

/-- Voters which the leader counts as holding index `n`. -/
def replicatedOn (n : Nat) (node : RaftNode σ δ) : List NodeId :=
  node.votingPeers.filter fun peer =>
    match node.matchIndex peer with
    | some matched => n ≤ matched
    | none => peer = node.id

/-- The index that `check_quorum_commit` finds, searching from the end of the log. -/
def quorumIndex (node : RaftNode σ δ) : Option Nat :=
  (List.range' (node.commitIndex + 1) (node.log.length - 1 - node.commitIndex)).reverse.find?
    fun n => (node.log[n]?).map RaftLogEntry.term = some node.currentTerm ∧
      node.votingPeers.length / 2 + 1 ≤ (node.replicatedOn n).length

def checkQuorumCommit [ReplicatedStateMachine σ δ] (faults : StorageFaults)
    (node : RaftNode σ δ) : RaftNode σ δ × Bool :=
  if node.isLeader then
    match node.quorumIndex with
    | none => (node, false)
    | some n =>
      let (sto, ok) := node.storage.saveProgress (faults.progress 0) ⟨n, node.lastApplied, 0, 0⟩
      let committed :=
        { node with
          commitIndex := n
          storage := sto
          ioErrorCount := if ok then node.ioErrorCount else node.ioErrorCount + 1 }
      (committed.applyCommittedEntries (faults.progress 1) node.log n, true)
  else (node, false)

def handleReadIndexRequest (req : ReadIndexRequest) (node : RaftNode σ δ) : ReadIndexConfirmation :=
  if req.term < node.currentTerm then ⟨req.context, node.currentTerm, node.id, false⟩
  else ⟨req.context, req.term, node.id, true⟩

end RaftNode
end HoloSphere.Consensus
