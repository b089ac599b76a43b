import HoloSphere.Consensus.Node

/-! # The in-process cluster

`RaftCluster` of `consensus/raft.rs`: elections and heartbeats call the handlers
of the other replicas directly.  `ids` holds the keys of the node map in the
order the map is walked; a replica that crashed is not a key, and its entry of
`node` then only stands for its storage.
-/

namespace HoloSphere.Consensus

structure RaftCluster (σ δ : Type) where
  ids : List NodeId
  node : NodeId → RaftNode σ δ

/-- Faults of one heartbeat round: of the leader's own calls and of each peer's. -/
structure BroadcastFaults where
  leader : StorageFaults := {}
  peer : NodeId → StorageFaults := fun _ => {}

structure ElectionFaults where
  candidate : StorageFaults := {}
  vote : NodeId → StorageFaults := fun _ => {}
  broadcast : BroadcastFaults := {}

namespace RaftNode
variable {σ δ : Type}

def new (id : NodeId) (peers : List NodeId) : RaftNode σ δ :=
  { id := id, votingPeers := peers.dedup.insert id, log := [.sentinel], storage := .new }

/-- A candidate saves the next term and its own vote before it adopts them. -/
def stand (fault : Fault) (nid : NodeId) (cand : RaftNode σ δ) : RaftNode σ δ × Bool :=
  let newTerm := cand.currentTerm + 1
  let (sto, ok) := cand.storage.saveHardState fault ⟨newTerm, some nid⟩
  if ok then
    ({ cand with
        storage := sto
        currentTerm := newTerm
        role := .candidate
        votedFor := some nid }, true)
  else ({ cand with storage := sto }, false)

/-- The RequestVote message of a candidate. -/
def voteArgs (nid : NodeId) (cand : RaftNode σ δ) : RequestVoteArgs :=
  ⟨cand.currentTerm, nid, cand.lastLog.index, cand.lastLog.term⟩

/-- What the winner of an election resets before its first proposal. -/
def becomeLeader (keys : List NodeId) (node : RaftNode σ δ) : RaftNode σ δ :=
  let length := node.log.length
  { node with
    role := .leader
    leaderId := some node.id
    readIndexEngine := node.readIndexEngine.recordQuorumSuccess node.currentTerm
    nextIndex := fun peer => if peer ∈ keys then some length else node.nextIndex peer
    matchIndex := fun peer =>
      if peer = node.id then some (length - 1)
      else if peer ∈ keys then some 0 else node.matchIndex peer }

/-- The AppendEntries message a leader builds for one peer. -/
def appendArgs (peer : NodeId) (leader : RaftNode σ δ) : AppendEntriesArgs δ :=
  let nextIdx := (leader.nextIndex peer).getD 1
  let prevLogIdx := min (nextIdx - 1) (leader.log.length - 1)
  let ents := if nextIdx < leader.log.length then leader.log.drop nextIdx else []
  { term := leader.currentTerm
    leaderId := leader.id
    prevLogIndex := prevLogIdx
    prevLogTerm := ((leader.log[prevLogIdx]?).map RaftLogEntry.term).getD 0
    entries := ents
    leaderCommit := leader.commitIndex
    isHeartbeat := ents.isEmpty }

def recordMatch (peer : NodeId) (matched : Nat) (leader : RaftNode σ δ) : RaftNode σ δ :=
  { leader with
    nextIndex := fun other => if other = peer then some (matched + 1) else leader.nextIndex other
    matchIndex := fun other => if other = peer then some matched else leader.matchIndex other }

end RaftNode

namespace RaftCluster
variable {σ δ : Type}

def new (nodeIds : List NodeId) : RaftCluster σ δ := ⟨nodeIds.dedup, fun id => .new id nodeIds⟩

def get (id : NodeId) (c : RaftCluster σ δ) : Option (RaftNode σ δ) :=
  if id ∈ c.ids then some (c.node id) else none

def put (id : NodeId) (node : RaftNode σ δ) (c : RaftCluster σ δ) : RaftCluster σ δ :=
  { c with node := fun other => if other = id then node else c.node other }

@[simp] theorem put_same (id : NodeId) (node : RaftNode σ δ) (c : RaftCluster σ δ) :
    (c.put id node).node id = node := if_pos rfl

theorem put_other {id other : NodeId} (different : other ≠ id) (node : RaftNode σ δ)
    (c : RaftCluster σ δ) : (c.put id node).node other = c.node other :=
  if_neg different

theorem forall_put {id : NodeId} {node : RaftNode σ δ} {c : RaftCluster σ δ}
    (holds : NodeId → RaftNode σ δ → Prop) (own : holds id node)
    (others : ∀ p, p ≠ id → holds p (c.node p)) (p : NodeId) :
    holds p ((c.put id node).node p) := by
  by_cases same : p = id
  · subst same
    rw [put_same]
    exact own
  · rw [put_other same]
    exact others p same

@[simp] theorem put_put (id : NodeId) (fst snd : RaftNode σ δ) (c : RaftCluster σ δ) :
    (c.put id fst).put id snd = c.put id snd := by
  unfold put
  congr 1
  funext other
  by_cases same : other = id <;> simp [same]

theorem put_self (id : NodeId) (c : RaftCluster σ δ) : c.put id (c.node id) = c := by
  unfold put
  congr 1
  funext other
  split
  case isTrue same => rw [same]
  case isFalse => rfl

/-- One RequestVote call of an election and the tally after it. -/
def pollPeer (faults : NodeId → StorageFaults) (args : RequestVoteArgs)
    (tally : RaftCluster σ δ × Nat) (peer : NodeId) : RaftCluster σ δ × Nat :=
  if peer = args.candidateId then tally
  else
    match tally.1.get peer with
    | none => tally
    | some peerNode =>
      let (updated, reply) := peerNode.handleRequestVote (faults peer) args
      (tally.1.put peer updated,
        if reply.voteGranted ∧ reply.term = args.term then tally.2 + 1 else tally.2)

/-- The vote count of `trigger_election` and what follows from it, up to the
    winner's first proposal, whose failure is ignored. -/
def collectVotes (faults : ElectionFaults) (nid : NodeId) (cand : RaftNode σ δ)
    (c : RaftCluster σ δ) : RaftCluster σ δ × Bool :=
  let (polled, votes) := cand.votingPeers.foldl
    (pollPeer faults.vote (cand.voteArgs nid)) (c, 1)
  let counted := polled.node nid
  if cand.votingPeers.length / 2 + 1 ≤ votes then
    (polled.put nid ((counted.becomeLeader polled.ids).propose faults.candidate .noOp).1, true)
  else (polled.put nid { counted with role := .follower }, false)

/-- `trigger_election` without the winner's heartbeats. -/
def campaign (faults : ElectionFaults) (nid : NodeId) (c : RaftCluster σ δ) :
    RaftCluster σ δ × Bool :=
  match c.get nid with
  | none => (c, false)
  | some node =>
    if node.isLearner then (c, false)
    else
      let (cand, ok) := node.stand (faults.candidate.hardState 0) nid
      if ok then (c.put nid cand).collectVotes faults nid cand
      else (c.put nid cand, false)

section
variable [ReplicatedStateMachine σ δ]

/-- One AppendEntries call of a heartbeat round and the count of successes after
    it.  The message is built from the leader's state at the start of the round,
    apart from `next_index`, which only changes for peers already called. -/
def appendPeer (faults : NodeId → StorageFaults) (leaderId : NodeId) (leader : RaftNode σ δ)
    (round : RaftCluster σ δ × Nat) (peer : NodeId) : RaftCluster σ δ × Nat :=
  if peer = leaderId then round
  else
    match round.1.get peer with
    | none => round
    | some peerNode =>
      let (updated, reply) := peerNode.handleAppendEntries (faults peer) (leader.appendArgs peer)
      let called := round.1.put peer updated
      if reply.success then
        (called.put leaderId ((called.node leaderId).recordMatch peer reply.matchIndex),
          round.2 + 1)
      else (called, round.2)

def broadcastHeartbeats (faults : BroadcastFaults) (leaderId : NodeId)
    (c : RaftCluster σ δ) : RaftCluster σ δ :=
  match c.get leaderId with
  | none => c
  | some leader =>
    if leader.isLeader then
      let (called, successes) := c.ids.foldl (appendPeer faults.peer leaderId leader) (c, 1)
      let after := called.node leaderId
      let recorded :=
        if leader.votingPeers.length / 2 + 1 ≤ successes then
          { after with
            readIndexEngine := after.readIndexEngine.recordQuorumSuccess leader.currentTerm }
        else after
      called.put leaderId (recorded.checkQuorumCommit faults.leader).1
    else c

def triggerElection (faults : ElectionFaults) (nid : NodeId) (c : RaftCluster σ δ) :
    RaftCluster σ δ × Bool :=
  let (elected, won) := c.campaign faults nid
  if won then (elected.broadcastHeartbeats faults.broadcast nid, true) else (elected, false)

end

/-- Apply a handler to one live replica. -/
def modify (id : NodeId) (f : RaftNode σ δ → RaftNode σ δ) (c : RaftCluster σ δ) :
    RaftCluster σ δ :=
  match c.get id with
  | none => c
  | some node => c.put id (f node)

/-- The calls and events of a run, each with the storage faults it meets. -/
inductive Op (σ δ : Type) where
  | setReplicatedSm (id : NodeId) (m : σ)
  | triggerElection (id : NodeId) (faults : ElectionFaults)
  | proposeBatch (id : NodeId) (cmds : List (RaftCommand δ)) (faults : StorageFaults)
  | proposeDataMutation (id : NodeId) (op : δ) (faults : StorageFaults)
  | broadcastHeartbeats (id : NodeId) (faults : BroadcastFaults)
  | checkQuorumCommit (id : NodeId) (faults : StorageFaults)
  | handleRequestVote (id : NodeId) (args : RequestVoteArgs) (faults : StorageFaults)
  | handleAppendEntries (id : NodeId) (args : AppendEntriesArgs δ) (faults : StorageFaults)
  | crash (id : NodeId)
  | restart (id : NodeId) (fault : Fault)

variable [ReplicatedStateMachine σ δ]

/-- A crashed replica leaves the map; a restart puts back what `try_with_storage`
    builds from its storage, with the voters it was first given. -/
def step (voters : List NodeId) (c : RaftCluster σ δ) : Op σ δ → RaftCluster σ δ
  | .setReplicatedSm id m =>
    c.modify id fun node => { node with replicatedSm := some m }
  | .triggerElection id faults => (c.triggerElection faults id).1
  | .proposeBatch id cmds faults =>
    c.modify id fun node => (node.proposeBatch faults cmds).1
  | .proposeDataMutation id op faults =>
    c.modify id fun node => (node.proposeDataMutation faults op).1
  | .broadcastHeartbeats id faults => c.broadcastHeartbeats faults id
  | .checkQuorumCommit id faults => c.modify id fun node => (node.checkQuorumCommit faults).1
  | .handleRequestVote id args faults =>
    c.modify id fun node => (node.handleRequestVote faults args).1
  | .handleAppendEntries id args faults =>
    c.modify id fun node => (node.handleAppendEntries faults args).1
  | .crash id => { c with ids := c.ids.erase id }
  | .restart id fault =>
    if id ∈ voters ∧ id ∉ c.ids then
      match RaftNode.tryWithStorage fault id voters (c.node id).storage with
      | .ok node => { c.put id node with ids := c.ids ++ [id] }
      | .error _ => c
    else c

def run (voters : List NodeId) (c : RaftCluster σ δ) (ops : List (Op σ δ)) : RaftCluster σ δ :=
  ops.foldl (step voters) c

end RaftCluster
end HoloSphere.Consensus
