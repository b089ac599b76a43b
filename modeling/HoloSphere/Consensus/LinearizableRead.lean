import HoloSphere.Consensus.LeaderCompleteness

/-! # ReadIndex reads

`linearizable_read_index` of `consensus/raft.rs`.  A successful round shows that no
voter has left the leader's term, so no later leader can have committed anything.
What the round does not show is that the leader knows what earlier leaders have
committed: that takes an entry of its own term at its commit index, and a leader
whose first entry was not written serves reads without one.
-/

namespace HoloSphere.Consensus
variable {σ δ : Type}

namespace RaftCluster

/-- The first node in the order of the map that takes itself for the leader. -/
def getLeader (c : RaftCluster σ δ) : Option NodeId := c.ids.find? fun id => (c.node id).isLeader

/-- The confirmation loop; an error of `handle_confirmation` ends the call. -/
def confirmRound (c : RaftCluster σ δ) (leaderId : NodeId) (req : ReadIndexRequest)
    (term quorum : Nat) : List NodeId → ReadIndexEngine → Bool →
      ReadIndexEngine × Except HNSQRError Bool
  | [], eng, reached => (eng, .ok reached)
  | peer :: rest, eng, reached =>
    if peer = leaderId then c.confirmRound leaderId req term quorum rest eng reached
    else
      match c.get peer with
      | none => c.confirmRound leaderId req term quorum rest eng reached
      | some node =>
        match eng.handleConfirmation (node.handleReadIndexRequest req) term quorum with
        | (eng, .error error) => (eng, .error error)
        | (eng, .ok done) =>
          c.confirmRound leaderId req term quorum rest eng (reached || done)

/-- `context` is the random id of the round and `waited` the applied index which the
    leader has reached when `wait_applied` gives up.  No other call runs in between, so
    the term check after the round always passes. -/
def linearizableReadIndex (context waited : Nat) (c : RaftCluster σ δ) :
    RaftCluster σ δ × Except HNSQRError Nat :=
  match c.getLeader with
  | none => (c, .error (.internal "No active Raft leader to coordinate ReadIndex"))
  | some leaderId =>
    let leader := c.node leaderId
    let (eng, req) := leader.readIndexEngine.startReadIndexRound context leader.currentTerm leaderId
    let quorum := leader.votingPeers.length / 2 + 1
    let (eng, outc) := c.confirmRound leaderId req leader.currentTerm quorum
      leader.votingPeers eng (quorum ≤ 1)
    let after := c.put leaderId { leader with readIndexEngine := eng }
    match outc with
    | .error error => (after, .error error)
    | .ok false => (after, .error (.internal
        "ReadIndex round failed to achieve voting quorum confirmation from peers"))
    | .ok true =>
      let readIdx := leader.commitIndex
      if leader.lastApplied < readIdx ∧ waited < readIdx then
        (after, .error (.internal
          s!"Timed out waiting for applied index (current {waited}, target {readIdx})"))
      else (after, .ok readIdx)

variable {c : RaftCluster σ δ}

/-- A round that ends without an error has met no voter of a newer term. -/
theorem confirmRound_ok : ∀ {peers : List NodeId} {eng : ReadIndexEngine} {reached res : Bool},
      (c.confirmRound leaderId ⟨context, term⟩ term quorum peers eng reached).2 = .ok res →
      ∀ p ∈ peers, p ≠ leaderId → p ∈ c.ids → (c.node p).currentTerm ≤ term := by
  intro peers
  induction peers with
  | nil =>
    intro eng reached res _ p mem
    cases mem
  | cons peer rest ih =>
    intro eng reached res confirmed p mem other live
    unfold confirmRound at confirmed
    split at confirmed
    case isTrue self =>
      rcases List.mem_cons.mp mem with rfl | later
      · exact absurd self other
      · exact ih confirmed p later other live
    case isFalse notSelf =>
      by_cases here : peer ∈ c.ids
      · rw [get_of_mem here] at confirmed
        simp only at confirmed
        have cur : (c.node peer).currentTerm ≤ term := by
          by_contra newer
          have stale : term < (c.node peer).currentTerm := by omega
          have mismatch : (c.node peer).currentTerm ≠ term := by omega
          simp [RaftNode.handleReadIndexRequest, stale, ReadIndexEngine.handleConfirmation,
            mismatch] at confirmed
        split at confirmed
        · cases confirmed
        · rcases List.mem_cons.mp mem with rfl | later
          · exact cur
          · exact ih confirmed p later other live
      · rw [get_of_not_mem here] at confirmed
        rcases List.mem_cons.mp mem with rfl | later
        · exact absurd live here
        · exact ih confirmed p later other live

theorem linearizableReadIndex_ok (served : (c.linearizableReadIndex context waited).2 = .ok r) :
    ∃ l, c.getLeader = some l ∧ r = (c.node l).commitIndex ∧
      ∀ p ∈ (c.node l).votingPeers, p ≠ l → p ∈ c.ids →
        (c.node p).currentTerm ≤ (c.node l).currentTerm := by
  unfold linearizableReadIndex at served
  split at served
  · cases served
  case h_2 l found =>
    refine ⟨l, found, ?_⟩
    simp only [ReadIndexEngine.startReadIndexRound] at served
    split at served
    · cases served
    · cases served
    case h_3 confirmed =>
      refine ⟨?_, confirmRound_ok confirmed⟩
      split at served
      · cases served
      · cases served
        rfl

theorem getLeader_some (found : c.getLeader = some l) : l ∈ c.ids ∧ (c.node l).role = .leader := by
  refine ⟨List.mem_of_find?_eq_some found, ?_⟩
  simpa [RaftNode.isLeader] using List.find?_some found

/-- The node that serves reads holds an entry of its own term at its commit index. -/
def CommittedOwnTerm (c : RaftCluster σ δ) : Prop :=
  ∀ l, c.getLeader = some l → ((c.node l).log[(c.node l).commitIndex]?).map RaftLogEntry.term =
      some (c.node l).currentTerm

theorem Tracked.read_dominates {decided : Nat → Nat → Prop} (h : Tracked voters c w decided)
    (own : c.CommittedOwnTerm)
    (served : (c.linearizableReadIndex context waited).2 = .ok r) (made : decided t k) :
    k ≤ r := by
  obtain ⟨l, found, rfl, confirmed⟩ := linearizableReadIndex_ok served
  obtain ⟨live, leads⟩ := getLeader_some found
  obtain ⟨e, here, term⟩ := Option.map_eq_some_iff.mp (own l found)
  have newest : ∀ v ∈ voters, w.term v ≤ w.term l := by
    intro v mem
    rw [(h.group.replica v).term, (h.group.replica l).term]
    by_cases self : v = l
    · rw [self]
    · have peer : v ∈ (c.node l).votingPeers :=
        ((h.group.replica l).keeps (h.group.members l live)).peers.mem_iff.mpr mem
      exact confirmed v peer self (h.live v mem)
  refine h.settled.le_commit (e := e) h.group.sound ((h.group.replica l).leads.mpr leads) newest
    ?_ ?_ made
  · rw [(h.group.replica l).log]
    exact here
  · rw [(h.group.replica l).term]
    exact term

section
variable [ReplicatedStateMachine σ δ]

/-- In a run: a read returns at least every commit index any node has had before. -/
def FreshReads (peers : List NodeId) (ops : List (Op σ δ)) (ready : RaftCluster σ δ → Prop) :
    Prop :=
  ∀ m n a context waited r, m ≤ n → a ∈ (run peers (new peers : RaftCluster σ δ) (ops.take m)).ids →
    ready (run peers (new peers : RaftCluster σ δ) (ops.take n)) →
    ((run peers (new peers : RaftCluster σ δ) (ops.take n)).linearizableReadIndex
      context waited).2 = .ok r →
    ((run peers (new peers : RaftCluster σ δ) (ops.take m)).node a).commitIndex ≤ r

theorem reads_of_own_term_are_fresh (peers : List NodeId) (ops : List (Op σ δ))
    (calls : ∀ op ∈ ops, op.IsCall) (keeps : ∀ op ∈ ops, op.KeepsVoters peers.dedup)
    (clear : Clear peers (new peers) ops) : FreshReads peers ops CommittedOwnTerm := by
  intro m n a context waited r le live own served
  have nonempty := peers_nonempty keeps live
  obtain ⟨w, decided, w', decided', -, grown, pre, after⟩ :=
    tracked_pair nonempty calls keeps clear le
  obtain ⟨t, k, made, -, below, -⟩ := pre.settled.committed a
  exact Nat.le_trans below (after.read_dominates own served (grown t k made))

/-- Node 1 commits index 2 and answers its client; node 2 is elected, fails to write its
    first entry and still has the commit index it had as a follower. -/
def unwrittenFirstEntry : List (Op Nat Nat) :=
  [.setReplicatedSm 1 0, .triggerElection 1 {}, .proposeDataMutation 1 7 {},
    .broadcastHeartbeats 1 {},
    .triggerElection 2 { candidate := { append := fun _ => .before } }]

theorem unwritten_first_entry_serves_stale_reads :
    (((run [1, 2, 3] (new [1, 2, 3] : RaftCluster Nat Nat)
      (unwrittenFirstEntry.take 4)).node 1).pendingProposals.resolved.map
        fun ans => ans.2.toOption.map CommitReceipt.logIndex) = [some 2] ∧
    ¬ FreshReads [1, 2, 3] unwrittenFirstEntry (fun _ => True) := by
  refine ⟨by decide, ?_⟩
  intro fresh
  have served := fresh 4 5 1 0 0 1 (by decide) (by decide) trivial rfl
  exact absurd served (by decide)

def writtenFirstEntry : List (Op Nat Nat) :=
  [.triggerElection 1 {}, .proposeBatch 1 [.noOp] {}, .broadcastHeartbeats 1 {},
    .triggerElection 2 {}]

theorem read_after_written_first_entry_is_fresh :
    ((run [1, 2, 3] (new [1, 2, 3] : RaftCluster Nat Nat)
      (writtenFirstEntry.take 3)).node 1).commitIndex ≤ 3 := by
  refine reads_of_own_term_are_fresh [1, 2, 3] writtenFirstEntry
    (by simp [writtenFirstEntry, Op.IsCall])
    (by simp [writtenFirstEntry, Op.KeepsVoters, RaftCommand.KeepsVoters])
    ⟨.inl rfl, trivial, by simp only [NoOverhang]; decide, .inl rfl, trivial⟩
    3 4 1 0 0 3 (by decide) (by decide) ?_ rfl
  intro l found
  obtain rfl : 2 = l := Option.some.inj found
  decide

end
end RaftCluster
end HoloSphere.Consensus
