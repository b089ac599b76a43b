import HoloSphere.Consensus.Rounds
import Mathlib.Data.List.Dedup
import Mathlib.Data.Nat.Basic
import Mathlib.Logic.Function.Basic
import Mathlib.Order.Basic

/-! # Election safety

At most one node leads in any term, over runs with crashes, restarts and storage
faults.  The history of a run is the winner of each term.  A majority of the
voters is pledged to each winner, in memory and on disk: a voter has left the
term behind or still holds its vote for the winner.
-/

namespace HoloSphere.Consensus
open Replication Function List RaftNode

variable {σ δ : Type}

structure Pledged (t : Nat) (c : NodeId) (node : RaftNode σ δ) : Prop where
  memory : Holds t c node.currentTerm node.votedFor
  disk : Holds t c node.storage.hardState.currentTerm node.storage.hardState.votedFor

theorem Pledged.moved (h : Pledged t c node) (moved : node.Moved node') : Pledged t c node' where
  memory := h.memory.advance moved.memory
  disk := by
    rcases moved.disk with same | forward
    · rw [same]
      exact h.disk
    · exact h.memory.advance forward

/-- The node has reached term `t`, in memory and on disk. -/
structure Reached (t : Nat) (node : RaftNode σ δ) : Prop where
  memory : t ≤ node.currentTerm
  disk : t ≤ node.storage.hardState.currentTerm

theorem Reached.moved (h : Reached t node) (moved : node.Moved node') : Reached t node' where
  memory := h.memory.trans moved.memory.le
  disk := by
    rcases moved.disk with same | forward
    · rw [same]
      exact h.disk
    · exact h.memory.trans forward.le

namespace RaftCluster

structure Safe (voters : List NodeId) (winner : Nat → Option NodeId)
    (cl : RaftCluster σ δ) : Prop where
  members : ∀ p ∈ cl.ids, p ∈ voters
  distinct : cl.ids.Nodup
  keeps : ∀ p ∈ voters, (cl.node p).KeepsVoters voters
  leader : ∀ p ∈ voters, (cl.node p).role = .leader → winner (cl.node p).currentTerm = some p
  won : ∀ t c, winner t = some c → c ∈ voters ∧ Reached t (cl.node c) ∧
    Majority voters (fun v => Pledged t c (cl.node v))

/-- Safe with a history that keeps every winner. -/
def SafeOn (voters : List NodeId) (winner : Nat → Option NodeId) (after : RaftCluster σ δ) : Prop :=
  ∃ winner', (∀ t c, winner t = some c → winner' t = some c) ∧ Safe voters winner' after

theorem Safe.on {cl : RaftCluster σ δ} (h : Safe voters winner cl) : SafeOn voters winner cl :=
  ⟨winner, fun _ _ made => made, h⟩

variable {cl : RaftCluster σ δ}

theorem Safe.kept (h : Safe voters winner cl) (ids : cluster'.ids = cl.ids)
    (kept : ∀ p, (cl.node p).Kept voters (cluster'.node p)) : Safe voters winner cluster' where
  members := ids ▸ h.members
  distinct := ids ▸ h.distinct
  keeps p mem := (kept p).keeps (h.keeps p mem)
  leader p mem role := by
    obtain ⟨led, level⟩ := (kept p).moved.leader role
    rw [level]
    exact h.leader p mem led
  won t c made := by
    obtain ⟨mem, reached, majority⟩ := h.won t c made
    exact ⟨mem, reached.moved (kept c).moved,
      majority.mono fun v _ pledged => pledged.moved (kept v).moved⟩

variable {node : RaftNode σ δ}

theorem pledged_put {id : NodeId} (kept : Pledged t c (cl.node id) → Pledged t c node) :
    Pledged t c (cl.node v) → Pledged t c ((cl.put id node).node v) :=
  forall_put (fun v after => Pledged t c (cl.node v) → Pledged t c after) kept
    (fun _ _ pledged => pledged) v

theorem Safe.put (h : Safe voters winner cl) {id : NodeId} (kept : (cl.node id).Kept voters node) :
    Safe voters winner (cl.put id node) :=
  h.kept rfl (forall_put (fun p => (cl.node p).Kept voters) kept fun _ _ => .refl voters _)

theorem Safe.modify (h : Safe voters winner cl) (id : NodeId)
    (kept : ∀ node : RaftNode σ δ, node.Kept voters (f node)) :
    Safe voters winner (cl.modify id f) := by
  unfold RaftCluster.modify
  by_cases live : id ∈ cl.ids
  · rw [get_of_mem live]
    exact h.put (kept _)
  · rw [get_of_not_mem live]
    exact h

theorem Safe.asked (h : Safe voters winner cl) {faults : ElectionFaults}
    (stood : (cl.node nid).stand (faults.candidate.hardState 0) nid = (cand, ok)) :
    Safe voters winner (cl.asked faults nid cand) :=
  h.kept rfl (forall_asked (fun p => (cl.node p).Kept voters) (stand_kept stood)
    (fun _ => .refl voters _) fun _ => (handleRequestVote_effect _ _ _).kept)

/-- A term that a candidate has just entered and gathered a majority in has no
    winner yet. -/
theorem Safe.unwon (pre : Safe voters winner cl) (after : Safe voters winner cluster')
    (low : (cl.node c).currentTerm < t)
    (votes : Majority voters (fun v => (cluster'.node v).currentTerm = t ∧
      (cluster'.node v).votedFor = some c)) : winner t = none := by
  cases made : winner t with
  | none => rfl
  | some other =>
    obtain ⟨-, -, pledged⟩ := after.won t other made
    obtain rfl := votes.winner_eq (pledged.mono fun v _ pledge => pledge.memory)
    have reached := (pre.won t other made).2.1.memory
    omega

/-- The new leader joins the history.  Its proposal may have changed its log, but not
    what it holds of the election. -/
theorem Safe.win (h : Safe voters winner cl) (mem : c ∈ voters) (fresh : winner t = none)
    {leader : RaftNode σ δ} (level : leader.currentTerm = t)
    (vote : leader.votedFor = (cl.node c).votedFor) (term : (cl.node c).currentTerm = t)
    (disk : leader.storage.hardState = (cl.node c).storage.hardState)
    (diskTerm : t ≤ leader.storage.hardState.currentTerm) (keeps : leader.KeepsVoters voters)
    (votes : Majority voters (fun v => Pledged t c (cl.node v))) :
    Safe voters (update winner t (some c)) (cl.put c leader) := by
  have pledge : ∀ s d, Pledged s d (cl.node c) → Pledged s d leader := by
    intro s d pledged
    refine ⟨?_, ?_⟩
    · rw [level, vote, ← term]
      exact pledged.memory
    · rw [disk]
      exact pledged.disk
  refine ⟨h.members, h.distinct, ?_, ?_, ?_⟩
  · exact forall_put (fun p after => p ∈ voters → after.KeepsVoters voters) (fun _ => keeps)
      fun p _ => h.keeps p
  · intro p hin role
    by_cases same : p = c
    · subst same
      rw [put_same, level, update_self]
    · rw [put_other same] at role ⊢
      have made := h.leader p hin role
      have different : (cl.node p).currentTerm ≠ t := by
        intro equal
        rw [equal, fresh] at made
        cases made
      rwa [update_of_ne different]
  · intro s d made
    by_cases same : s = t
    · subst same
      rw [update_self] at made
      cases made
      refine ⟨mem, ?_, votes.mono fun v _ => pledged_put (pledge s c)⟩
      rw [put_same]
      exact ⟨level.ge, diskTerm⟩
    · rw [update_of_ne same] at made
      obtain ⟨hin, reached, majority⟩ := h.won s d made
      refine ⟨hin, ?_, majority.mono fun v _ => pledged_put (pledge s d)⟩
      by_cases isLeader : d = c
      · subst isLeader
        rw [put_same]
        exact ⟨by rw [level, ← term]; exact reached.memory, by rw [disk]; exact reached.disk⟩
      · rwa [put_other isLeader]

theorem becomeLeader_keepsVoters (keeps : node.KeepsVoters voters) :
    (node.becomeLeader ks).KeepsVoters voters :=
  { keeps with }

theorem Safe.campaign (h : Safe voters winner cl) (uniq : voters.Nodup)
    (faults : ElectionFaults) (mem : nid ∈ voters) :
    SafeOn voters winner (cl.campaign faults nid).1 := by
  have peersDistinct : (cl.node nid).votingPeers.Nodup := (h.keeps nid mem).peers.nodup_iff.mpr uniq
  have eff := campaign_effect faults peersDistinct
  generalize cl.campaign faults nid = res at eff ⊢
  cases eff with
  | idle => exact h.on
  | unsaved cand live stood =>
    exact (h.put (stand_kept stood)).on
  | lost cand live stood =>
    refine ((h.asked stood).put ?_).on
    rw [asked_candidate]
    exact becomeFollower_kept
  | won cand live stood enough =>
    have after := h.asked stood
    obtain ⟨term, vote, disk⟩ := stand_ok stood
    have keeps : cand.KeepsVoters voters := (stand_kept stood).keeps (h.keeps nid mem)
    have eff := proposeBatch_effect faults.candidate [RaftCommand.noOp] (cand.becomeLeader cl.ids)
    have granted : Majority voters (fun v =>
        ((cl.asked faults nid cand).node v).currentTerm = cand.currentTerm ∧
        ((cl.asked faults nid cand).node v).votedFor = some nid ∧
        ((cl.asked faults nid cand).node v).storage.hardState = ⟨cand.currentTerm, some nid⟩) := by
      refine majority_granting mem keeps.peers enough ?_ ?_
      · rw [asked_candidate]
        exact ⟨rfl, vote, disk⟩
      · intro p hin
        have grant := (mem_granting hin).2
        exact ⟨grant.currentTerm, grant.votedFor, grant.hardState⟩
    have fresh : winner cand.currentTerm = none := by
      have low : (cl.node nid).currentTerm < cand.currentTerm := by omega
      refine h.unwon after low (granted.mono ?_)
      exact fun v _ ⟨level, voted, _⟩ => ⟨level, voted⟩
    refine ⟨update winner cand.currentTerm (some nid), ?_, ?_⟩
    · intro t c made
      have different : t ≠ cand.currentTerm := by
        rintro rfl
        rw [fresh] at made
        cases made
      rwa [update_of_ne different]
    · refine after.win mem fresh eff.currentTerm ?_ ?_ ?_ ?_ ?_ ?_
      · rw [asked_candidate]
        exact eff.votedFor
      · rw [asked_candidate]
      · rw [asked_candidate]
        exact eff.hardState
      · rw [eff.hardState]
        exact (congrArg RaftHardState.currentTerm disk).ge
      · exact (eff.kept (by simp [RaftCommand.KeepsVoters])).keeps (becomeLeader_keepsVoters keeps)
      · refine granted.mono ?_
        rintro v - ⟨level, voted, stored⟩
        refine ⟨.inr ⟨level.symm, voted⟩, ?_⟩
        rw [stored]
        exact .inr ⟨rfl, rfl⟩

theorem appendArgs_keepsVoters {leader : RaftNode σ δ} (keeps : leader.KeepsVoters voters) :
    ∀ e ∈ (leader.appendArgs peer).entries, e.command.KeepsVoters voters := by
  intro e mem
  simp only [appendArgs] at mem
  split at mem
  · exact keeps.log e (mem_of_mem_drop mem)
  · cases mem

section
variable [ReplicatedStateMachine σ δ]

theorem Safe.broadcastHeartbeats (h : Safe voters winner cl) (faults : BroadcastFaults)
    (leaderId : NodeId) : Safe voters winner (cl.broadcastHeartbeats faults leaderId) := by
  have eff := broadcastHeartbeats_effect faults leaderId h.distinct
  generalize cl.broadcastHeartbeats faults leaderId = res at eff ⊢
  cases eff with
  | idle => exact h
  | round live leads eng =>
    have leaderKeeps := h.keeps leaderId (h.members leaderId live)
    have called : Safe voters winner (cl.afterRound faults.peer leaderId eng) :=
      h.kept rfl (forall_afterRound faults.peer (fun p => (cl.node p).Kept voters) bookkeeping_kept
        (fun _ => .refl voters _)
        fun _ => handleAppendEntries_kept (appendArgs_keepsVoters leaderKeeps))
    exact called.put checkQuorumCommit_kept

theorem Safe.triggerElection (h : Safe voters winner cl) (uniq : voters.Nodup)
    (faults : ElectionFaults) (nid : NodeId) :
    SafeOn voters winner (cl.triggerElection faults nid).1 := by
  unfold RaftCluster.triggerElection
  by_cases live : nid ∈ cl.ids
  · obtain ⟨winner', grown, safe⟩ := h.campaign uniq faults (h.members nid live)
    refine ⟨winner', grown, ?_⟩
    simp only
    split
    · exact safe.broadcastHeartbeats faults.broadcast nid
    · exact safe
  · simp only [RaftCluster.campaign, get_of_not_mem live]
    exact h.on

variable {peers : List NodeId}

omit [ReplicatedStateMachine σ δ] in
theorem Safe.restart (h : Safe voters winner cl) {id : NodeId} (mem : id ∈ voters)
    (down : id ∉ cl.ids) (known : peers.dedup = voters)
    {node : RaftNode σ δ} (recovered : node.Recovered id peers (cl.node id).storage) :
    Safe voters winner { cl.put id node with ids := cl.ids ++ [id] } := by
  have back : ∀ t c, Pledged t c (cl.node id) → Pledged t c node := by
    intro t c pledged
    refine ⟨?_, ?_⟩
    · rw [recovered.currentTerm, recovered.votedFor]
      exact pledged.disk
    · rw [recovered.hardState]
      exact pledged.disk
  refine ⟨?_, ?_, ?_, ?_, ?_⟩
  · intro p hin
    rcases mem_append.mp hin with old | new
    · exact h.members p old
    · rw [mem_singleton.mp new]
      exact mem
  · exact h.distinct.append (nodup_singleton id) (disjoint_singleton.mpr down)
  · refine forall_put (fun p after => p ∈ voters → after.KeepsVoters voters) (fun _ => ?_)
      fun p _ => h.keeps p
    have stored := (h.keeps id mem).stored
    have fresh : (RaftLogEntry.sentinel : RaftLogEntry δ).command.KeepsVoters voters := trivial
    refine ⟨?_, ?_, ?_⟩
    · rw [recovered.votingPeers, known, insert_of_mem mem]
    · intro e held
      rcases recovered.log e held with old | rfl
      · exact stored e old
      · exact fresh
    · intro e held
      rcases recovered.stored e held with old | rfl
      · exact stored e old
      · exact fresh
  · refine forall_put (fun p after => p ∈ voters → after.role = .leader →
      winner after.currentTerm = some p) (fun _ role => ?_) fun p _ => h.leader p
    rw [recovered.role] at role
    cases role
  · intro t c made
    obtain ⟨hin, reached, majority⟩ := h.won t c made
    refine ⟨hin, forall_put (fun p after => Reached t (cl.node p) → Reached t after)
      (fun reached => ⟨?_, ?_⟩) (fun p _ reached => reached) c reached,
      majority.mono fun v _ => pledged_put (back t c)⟩
    · rw [recovered.currentTerm]
      exact reached.disk
    · rw [recovered.hardState]
      exact reached.disk

/-- Every operation keeps the history and extends it by at most one winner. -/
theorem Safe.step (h : Safe peers.dedup winner cl) {op : Op σ δ}
    (keeps : op.KeepsVoters peers.dedup) :
    SafeOn peers.dedup winner (step peers cl op) := by
  cases op with
  | setReplicatedSm id machine => exact (h.modify id fun node => setReplicatedSm_kept).on
  | triggerElection id faults => exact h.triggerElection (nodup_dedup peers) faults id
  | proposeBatch id cmds faults =>
    exact (h.modify id fun node => (node.proposeBatch_effect faults cmds).kept keeps).on
  | proposeDataMutation id mu faults =>
    refine (h.modify id fun node => node.proposeDataMutation_effect.kept ?_).on
    simp [RaftCommand.KeepsVoters]
  | broadcastHeartbeats id faults => exact (h.broadcastHeartbeats faults id).on
  | checkQuorumCommit id faults => exact (h.modify id fun node => checkQuorumCommit_kept).on
  | handleRequestVote id args faults =>
    exact (h.modify id fun node => (node.handleRequestVote_effect faults args).kept).on
  | handleAppendEntries id args faults =>
    exact (h.modify id fun node => handleAppendEntries_kept keeps).on
  | crash id =>
    refine Safe.on ⟨?_, ?_, h.keeps, h.leader, h.won⟩
    · exact fun p hin => h.members p (mem_of_mem_erase hin)
    · exact h.distinct.erase id
  | restart id fault =>
    apply Safe.on
    simp only [RaftCluster.step]
    split
    case isFalse => exact h
    case isTrue allowed =>
      split
      case h_1 node built =>
        exact h.restart (mem_dedup.mpr allowed.1) allowed.2 rfl (tryWithStorage_recovered built)
      case h_2 => exact h

theorem Safe.run (keeps : ∀ op ∈ ops, op.KeepsVoters peers.dedup) :
    ∀ {winner : Nat → Option NodeId} {cl : RaftCluster σ δ}, Safe peers.dedup winner cl →
      SafeOn peers.dedup winner (run peers cl ops) := by
  induction ops with
  | nil => exact fun h => h.on
  | cons op rest ih =>
    intro winner cl h
    obtain ⟨keepsFirst, keepsRest⟩ := forall_mem_cons.mp keeps
    obtain ⟨between, grown, next⟩ := h.step keepsFirst
    obtain ⟨winner', grown', last⟩ := ih keepsRest next
    exact ⟨winner', fun t c made => grown' t c (grown t c made), last⟩

omit [ReplicatedStateMachine σ δ] in
theorem safe_new : Safe peers.dedup (fun _ => none) (new peers : RaftCluster σ δ) := by
  refine ⟨fun _ hin => hin, (nodup_dedup peers), ?_, ?_, ?_⟩
  · intro p hin
    refine ⟨?_, ?_, ?_⟩
    · show (peers.dedup.insert p).Perm peers.dedup
      rw [insert_of_mem hin]
    · intro e mem
      rw [mem_singleton.mp mem]
      trivial
    · intro e mem
      rw [mem_singleton.mp mem]
      trivial
  · intro p hin role
    cases role
  · intro t c made
    cases made

/-- Two nodes that lead in the same term, at whatever points of one run, are the same
    node. -/
theorem leaders_of_one_term_agree (peers : List NodeId) (pre after : List (Op σ δ))
    (keeps : ∀ op ∈ pre ++ after, op.KeepsVoters peers.dedup) (a b : NodeId)
    (liveA : a ∈ (run peers (new peers : RaftCluster σ δ) pre).ids)
    (leadsA : ((run peers (new peers : RaftCluster σ δ) pre).node a).role = .leader)
    (liveB : b ∈ (run peers (new peers : RaftCluster σ δ) (pre ++ after)).ids)
    (leadsB : ((run peers (new peers : RaftCluster σ δ) (pre ++ after)).node b).role = .leader)
    (sameTerm : ((run peers (new peers : RaftCluster σ δ) pre).node a).currentTerm =
      ((run peers (new peers : RaftCluster σ δ) (pre ++ after)).node b).currentTerm) :
    a = b := by
  have split : run peers (new peers : RaftCluster σ δ) (pre ++ after) =
      run peers (run peers (new peers) pre) after := foldl_append
  rw [split] at liveB leadsB sameTerm
  have keepsBefore : ∀ op ∈ pre, op.KeepsVoters peers.dedup :=
    fun op hin => keeps op (mem_append_left after hin)
  have keepsAfter : ∀ op ∈ after, op.KeepsVoters peers.dedup :=
    fun op hin => keeps op (mem_append_right pre hin)
  obtain ⟨winner, -, fst⟩ := Safe.run keepsBefore (safe_new)
  obtain ⟨winner', grown, snd⟩ := Safe.run keepsAfter fst
  have wonA := grown _ _ (fst.leader a (fst.members a liveA) leadsA)
  have wonB := snd.leader b (snd.members b liveB) leadsB
  rw [sameTerm, wonB] at wonA
  exact (Option.some.inj wonA).symm

/-- A run in which the first leader survives the restart of a voter and an election
    that fails after its term has reached the disk. -/
def interruptedElection : List (Op Nat Nat) :=
  [.crash 2, .restart 2 .none, .triggerElection 3 { candidate := { hardState := fun _ => .after } }]

theorem first_leader_is_only_leader :
    ((run [1, 2, 3] (new [1, 2, 3] : RaftCluster Nat Nat) [.triggerElection 1 {}]).node 1).role =
      .leader ∧ (1 : NodeId) = 1 :=
  ⟨by decide, leaders_of_one_term_agree [1, 2, 3] [.triggerElection 1 {}] interruptedElection
    (by simp [interruptedElection, Op.KeepsVoters]) 1 1 (by decide) (by decide) (by decide)
    (by decide) (by decide)⟩

end
end RaftCluster
end HoloSphere.Consensus
