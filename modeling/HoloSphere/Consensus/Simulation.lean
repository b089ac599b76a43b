import HoloSphere.Consensus.Repair
import HoloSphere.Consensus.ElectionSafety

/-! # The cluster as a replicated group

`Group` relates a cluster without restarts to a sound `World`: the same terms,
votes, leaders and logs, and a history that explains them.  Every call of the
cluster is matched by steps of the world.  What holds of a single replica
(`Replica`) and what it may do (`Follows`) are stated once and applied to all
replicas of a round at the same time.
-/

namespace HoloSphere.Consensus
open Replication Function
variable {σ δ : Type}

/-- A message cut out of a leader's log: everything after `prev_log_index`. -/
structure CutFrom (src : List (RaftLogEntry δ)) (args : AppendEntriesArgs δ) : Prop where
  inside : args.prevLogIndex < src.length
  prev : (src[args.prevLogIndex]?).map RaftLogEntry.term = some args.prevLogTerm
  entries : args.entries = src.drop (args.prevLogIndex + 1)

theorem appendArgs_cutFrom {leader : RaftNode σ δ} (filled : leader.log ≠ [])
    (next : leader.nextIndex peer ≠ some 0) :
    CutFrom leader.log (leader.appendArgs peer) := by
  have size : 0 < leader.log.length := List.length_pos_iff.mpr filled
  have pos : 0 < (leader.nextIndex peer).getD 1 := by
    cases known : leader.nextIndex peer with
    | none => simp
    | some n =>
      have : n ≠ 0 := fun zero => next (by rw [known, zero])
      simp only [Option.getD_some]
      omega
  have hin : (leader.appendArgs peer).prevLogIndex < leader.log.length := by
    simp only [RaftNode.appendArgs]
    omega
  refine ⟨hin, ?_, ?_⟩
  · show _ = some ((leader.log[(leader.appendArgs peer).prevLogIndex]?.map _).getD 0)
    rw [List.getElem?_eq_getElem hin]
    rfl
  · simp only [RaftNode.appendArgs]
    split
    case isTrue more =>
      congr 1
      omega
    case isFalse none =>
      refine (List.drop_eq_nil_of_le ?_).symm
      omega

/-- A follower that passed the check of the previous entry holds the leader's log up to it. -/
theorem CutFrom.held {node : RaftNode σ δ} (cut : CutFrom src args)
    (agrees : Agrees node.log src) (prev : node.prevMatches args) :
    src.take (args.prevLogIndex + 1) <+: node.log := by
  unfold RaftNode.prevMatches at prev
  rw [← cut.prev, List.getElem?_eq_getElem cut.inside] at prev
  obtain ⟨e, here, same⟩ := Option.map_eq_some_iff.mp prev
  obtain ⟨hin, rfl⟩ := List.getElem?_eq_some_iff.mp here
  rw [← agrees _ hin cut.inside same]
  exact List.take_prefix _ _

theorem CutFrom.repaired {node : RaftNode σ δ} (cut : CutFrom src args)
    (agrees : Agrees node.log src) (prev : node.prevMatches args) (faults : StorageFaults)
    (sto : MemoryRaftStorage δ) :
    let repair := RaftNode.repairLog faults 0 (args.prevLogIndex + 1) sto node.log args.entries
    Repaired node.log src repair.log repair.completed := by
  have size : (src.take (args.prevLogIndex + 1)).length = args.prevLogIndex + 1 :=
    List.length_take_of_le cut.inside
  have whole : src.take (args.prevLogIndex + 1) ++ args.entries = src := by
    rw [cut.entries, List.take_append_drop]
  have repaired := repairLog_repaired faults args.entries 0 _ sto node.log whole
    (cut.held agrees prev) agrees
  rwa [size] at repaired

theorem accepted_repaired {node : RaftNode σ δ} (coherent : Coherent rec node.log)
    (coherentSource : Coherent rec src) (cut : CutFrom src args)
    (accepted : node.Accepted faults args res) :
    Repaired node.log src res.1.log res.2.success := by
  obtain ⟨sto, -, log, -, success⟩ := accepted.repair
  rw [log, success]
  exact cut.repaired (.of_coherent coherent coherentSource) accepted.prev faults sto

namespace RaftCluster

/-- The cluster's replicas with the history of `w`. -/
def seen (cl : RaftCluster σ δ) (w : World NodeId (RaftLogEntry δ)) :
    World NodeId (RaftLogEntry δ) :=
  { w with
    term := fun p => (cl.node p).currentTerm
    vote := fun p => (cl.node p).votedFor
    leads := fun p => (cl.node p).role = .leader
    log := fun p => (cl.node p).log }

/-- A replica that never lost its memory, as the world shows it. -/
structure Replica (voters : List NodeId) (w : World NodeId (RaftLogEntry δ)) (p : NodeId)
    (node : RaftNode σ δ) : Prop where
  id : node.id = p
  term : w.term p = node.currentTerm
  vote : w.vote p = node.votedFor
  leads : w.leads p ↔ node.role = .leader
  log : w.log p = node.log
  keeps : p ∈ voters → node.KeepsVoters voters
  next : ∀ q, node.nextIndex q ≠ some 0
  indexed : Indexed node.log

/-- What one replica may do in a step that elects nobody and writes nothing new. -/
structure Follows (voters : List NodeId) (w : World NodeId (RaftLogEntry δ))
    (node node' : RaftNode σ δ) : Prop extends node.Kept voters node' where
  next : (∀ q, node.nextIndex q ≠ some 0) → ∀ q, node'.nextIndex q ≠ some 0
  log : node'.log = node.log ∨ (node'.role ≠ .leader ∧
    node'.log <+: w.record node'.currentTerm ∧ node'.log ≠ [] ∧ ¬ node'.log <+: node.log)

namespace Follows
variable {node : RaftNode σ δ}

theorem of_sameLog (kept : node.Kept voters node') (log : node'.log = node.log)
    (next : node'.nextIndex = node.nextIndex) : Follows voters w node node' :=
  ⟨kept, fun same => next ▸ same, .inl log⟩

theorem refl : Follows voters w node node := .of_sameLog (.refl voters node) rfl rfl

theorem stand (stood : node.stand fault nid = (cand, ok)) : Follows voters w node cand :=
  .of_sameLog (stand_kept stood) (stand_sameLog stood).log (stand_sameLog stood).nextIndex

theorem checkQuorumCommit [ReplicatedStateMachine σ δ] (faults : StorageFaults) :
    Follows voters w node (node.checkQuorumCommit faults).1 := by
  have kept : node.Kept voters (node.checkQuorumCommit faults).1 :=
    RaftNode.checkQuorumCommit_kept
  cases node.checkQuorumCommit_effect faults with
  | nothing same =>
    rw [same]
    exact .refl
  | committed n _ _ applied => exact .of_sameLog kept applied.log applied.nextIndex

end Follows

open World

/-- A cluster whose members never lost their memory, and the world behind it. -/
structure Group (voters : List NodeId) (cl : RaftCluster σ δ)
    (w : World NodeId (RaftLogEntry δ)) : Prop where
  sound : w.Sound voters
  replica : ∀ p, Replica voters w p (cl.node p)
  members : ∀ p ∈ cl.ids, p ∈ voters
  distinct : cl.ids.Nodup
  indexedRecord : ∀ t, Indexed (w.record t)

namespace Group
variable {cl : RaftCluster σ δ}

theorem coherent (g : Group voters cl w) (p : NodeId) : Coherent w.record (cl.node p).log :=
  (g.replica p).log ▸ g.sound.coherent_log p

theorem inhabited (g : Group voters cl w) (p : NodeId) : (cl.node p).log ≠ [] :=
  (g.replica p).log ▸ g.sound.inhabited p

theorem record_eq_log (g : Group voters cl w) (leads : (cl.node p).role = .leader) :
    w.record (cl.node p).currentTerm = (cl.node p).log := by
  rw [← (g.replica p).term, ← (g.replica p).log]
  exact (g.sound.leader p ((g.replica p).leads.mpr leads)).2

theorem steps_seen {cluster' : RaftCluster σ δ} (g : Group voters cl w)
    (follows : ∀ p, Follows voters w (cl.node p) (cluster'.node p)) :
    Steps voters w (seen cluster' w) := by
  have turned : w.Turns (fun p => (cluster'.node p).currentTerm)
      (fun p => (cluster'.node p).votedFor) (fun p => (cluster'.node p).role = .leader) := by
    refine ⟨fun p => ?_, fun p leads => ?_⟩
    · rw [(g.replica p).term, (g.replica p).vote]
      exact (follows p).moved.memory
    · obtain ⟨led, level⟩ := (follows p).moved.leader leads
      rw [(g.replica p).leads, (g.replica p).term]
      exact ⟨led, level.symm⟩
  refine (Relation.ReflTransGen.single (.turn turned)).tail
    (@Step.adopt _ _ _ _ _ _ (fun p => (cluster'.node p).log) fun p => ?_)
  show _ = w.log p ∨ (_ ∧ _ ∧ _ ∧ ¬ _ <+: w.log p)
  rw [(g.replica p).log]
  exact (follows p).log

theorem follow (g : Group voters cl w) (ids : cluster'.ids = cl.ids)
    (follows : ∀ p, Follows voters w (cl.node p) (cluster'.node p)) :
    Steps voters w (seen cluster' w) ∧ Group voters cluster' (seen cluster' w) := by
  have steps : Steps voters w (seen cluster' w) := g.steps_seen follows
  refine ⟨steps, Steps.sound steps g.sound, fun p => ?_, ids ▸ g.members, ids ▸ g.distinct,
    g.indexedRecord⟩
  have old := g.replica p
  refine ⟨(follows p).moved.id.trans old.id, rfl, rfl, Iff.rfl, rfl,
    fun mem => (follows p).keeps (old.keeps mem), (follows p).next old.next, ?_⟩
  rcases (follows p).log with same | ⟨-, part, -, -⟩
  · rw [same]
    exact old.indexed
  · exact (g.indexedRecord _).of_isPrefix part

theorem acknowledge (g : Group voters cl w) (legal : w.Acknowledges extra) :
    Group voters cl (w.acknowledge extra) :=
  { g with sound := g.sound.acknowledge legal, replica := fun p => { g.replica p with } }

variable {node : RaftNode σ δ} {id : NodeId}

theorem followOne (g : Group voters cl w) (id : NodeId)
    (follows : Follows voters w (cl.node id) node) :
    Steps voters w (seen (cl.put id node) w) ∧
      Group voters (cl.put id node) (seen (cl.put id node) w) :=
  g.follow rfl (forall_put (fun p => Follows voters w (cl.node p)) follows fun _ _ => .refl)

/-- A message cut out of a leader's log may be handled by anyone. -/
theorem follows_append [ReplicatedStateMachine σ δ] (g : Group voters cl w)
    {args : AppendEntriesArgs δ} (part : src <+: w.record args.term) (cut : CutFrom src args)
    (keeps : ∀ e ∈ args.entries, e.command.KeepsVoters voters) :
    Follows voters w (cl.node p) ((cl.node p).handleAppendEntries faults args).1 := by
  have coherentSource := (g.sound.coherent_record args.term).of_isPrefix part
  have kept : (cl.node p).Kept voters ((cl.node p).handleAppendEntries faults args).1 :=
    RaftNode.handleAppendEntries_kept keeps
  cases (cl.node p).handleAppendEntries_effect faults args with
  | refused moved same failed => exact .of_sameLog kept same.log same.nextIndex
  | accepted eff =>
    refine ⟨kept, fun old => eff.nextIndex ▸ old, ?_⟩
    rcases (accepted_repaired (g.coherent p) coherentSource cut eff).outcome with same | ⟨lead, new⟩
    · exact .inl same
    · refine .inr ⟨eff.follows, ?_, fun none => new (none ▸ List.nil_prefix), new⟩
      rw [eff.term]
      exact lead.trans part

/-- What a leader would send, as a message cut out of the record of its term. -/
theorem appendArgs_cut (g : Group voters cl w) (leads : (cl.node l).role = .leader) :
    (cl.node l).log <+: w.record ((cl.node l).appendArgs p).term ∧
      CutFrom (cl.node l).log ((cl.node l).appendArgs p) := by
  refine ⟨?_, appendArgs_cutFrom (g.inhabited l) ((g.replica l).next p)⟩
  show _ <+: w.record (cl.node l).currentTerm
  rw [g.record_eq_log leads]

/-- The AppendEntries calls of a heartbeat round and the leader's bookkeeping. -/
theorem round [ReplicatedStateMachine σ δ] (g : Group voters cl w)
    (faults : NodeId → StorageFaults) (live : leaderId ∈ cl.ids)
    (leads : (cl.node leaderId).role = .leader) (eng : ReadIndexEngine) :
    Steps voters w (seen (cl.afterRound faults leaderId eng) w) ∧
      Group voters (cl.afterRound faults leaderId eng)
        (seen (cl.afterRound faults leaderId eng) w) := by
  have leaderKeeps := (g.replica leaderId).keeps (g.members leaderId live)
  refine g.follow rfl (forall_afterRound faults (fun p => Follows voters w (cl.node p)) ?_
    (fun _ => .refl) fun p => ?_)
  · refine ⟨bookkeeping_kept, fun old q => ?_, .inl rfl⟩
    simp only [bookkeeping]
    cases cl.reported faults leaderId (cl.node leaderId) cl.ids q with
    | none => exact old q
    | some matched => simp
  · obtain ⟨part, cut⟩ := g.appendArgs_cut leads
    exact g.follows_append part cut (appendArgs_keepsVoters leaderKeeps)

theorem broadcastHeartbeats [ReplicatedStateMachine σ δ] (g : Group voters cl w)
    (faults : BroadcastFaults) (leaderId : NodeId) :
    ∃ w', Steps voters w w' ∧ Group voters (cl.broadcastHeartbeats faults leaderId) w' := by
  have eff := broadcastHeartbeats_effect faults leaderId g.distinct
  generalize cl.broadcastHeartbeats faults leaderId = res at eff ⊢
  cases eff with
  | idle => exact ⟨w, .refl, g⟩
  | round live leads eng =>
    obtain ⟨steps, group⟩ := g.round faults.peer live leads eng
    obtain ⟨more, last⟩ := group.followOne leaderId (.checkQuorumCommit _)
    exact ⟨_, steps.trans more, last⟩

/-- A proposal as an extension of the leader's log, empty when it was not written. -/
theorem written (g : Group voters cl w) {cmds : List (RaftCommand δ)}
    (eff : (cl.node id).ProposeEffect cmds node) :
    ∃ ents, node.log = (cl.node id).log ++ ents ∧ (∀ e ∈ ents, e.term = (cl.node id).currentTerm) ∧
      Indexed ((cl.node id).log ++ ents) ∧
      (ents = [] ∨ (cl.node id).role = .leader) := by
  rcases eff.log with ⟨same, -⟩ | ⟨leads, grown, -⟩
  · exact ⟨[], by simp [same], by simp, by simpa using (g.replica id).indexed, .inl rfl⟩
  · exact ⟨_, grown, fun e mem => (RaftNode.mem_newEntries mem).1,
      (g.replica id).indexed.newEntries cmds, .inr leads⟩

theorem propose (g : Group voters cl w) {cmds : List (RaftCommand δ)}
    (eff : (cl.node id).ProposeEffect cmds node) (new : ∀ c ∈ cmds, c.KeepsVoters voters) :
    ∃ w', Steps voters w w' ∧ Group voters (cl.put id node) w' := by
  obtain ⟨ents, grown, own, indexed, allowed⟩ := g.written eff
  have old := g.replica id
  have kept := eff.kept new
  rcases allowed with rfl | leads
  · rw [List.append_nil] at grown
    obtain ⟨steps, group⟩ := g.followOne _ (.of_sameLog kept grown eff.nextIndex)
    exact ⟨_, steps, group⟩
  · have step : Step voters w (w.extend id ents) :=
      .extend id (old.leads.mpr leads) ents (by rw [old.term]; exact own)
    refine ⟨w.extend id ents, .single step, step.sound g.sound, ?_, g.members, g.distinct, ?_⟩
    · refine forall_put (Replica voters (w.extend id ents)) ?_ fun p other =>
        { g.replica p with log := (update_of_ne other ..).trans (g.replica p).log }
      exact
        { id := eff.id.trans old.id
          term := old.term.trans eff.currentTerm.symm
          vote := old.vote.trans eff.votedFor.symm
          leads := by rw [eff.role]; exact old.leads
          log := by rw [grown, ← old.log]; exact update_self ..
          keeps := fun mem => kept.keeps (old.keeps mem)
          next := eff.nextIndex ▸ old.next
          indexed := grown ▸ indexed }
    · rw [← old.log] at indexed
      exact (forall_update_iff w.record fun _ log => Indexed log).mpr
        ⟨indexed, fun t _ => g.indexedRecord t⟩

theorem lastStamp_eq_lastLog (node : RaftNode σ δ) : lastStamp node.log = node.lastLog.term := by
  unfold lastStamp RaftNode.lastLog
  rw [List.getLastD_eq_getLast?]
  cases node.log.getLast? with
  | none => rfl
  | some e => rfl

theorem lastLog_index (filled : node.log ≠ []) (indexed : Indexed node.log) :
    node.lastLog.index = node.log.length - 1 := by
  have last : node.log[node.log.length - 1]? = some node.lastLog := by
    unfold RaftNode.lastLog
    rw [← List.getLast?_eq_getElem?, List.getLastD_eq_getLast?,
      List.getLast?_eq_some_getLast filled]
    rfl
  exact indexed _ _ last

/-- The check of `handle_request_vote` is the election restriction. -/
theorem upToDate_of_granted {cand : RaftNode σ δ}
    (grant : RaftNode.Granted (cand.voteArgs nid) voter voter')
    (filled : cand.log ≠ []) (indexed : Indexed cand.log) (voterFilled : voter.log ≠ [])
    (voterIndexed : Indexed voter.log) :
    UpToDate cand.log voter.log := by
  have check := grant.upToDate
  simp only [RaftNode.voteArgs, lastLog_index filled indexed,
    lastLog_index voterFilled voterIndexed] at check
  have size : 0 < cand.log.length := List.length_pos_iff.mpr filled
  unfold UpToDate
  rw [lastStamp_eq_lastLog, lastStamp_eq_lastLog]
  rcases check with newer | ⟨level, long⟩
  · exact .inl newer
  · exact .inr ⟨level, by omega⟩

theorem asked (g : Group voters cl w) {faults : ElectionFaults}
    (stood : (cl.node nid).stand (faults.candidate.hardState 0) nid = (cand, ok)) :
    Steps voters w (seen (cl.asked faults nid cand) w) ∧
      Group voters (cl.asked faults nid cand) (seen (cl.asked faults nid cand) w) := by
  refine g.follow rfl (forall_asked (fun p => Follows voters w (cl.node p)) (.stand stood)
    (fun _ => .refl) fun p => ?_)
  have eff := (cl.node p).handleRequestVote_effect (faults.vote p) (cand.voteArgs nid)
  exact .of_sameLog eff.kept eff.sameLog.log eff.sameLog.nextIndex

/-- The winner of an election takes the lead. -/
theorem elect (g : Group voters cl w) (pos : 0 < (cl.node id).currentTerm)
    (fresh : w.winner (cl.node id).currentTerm = none)
    (votes : Majority voters (fun v =>
      (cl.node v).currentTerm = (cl.node id).currentTerm ∧
      (cl.node v).votedFor = some id ∧
      UpToDate (cl.node id).log (cl.node v).log)) (keys : List NodeId) :
    Step voters w (w.elect id) ∧
      Group voters (cl.put id ((cl.node id).becomeLeader keys)) (w.elect id) := by
  have old := g.replica id
  have step : Step voters w (w.elect id) := by
    refine .elect ⟨?_, ?_, ?_⟩
    · rwa [old.term]
    · rwa [old.term]
    · simpa [(g.replica _).term, (g.replica _).vote, (g.replica _).log] using votes
  have size : 0 < (cl.node id).log.length := List.length_pos_iff.mpr (g.inhabited id)
  refine ⟨step, step.sound g.sound, ?_, g.members, g.distinct, ?_⟩
  · refine forall_put (Replica voters (w.elect id)) ?_ fun p other => ?_
    · refine
        { old with
          leads := by simp [World.elect, RaftNode.becomeLeader]
          keeps := fun mem => becomeLeader_keepsVoters (old.keeps mem)
          next := fun q => ?_ }
      simp only [RaftNode.becomeLeader]
      split
      · intro zero
        have := Option.some.inj zero
        omega
      · exact old.next q
    · refine { g.replica p with leads := ?_ }
      simp only [World.elect, update_of_ne other]
      exact (g.replica p).leads
  · refine (forall_update_iff w.record fun _ log => Indexed log).mpr
      ⟨?_, fun t _ => g.indexedRecord t⟩
    rw [old.log]
    exact old.indexed

section
variable {cand : RaftNode σ δ} {voters : List NodeId} (mem : nid ∈ voters)
  (stood : (cl.node nid).stand (faults.candidate.hardState 0) nid = (cand, true))
  (enough : cand.votingPeers.length / 2 + 1 ≤ 1 + (cl.granting faults nid cand).length)

include mem stood enough

/-- The votes behind a won election. -/
theorem votes (g : Group voters cl w) :
    Majority voters (fun v =>
      ((cl.asked faults nid cand).node v).currentTerm =
        ((cl.asked faults nid cand).node nid).currentTerm ∧
      ((cl.asked faults nid cand).node v).votedFor = some nid ∧
      UpToDate ((cl.asked faults nid cand).node nid).log
        ((cl.asked faults nid cand).node v).log) := by
  have own := stand_sameLog stood
  have keeps := own.keepsVoters ((g.replica nid).keeps mem)
  refine majority_granting mem keeps.peers enough ?_ ?_
  · rw [asked_candidate]
    exact ⟨rfl, (stand_ok stood).2.1, .inr ⟨rfl, le_rfl⟩⟩
  · intro p hin
    obtain ⟨other, grant⟩ := mem_granting hin
    have sameLog : ((cl.asked faults nid cand).node p).log = (cl.node p).log := by
      rcases asked_peer faults other cand cl with untouched | called
      · rw [untouched]
      · rw [called]
        exact (RaftNode.handleRequestVote_effect _ _ _).sameLog.log
    rw [asked_candidate, sameLog]
    refine ⟨grant.currentTerm, grant.votedFor, upToDate_of_granted grant ?_ ?_
      (g.inhabited p) (g.replica p).indexed⟩
    · rw [own.log]
      exact g.inhabited nid
    · rw [own.log]
      exact (g.replica nid).indexed

theorem fresh (g : Group voters cl w) : w.winner cand.currentTerm = none := by
  have votes := g.votes mem stood enough
  rw [asked_candidate] at votes
  have low : w.term nid < cand.currentTerm := by
    rw [(g.replica nid).term, (stand_ok stood).1]
    exact Nat.lt_succ_self _
  have count : Majority voters (fun v =>
      (seen (cl.asked faults nid cand) w).term v = cand.currentTerm ∧
      (seen (cl.asked faults nid cand) w).vote v = some nid) :=
    votes.mono fun v _ ⟨level, voted, _⟩ => ⟨level, voted⟩
  have unwon := g.sound.unwon (g.asked stood).2.sound rfl low count
  exact unwon

/-- Nobody holds an entry of a term that is only now being won. -/
theorem unused (g : Group voters cl w) (p : NodeId) :
    ∀ e ∈ (cl.node p).log, e.term ≠ cand.currentTerm := by
  intro e hin
  have pos : 0 < cand.currentTerm := by
    rw [(stand_ok stood).1]
    exact Nat.succ_pos _
  have empty := g.sound.unelected _ pos (g.fresh mem stood enough)
  rw [← (g.replica p).log] at hin
  exact g.sound.stamp_ne empty hin

end

theorem campaign (g : Group voters cl w) (uniq : voters.Nodup) (faults : ElectionFaults)
    (nid : NodeId) :
    ∃ w', Steps voters w w' ∧ Group voters (cl.campaign faults nid).1 w' := by
  by_cases live : nid ∈ cl.ids
  · have mem := g.members nid live
    have peersDistinct : (cl.node nid).votingPeers.Nodup :=
      ((g.replica nid).keeps mem).peers.nodup_iff.mpr uniq
    have eff := campaign_effect faults peersDistinct
    generalize cl.campaign faults nid = res at eff ⊢
    cases eff with
    | idle => exact ⟨w, .refl, g⟩
    | unsaved cand live stood =>
      obtain ⟨steps, group⟩ := g.followOne _ (.stand stood)
      exact ⟨_, steps, group⟩
    | lost cand live stood =>
      obtain ⟨steps, group⟩ := g.asked stood
      have beaten : Follows voters (seen (cl.asked faults nid cand) w)
          ((cl.asked faults nid cand).node nid) { cand with role := .follower } := by
        rw [asked_candidate]
        exact .of_sameLog becomeFollower_kept rfl rfl
      obtain ⟨more, last⟩ := group.followOne _ beaten
      exact ⟨_, steps.trans more, last⟩
    | won cand live stood enough =>
      obtain ⟨steps, group⟩ := g.asked stood
      have term := (stand_ok stood).1
      have votes := g.votes mem stood enough
      have fresh : w.winner ((cl.asked faults nid cand).node nid).currentTerm = none := by
        rw [asked_candidate]
        exact g.fresh mem stood enough
      obtain ⟨step, elected⟩ := group.elect (by rw [asked_candidate, term]; omega) fresh votes
        cl.ids
      rw [asked_candidate] at elected
      have eff := RaftNode.proposeBatch_effect faults.candidate [RaftCommand.noOp]
        (cand.becomeLeader cl.ids)
      rw [← put_same nid (cand.becomeLeader cl.ids) (cl.asked faults nid cand)] at eff
      obtain ⟨w', more, last⟩ := elected.propose eff (by simp [RaftCommand.KeepsVoters])
      rw [put_put, put_same] at last
      exact ⟨w', (steps.tail step).trans more, last⟩
  · simp only [RaftCluster.campaign, get_of_not_mem live]
    exact ⟨w, .refl, g⟩

end Group

theorem group_new : Group peers.dedup (new peers : RaftCluster σ δ) (.genesis .sentinel) where
  sound := sound_genesis _ rfl
  replica p := by
    refine ⟨rfl, rfl, rfl, ⟨False.elim, fun role => by cases role⟩, rfl, (safe_new).keeps p,
      fun q => ?_, Indexed.sentinel⟩
    simp [new, RaftNode.new]
  members _ mem := mem
  distinct := List.nodup_dedup peers
  indexedRecord t := by
    by_cases start : t = 0
    · subst start
      exact Indexed.sentinel
    · intro k e here
      simp [genesis, start] at here

end RaftCluster
end HoloSphere.Consensus
