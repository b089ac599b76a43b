import HoloSphere.Consensus.Simulation

/-! # Log matching

Runs of a cluster over a network that keeps every AppendEntries message a leader
ever built and may hand it to any node at any time, any number of times.  As long
as no command changes the set of voters, two logs that share an entry of the same
index and term are identical up to it.  A Membership command takes effect on each
node when that node applies it, so it can give one term two leaders; the last
section is such a run.
-/

namespace HoloSphere.Consensus
open Replication World
variable {σ δ : Type}

structure Network (σ δ : Type) where
  cluster : RaftCluster σ δ
  sent : List (AppendEntriesArgs δ) := []

/-- The messages of a heartbeat round of `leaderId`. -/
def RaftCluster.built (leaderId : NodeId) (cl : RaftCluster σ δ) : List (AppendEntriesArgs δ) :=
  match cl.get leaderId with
  | none => []
  | some leader =>
    if leader.isLeader then
      (cl.ids.filter (· ≠ leaderId)).map fun peer => leader.appendArgs peer
    else []

namespace Network

/-- `campaign` and `send` leave the heartbeats of an election or of a round in
    flight; the other calls also deliver them. -/
inductive Event (σ δ : Type) where
  | setReplicatedSm (id : NodeId) (m : σ)
  | triggerElection (id : NodeId) (faults : ElectionFaults)
  | campaign (id : NodeId) (faults : ElectionFaults)
  | proposeBatch (id : NodeId) (cmds : List (RaftCommand δ)) (faults : StorageFaults)
  | broadcastHeartbeats (id : NodeId) (faults : BroadcastFaults)
  | send (id : NodeId)
  | checkQuorumCommit (id : NodeId) (faults : StorageFaults)
  | deliver (msg : Nat) (id : NodeId) (faults : StorageFaults)

def Event.KeepsVoters (voters : List NodeId) : Event σ δ → Prop
  | .proposeBatch _ cmds _ => ∀ c ∈ cmds, c.KeepsVoters voters
  | _ => True

def new (peers : List NodeId) : Network σ δ := ⟨.new peers, []⟩

section
open RaftCluster

/-- A message in flight was cut out of some leader's log. -/
structure Genuine (voters : List NodeId) (w : World NodeId (RaftLogEntry δ))
    (args : AppendEntriesArgs δ) : Prop where
  source : ∃ src, src <+: w.record args.term ∧ CutFrom src args
  keeps : ∀ e ∈ args.entries, e.command.KeepsVoters voters

structure Linked (voters : List NodeId) (net : Network σ δ)
    (w : World NodeId (RaftLogEntry δ)) : Prop where
  group : Group voters net.cluster w
  sent : ∀ args ∈ net.sent, Genuine voters w args

theorem Genuine.evolve (h : Genuine voters w args) (ev : Evolves w w') :
    Genuine voters w' args := by
  obtain ⟨src, part, cut⟩ := h.source
  exact ⟨⟨src, part.trans (ev.record _), cut⟩, h.keeps⟩

variable {cl : RaftCluster σ δ}

theorem genuine_built (g : Group voters cl w) (id : NodeId) :
    ∀ args ∈ cl.built id, Genuine voters w args := by
  intro args mem
  unfold RaftCluster.built at mem
  by_cases live : id ∈ cl.ids
  · simp only [get_of_mem live] at mem
    split at mem
    case isFalse => cases mem
    case isTrue leading =>
      have leads : (cl.node id).role = .leader := by
        simpa [RaftNode.isLeader] using leading
      obtain ⟨peer, -, rfl⟩ := List.mem_map.mp mem
      obtain ⟨part, cut⟩ := g.appendArgs_cut leads
      exact ⟨⟨_, part, cut⟩, appendArgs_keepsVoters ((g.replica id).keeps (g.members id live))⟩
  · simp only [get_of_not_mem live] at mem
    cases mem

theorem Linked.advance (h : Linked voters net w)
    {w' : World NodeId (RaftLogEntry δ)} (steps : Steps voters w w')
    (group : Group voters cl w') {fresh : List (AppendEntriesArgs δ)}
    (genuine : ∀ args ∈ fresh, Genuine voters w' args) :
    Linked voters ⟨cl, net.sent ++ fresh⟩ w' := by
  refine ⟨group, ?_⟩
  intro args mem
  rcases List.mem_append.mp mem with old | new
  · exact (h.sent args old).evolve (Steps.evolves steps h.group.sound)
  · exact genuine args new

theorem Linked.silent (h : Linked voters net w)
    {w' : World NodeId (RaftLogEntry δ)} (steps : Steps voters w w')
    (group : Group voters cl w') : Linked voters { net with cluster := cl } w' :=
  ⟨group, fun args mem =>
    (h.sent args mem).evolve (Steps.evolves steps h.group.sound)⟩

/-- A call on one live replica that follows. -/
theorem Linked.modify (h : Linked voters net w) (id : NodeId)
    (follows : Follows voters w (net.cluster.node id) (f (net.cluster.node id))) :
    ∃ w', Steps voters w w' ∧ Linked voters { net with cluster := net.cluster.modify id f } w' := by
  unfold RaftCluster.modify
  by_cases live : id ∈ net.cluster.ids
  · simp only [get_of_mem live]
    obtain ⟨steps, group⟩ := h.group.followOne _ follows
    exact ⟨_, steps, h.silent steps group⟩
  · simp only [get_of_not_mem live]
    exact ⟨w, .refl, h⟩

end

variable [ReplicatedStateMachine σ δ]

def step (net : Network σ δ) : Event σ δ → Network σ δ
  | .setReplicatedSm id m =>
    { net with cluster := net.cluster.modify id fun node =>
        { node with replicatedSm := some m } }
  | .triggerElection id faults =>
    ⟨(net.cluster.triggerElection faults id).1,
      net.sent ++ (net.cluster.campaign faults id).1.built id⟩
  | .campaign id faults =>
    ⟨(net.cluster.campaign faults id).1, net.sent ++ (net.cluster.campaign faults id).1.built id⟩
  | .proposeBatch id cmds faults =>
    { net with cluster := net.cluster.modify id fun node =>
        (node.proposeBatch faults cmds).1 }
  | .broadcastHeartbeats id faults =>
    ⟨net.cluster.broadcastHeartbeats faults id, net.sent ++ net.cluster.built id⟩
  | .send id => { net with sent := net.sent ++ net.cluster.built id }
  | .checkQuorumCommit id faults =>
    { net with cluster := net.cluster.modify id fun node => (node.checkQuorumCommit faults).1 }
  | .deliver msg id faults =>
    match net.sent[msg]? with
    | none => net
    | some args =>
      { net with cluster := net.cluster.modify id fun node =>
          (node.handleAppendEntries faults args).1 }

def run (net : Network σ δ) (events : List (Event σ δ)) : Network σ δ := events.foldl step net

section
open RaftCluster

theorem Linked.step (h : Linked voters net w) (uniq : voters.Nodup) {event : Event σ δ}
    (keeps : event.KeepsVoters voters) :
    ∃ w', Steps voters w w' ∧ Linked voters (net.step event) w' := by
  cases event with
  | setReplicatedSm id m =>
    exact h.modify id (.of_sameLog setReplicatedSm_kept rfl rfl)
  | triggerElection id faults =>
    obtain ⟨between, steps, group⟩ := h.group.campaign uniq faults id
    have genuine := genuine_built group id
    simp only [Network.step, RaftCluster.triggerElection]
    split
    · obtain ⟨w', more, last⟩ := group.broadcastHeartbeats faults.broadcast id
      refine ⟨w', steps.trans more, h.advance (steps.trans more) last ?_⟩
      exact fun args mem =>
        (genuine args mem).evolve (Steps.evolves more group.sound)
    · exact ⟨between, steps, h.advance steps group genuine⟩
  | campaign id faults =>
    obtain ⟨w', steps, group⟩ := h.group.campaign uniq faults id
    exact ⟨w', steps, h.advance steps group (genuine_built group id)⟩
  | proposeBatch id cmds faults =>
    simp only [Network.step, RaftCluster.modify]
    by_cases live : id ∈ net.cluster.ids
    · simp only [get_of_mem live]
      obtain ⟨w', steps, group⟩ := h.group.propose
        ((net.cluster.node id).proposeBatch_effect faults cmds) keeps
      exact ⟨w', steps, h.silent steps group⟩
    · simp only [get_of_not_mem live]
      exact ⟨w, .refl, h⟩
  | broadcastHeartbeats id faults =>
    obtain ⟨w', steps, group⟩ := h.group.broadcastHeartbeats faults id
    refine ⟨w', steps, h.advance steps group ?_⟩
    exact fun args mem => (genuine_built h.group id args mem).evolve
      (Steps.evolves steps h.group.sound)
  | send id => exact ⟨w, .refl, h.advance .refl h.group (genuine_built h.group id)⟩
  | checkQuorumCommit id faults => exact h.modify id (.checkQuorumCommit _)
  | deliver msg id faults =>
    simp only [Network.step]
    split
    · exact ⟨w, .refl, h⟩
    case h_2 args found =>
      have genuine := h.sent args (List.mem_of_getElem? found)
      obtain ⟨src, part, cut⟩ := genuine.source
      exact h.modify id (h.group.follows_append part cut genuine.keeps)

theorem Linked.run (uniq : voters.Nodup) (keeps : ∀ event ∈ events, event.KeepsVoters voters) :
    ∀ {net : Network σ δ} {w : World NodeId (RaftLogEntry δ)}, Linked voters net w →
      ∃ w', Linked voters (net.run events) w' := by
  induction events with
  | nil => exact fun h => ⟨_, h⟩
  | cons event rest ih =>
    intro net w h
    obtain ⟨keepsFirst, keepsRest⟩ := List.forall_mem_cons.mp keeps
    obtain ⟨w', -, next⟩ := h.step uniq keepsFirst
    exact ih keepsRest next

/-- Entries stand at their index, and two logs with a common index and term are
    identical up to it. -/
structure Matching (net : Network σ δ) : Prop where
  indexed : ∀ p ∈ net.cluster.ids, Indexed (net.cluster.node p).log
  identical : ∀ p ∈ net.cluster.ids, ∀ q ∈ net.cluster.ids,
    ∀ a ∈ (net.cluster.node p).log, ∀ b ∈ (net.cluster.node q).log,
      a.index = b.index → a.term = b.term →
        (net.cluster.node p).log.take (a.index + 1) = (net.cluster.node q).log.take (a.index + 1)

omit [ReplicatedStateMachine σ δ] in
theorem Linked.matching (h : Linked voters net w) : net.Matching where
  indexed p _ := (h.group.replica p).indexed
  identical p _ q _ a inP b inQ sameIndex sameTerm := by
    obtain ⟨i, hereP⟩ := List.getElem?_of_mem inP
    obtain ⟨j, hereQ⟩ := List.getElem?_of_mem inQ
    have atI := (h.group.replica p).indexed i a hereP
    have atJ := (h.group.replica q).indexed j b hereQ
    have level : i = j := by omega
    subst level
    obtain ⟨insideP, valueP⟩ := List.getElem?_eq_some_iff.mp hereP
    obtain ⟨insideQ, valueQ⟩ := List.getElem?_eq_some_iff.mp hereQ
    rw [atI]
    refine (h.group.coherent p).matching (h.group.coherent q) insideP insideQ ?_
    rw [valueP, valueQ]
    exact sameTerm

/-- In every state of a run whose proposals leave the voters as they are, whatever
    the storage calls do and whenever messages arrive. -/
theorem logs_match_while_voters_stay (peers : List NodeId) (events : List (Event σ δ))
    (keeps : ∀ event ∈ events, event.KeepsVoters peers.dedup) :
    ((new peers : Network σ δ).run events).Matching := by
  have start : Linked peers.dedup (new peers : Network σ δ) (.genesis .sentinel) :=
    ⟨group_new, fun _ mem => by cases mem⟩
  obtain ⟨w, linked⟩ := Linked.run (List.nodup_dedup peers) keeps start
  exact linked.matching

/-- A leader makes itself the only voter, wins a second term alone while its
    heartbeats fail, and the other two nodes elect a leader in that same term. -/
def splitVoters : List (Event Nat Nat) :=
  [.triggerElection 1 {}, .proposeBatch 1 [.membership ⟨[1]⟩] {}, .broadcastHeartbeats 1 {},
    .triggerElection 1 { broadcast := { peer := fun _ => { hardState := fun _ => .before } } },
    .proposeBatch 1 [.data 7] {}, .triggerElection 2 {}, .proposeBatch 2 [.data 8] {}]

theorem split_voters_break_matching :
    ¬ ((new [1, 2, 3] : Network Nat Nat).run splitVoters).Matching := by
  intro matching
  have left : (⟨2, 4, .data 7⟩ : RaftLogEntry Nat) ∈
      (((new [1, 2, 3] : Network Nat Nat).run splitVoters).cluster.node 1).log := by decide
  have right : (⟨2, 4, .data 8⟩ : RaftLogEntry Nat) ∈
      (((new [1, 2, 3] : Network Nat Nat).run splitVoters).cluster.node 2).log := by decide
  have same := matching.identical 1 (by decide) 2 (by decide) _ left _ right rfl rfl
  exact absurd same (by decide)

theorem late_duplicate_keeps_matching : ((new [1, 2, 3] : Network Nat Nat).run
      [.triggerElection 1 {}, .proposeBatch 1 [.data 7] {}, .send 1, .triggerElection 2 {},
        .deliver 2 3 {}, .deliver 2 3 { append := fun _ => .after }]).Matching :=
  logs_match_while_voters_stay [1, 2, 3] _ (by simp [Event.KeepsVoters, RaftCommand.KeepsVoters])

end
end Network
end HoloSphere.Consensus
