import HoloSphere.Consensus.Effects

/-! # Elections and heartbeat rounds in closed form

Both rounds are loops over the peers in which every peer is called once and only
its own state and the caller's bookkeeping change.  The state after a round is
therefore given peer by peer in terms of the state before it.
-/

namespace HoloSphere.Consensus.RaftCluster
open List RaftNode Replication
variable {σ δ : Type}

/-- Peers that a round over `peers` by `caller` reaches. -/
def Reaches (peers : List NodeId) (caller : NodeId) (cl : RaftCluster σ δ) (p : NodeId) : Prop :=
  p ∈ peers ∧ p ≠ caller ∧ p ∈ cl.ids

instance (peers : List NodeId) (caller : NodeId) (cl : RaftCluster σ δ) (p : NodeId) :
    Decidable (cl.Reaches peers caller p) :=
  inferInstanceAs (Decidable (_ ∧ _))

theorem get_of_mem {cl : RaftCluster σ δ} (live : p ∈ cl.ids) :
    cl.get p = some (cl.node p) := if_pos live

theorem get_of_not_mem {cl : RaftCluster σ δ} (gone : p ∉ cl.ids) : cl.get p = none := if_neg gone

theorem reaches_one {cl : RaftCluster σ δ} (other : peer ≠ caller) (live : peer ∈ cl.ids) :
    cl.Reaches [peer] caller p ↔ p = peer := by
  constructor
  · exact fun h => mem_singleton.mp h.1
  · rintro rfl
    exact ⟨mem_singleton_self p, other, live⟩

section
variable (faults : NodeId → StorageFaults) (args : RequestVoteArgs)

/-- A peer whose answer counts as a vote. -/
def grants (cl : RaftCluster σ δ) (p : NodeId) : Bool :=
  let reply := ((cl.node p).handleRequestVote (faults p) args).2
  p ≠ args.candidateId ∧ p ∈ cl.ids ∧ reply.voteGranted ∧ reply.term = args.term

/-- The cluster after the votes of `peers` were requested. -/
def polled (peers : List NodeId) (cl : RaftCluster σ δ) : RaftCluster σ δ :=
  { cl with
    node := fun p =>
      if cl.Reaches peers args.candidateId p then
        ((cl.node p).handleRequestVote (faults p) args).1
      else cl.node p }

theorem pollPeer_eq : pollPeer faults args tally peer = (polled faults args [peer] tally.1,
        tally.2 + ([peer].filter (tally.1.grants faults args)).length) := by
  obtain ⟨cl, votes⟩ := tally
  unfold pollPeer
  split
  case isTrue self =>
    have none : cl.grants faults args peer = false := by simp [grants, self]
    have unreached : ∀ p, ¬ cl.Reaches [peer] args.candidateId p := by
      rintro p ⟨mem, other, -⟩
      exact other ((mem_singleton.mp mem).trans self)
    simp [polled, unreached, none]
  case isFalse other =>
    by_cases live : peer ∈ cl.ids
    · have moved : cl.put peer ((cl.node peer).handleRequestVote (faults peer) args).1 =
          polled faults args [peer] cl := by
        simp only [put, polled, reaches_one other live]
        congr 1
        funext p
        split
        case isTrue same => rw [same]
        case isFalse => rfl
      simp only [get_of_mem live, moved, Prod.mk.injEq, true_and, filter_cons, filter_nil]
      simp only [grants, other, live, ne_eq, not_false_eq_true, true_and, decide_eq_true_eq]
      split <;> rfl
    · have none : cl.grants faults args peer = false := by simp [grants, live]
      have unreached : ∀ p, ¬ cl.Reaches [peer] args.candidateId p := by
        rintro p ⟨mem, -, here⟩
        exact live (mem_singleton.mp mem ▸ here)
      simp [get_of_not_mem live, polled, unreached, none]

theorem polled_cons (fresh : peer ∉ rest) : polled faults args rest (polled faults args [peer] cl) =
      polled faults args (peer :: rest) cl := by
  simp only [polled]
  congr 1
  funext p
  by_cases same : p = peer
  · subst same
    simp [Reaches, fresh]
  · simp [Reaches, same]

variable {node : RaftNode σ δ} {cl : RaftCluster σ δ}

theorem foldl_pollPeer {peers : List NodeId} (uniq : peers.Nodup) :
    ∀ (cl : RaftCluster σ δ) (votes : Nat), peers.foldl (pollPeer faults args) (cl, votes) =
        (polled faults args peers cl, votes + (peers.filter (cl.grants faults args)).length) := by
  induction peers with
  | nil =>
    intro cl votes
    simp [polled, Reaches]
  | cons peer rest ih =>
    intro cl votes
    obtain ⟨fresh, distinctRest⟩ := nodup_cons.mp uniq
    rw [foldl_cons, pollPeer_eq, ih distinctRest, polled_cons faults args fresh]
    have same : rest.filter ((polled faults args [peer] cl).grants faults args) =
        rest.filter (cl.grants faults args) := by
      apply filter_congr
      intro p mem
      have other : p ≠ peer := fun equal => fresh (by rwa [equal] at mem)
      simp [grants, polled, Reaches, other]
    rw [same, filter_cons, filter_cons, filter_nil]
    congr 1
    split
    · simp only [length_cons, length_nil]
      omega
    · simp only [length_nil]
      omega

def asked (faults : ElectionFaults) (nid : NodeId) (cand : RaftNode σ δ)
    (cl : RaftCluster σ δ) : RaftCluster σ δ :=
  polled faults.vote (cand.voteArgs nid) cand.votingPeers
    (cl.put nid cand)

variable (faults : ElectionFaults)

@[simp] theorem asked_ids : (cl.asked faults nid cand).ids = cl.ids := rfl

@[simp] theorem asked_candidate (nid : NodeId) (cand : RaftNode σ δ) (cl : RaftCluster σ δ) :
    (cl.asked faults nid cand).node nid = cand := by
  simp [asked, polled, Reaches, voteArgs]

theorem asked_peer (other : p ≠ nid) (cand : RaftNode σ δ) (cl : RaftCluster σ δ) :
    (cl.asked faults nid cand).node p = cl.node p ∨ (cl.asked faults nid cand).node p =
        ((cl.node p).handleRequestVote (faults.vote p) (cand.voteArgs nid)).1 := by
  simp only [asked, polled, put_other other]
  split
  · exact .inr rfl
  · exact .inl rfl

theorem forall_asked {faults : ElectionFaults} (holds : NodeId → RaftNode σ δ → Prop)
    (own : holds nid cand) (others : ∀ p, holds p (cl.node p)) (called : ∀ p, holds p
      ((cl.node p).handleRequestVote (faults.vote p) (cand.voteArgs nid)).1)
    (p : NodeId) : holds p ((cl.asked faults nid cand).node p) := by
  by_cases self : p = nid
  · subst self
    rw [asked_candidate]
    exact own
  · rcases asked_peer faults self cand cl with untouched | handled
    · rw [untouched]
      exact others p
    · rw [handled]
      exact called p

/-- The voters that grant their vote to a standing candidate. -/
def granting (faults : ElectionFaults) (nid : NodeId) (cand : RaftNode σ δ)
    (cl : RaftCluster σ δ) : List NodeId :=
  cand.votingPeers.filter
    ((cl.put nid cand).grants faults.vote (cand.voteArgs nid))

theorem mem_granting {faults : ElectionFaults} (mem : p ∈ cl.granting faults nid cand) :
    p ≠ nid ∧ Granted (cand.voteArgs nid) (cl.node p) ((cl.asked faults nid cand).node p) := by
  obtain ⟨voter, grant⟩ := mem_filter.mp mem
  simp only [grants, decide_eq_true_eq] at grant
  obtain ⟨other, live, granted, -⟩ := grant
  have different : p ≠ nid := other
  rw [put_other different] at granted
  refine ⟨different, ?_⟩
  have reached : (cl.put nid cand).Reaches cand.votingPeers nid p := ⟨voter, different, live⟩
  have outc : (cl.asked faults nid cand).node p =
      ((cl.node p).handleRequestVote (faults.vote p) (cand.voteArgs nid)).1 := by
    simp only [asked, polled, put_other different, voteArgs]
    exact if_pos reached
  rw [outc]
  exact (handleRequestVote_effect _ _ _).granted granted

theorem majority_granting {voters : List NodeId} {faults : ElectionFaults} {P : NodeId → Prop}
    (mem : nid ∈ voters) (agreed : cand.votingPeers.Perm voters)
    (enough : cand.votingPeers.length / 2 + 1 ≤
      1 + (cl.granting faults nid cand).length) (self : P nid)
    (others : ∀ p ∈ cl.granting faults nid cand, P p) :
    Majority voters P := by
  have part : (cl.granting faults nid cand).Subperm voters :=
    filter_sublist.subperm.trans agreed.subperm
  have fresh : nid ∉ cl.granting faults nid cand := fun hin => (mem_granting hin).1 rfl
  refine ⟨nid :: cl.granting faults nid cand, cons_subperm_of_not_mem_of_mem fresh mem part, ?_, ?_⟩
  · rw [← agreed.length_eq, length_cons]
    omega
  · intro v hin
    rcases mem_cons.mp hin with rfl | granted
    · exact self
    · exact others v granted

/-- How an election up to the winner's first proposal can end. -/
inductive CampaignEffect (faults : ElectionFaults) (nid : NodeId) (cl : RaftCluster σ δ) :
    RaftCluster σ δ × Bool → Prop where
  | idle : CampaignEffect faults nid cl (cl, false)
  | unsaved (cand : RaftNode σ δ) (live : nid ∈ cl.ids)
      (stood : (cl.node nid).stand (faults.candidate.hardState 0) nid = (cand, false)) :
      CampaignEffect faults nid cl (cl.put nid cand, false)
  | lost (cand : RaftNode σ δ) (live : nid ∈ cl.ids)
      (stood : (cl.node nid).stand (faults.candidate.hardState 0) nid = (cand, true)) :
      CampaignEffect faults nid cl
        ((cl.asked faults nid cand).put nid
          { cand with role := .follower }, false)
  | won (cand : RaftNode σ δ) (live : nid ∈ cl.ids)
      (stood : (cl.node nid).stand (faults.candidate.hardState 0) nid = (cand, true))
      (majority : cand.votingPeers.length / 2 + 1 ≤ 1 + (cl.granting faults nid cand).length) :
      CampaignEffect faults nid cl
        ((cl.asked faults nid cand).put nid
          ((cand.becomeLeader cl.ids).proposeBatch faults.candidate [.noOp]).1, true)

theorem stand_votingPeers (fault : Fault) (nid : NodeId) (node : RaftNode σ δ) :
    (node.stand fault nid).1.votingPeers = node.votingPeers := by
  cases fault with
  | none | before | after => rfl

theorem collectVotes_eq (uniq : cand.votingPeers.Nodup) :
    (cl.put nid cand).collectVotes faults nid cand = if cand.votingPeers.length / 2 + 1 ≤
          1 + (cl.granting faults nid cand).length then
        ((cl.asked faults nid cand).put nid
          ((cand.becomeLeader cl.ids).proposeBatch faults.candidate [.noOp]).1, true)
      else ((cl.asked faults nid cand).put nid { cand with role := .follower }, false) := by
  have counted : cand.votingPeers.foldl (pollPeer faults.vote (cand.voteArgs nid))
      (cl.put nid cand, 1) = (cl.asked faults nid cand, 1 + (cl.granting faults nid cand).length) :=
    foldl_pollPeer faults.vote (cand.voteArgs nid) uniq
      (cl.put nid cand) 1
  unfold collectVotes
  simp [counted, asked_candidate, asked_ids, propose_fst]

theorem campaign_effect (uniq : (cl.node nid).votingPeers.Nodup) :
    CampaignEffect faults nid cl (cl.campaign faults nid) := by
  unfold campaign
  by_cases live : nid ∈ cl.ids
  · rw [get_of_mem live]
    simp only
    split
    · exact .idle
    · cases stood : (cl.node nid).stand (faults.candidate.hardState 0) nid with
      | mk cand ok =>
        have peers := stand_votingPeers (faults.candidate.hardState 0) nid (cl.node nid)
        rw [stood] at peers
        cases ok with
        | false => exact .unsaved cand live stood
        | true =>
          simp only [if_true]
          rw [collectVotes_eq faults (peers ▸ uniq)]
          split
          case isTrue enough => exact .won cand live stood enough
          case isFalse => exact .lost cand live stood
  · rw [get_of_not_mem live]
    exact .idle

/-- What standing means: the next term with the own vote, in memory and on disk, or
    nothing in memory when the disk failed. -/
theorem stand_moved (stood : node.stand fault nid = (cand, ok)) : Moved node cand := by
  cases fault with
  | none =>
    cases stood
    exact ⟨rfl, .inl (Nat.lt_succ_self _), .inr (.inl (Nat.lt_succ_self _)),
      fun role => by cases role⟩
  | before =>
    cases stood
    exact ⟨rfl, .refl _ _, .inl rfl, fun role => ⟨role, rfl⟩⟩
  | after =>
    cases stood
    exact ⟨rfl, .refl _ _, .inr (.inl (Nat.lt_succ_self _)), fun role => ⟨role, rfl⟩⟩

theorem stand_sameLog (stood : node.stand fault nid = (cand, ok)) : SameLog node cand := by
  cases fault with
  | none | before | after =>
    cases stood
    exact ⟨rfl, rfl, rfl, rfl, rfl, rfl⟩

theorem stand_kept (stood : node.stand fault nid = (cand, ok)) : node.Kept voters cand :=
  ⟨stand_moved stood, (stand_sameLog stood).keepsVoters⟩

theorem setReplicatedSm_kept : node.Kept voters { node with replicatedSm := some m } :=
  ⟨⟨rfl, .refl _ _, .inl rfl, fun role => ⟨role, rfl⟩⟩, fun keeps => { keeps with }⟩

theorem becomeFollower_kept : node.Kept voters { node with role := .follower } :=
  ⟨⟨rfl, .refl _ _, .inl rfl, fun role => by cases role⟩, fun keeps => { keeps with }⟩

theorem stand_ok (stood : node.stand fault nid = (cand, true)) :
    cand.currentTerm = node.currentTerm + 1 ∧ cand.votedFor = some nid ∧
      cand.storage.hardState = ⟨cand.currentTerm, some nid⟩ := by
  cases fault with
  | none =>
    cases stood
    exact ⟨rfl, rfl, rfl⟩
  | before | after => cases stood

end

section
variable [ReplicatedStateMachine σ δ] (faults : NodeId → StorageFaults) (leaderId : NodeId)
  (leader : RaftNode σ δ)

def appendReply (cl : RaftCluster σ δ) (p : NodeId) : RaftNode σ δ × AppendEntriesReply :=
  (cl.node p).handleAppendEntries (faults p) (leader.appendArgs p)

/-- The match index a peer reports in a round over `peers`. -/
def reported (peers : List NodeId) (cl : RaftCluster σ δ) (p : NodeId) : Option Nat :=
  if cl.Reaches peers leaderId p ∧ (cl.appendReply faults leader p).2.success = true then
    some (cl.appendReply faults leader p).2.matchIndex
  else none

def bookkeeping (reports : NodeId → Option Nat) (node : RaftNode σ δ) : RaftNode σ δ :=
  { node with
    nextIndex := fun p => ((reports p).map (· + 1)).or (node.nextIndex p)
    matchIndex := fun p => (reports p).or (node.matchIndex p) }

/-- The cluster after AppendEntries calls to `peers`. -/
def called (peers : List NodeId) (cl : RaftCluster σ δ) : RaftCluster σ δ :=
  { cl with
    node := fun p =>
      if p = leaderId then
        bookkeeping (cl.reported faults leaderId leader peers) (cl.node leaderId)
      else if cl.Reaches peers leaderId p then (cl.appendReply faults leader p).1
      else cl.node p }

omit [ReplicatedStateMachine σ δ] in
theorem bookkeeping_none (node : RaftNode σ δ) : bookkeeping (fun _ => none) node = node := by
  simp [bookkeeping]

variable {cl : RaftCluster σ δ}

omit [ReplicatedStateMachine σ δ] in
theorem bookkeeping_one (node : RaftNode σ δ) :
    bookkeeping (fun p => if p = peer then some matched else none) node =
      node.recordMatch peer matched := by
  unfold bookkeeping recordMatch
  congr 1
  · funext p
    by_cases same : p = peer <;> simp [same]
  · funext p
    by_cases same : p = peer <;> simp [same]

omit [ReplicatedStateMachine σ δ] in
theorem bookkeeping_kept {node : RaftNode σ δ} :
    node.Kept voters { bookkeeping reports node with readIndexEngine := eng } :=
  ⟨⟨rfl, .refl _ _, .inl rfl, fun role => ⟨role, rfl⟩⟩, fun keeps => { keeps with }⟩

theorem called_nobody (nobody : ∀ p, ¬ cl.Reaches peers leaderId p) :
    called faults leaderId leader peers cl = cl := by
  have silent : cl.reported faults leaderId leader peers = fun _ => none := by
    funext p
    simp [reported, nobody]
  unfold called
  rw [silent, bookkeeping_none]
  simp only [nobody, if_false]
  exact put_self leaderId cl

theorem called_unreached (unreached : ¬ cl.Reaches [peer] leaderId peer) :
    called faults leaderId leader [peer] cl = cl := by
  refine called_nobody faults leaderId leader ?_
  intro p reached
  have same : p = peer := mem_singleton.mp reached.1
  exact unreached (same ▸ reached)

theorem called_one (other : peer ≠ leaderId) (live : peer ∈ cl.ids)
    (booked : bookkeeping (cl.reported faults leaderId leader [peer]) (cl.node leaderId) = lead) :
    called faults leaderId leader [peer] cl =
      (cl.put peer (cl.appendReply faults leader peer).1).put leaderId lead := by
  unfold called
  simp only [reaches_one other live, booked, put]
  congr 1
  funext p
  by_cases same : p = peer
  · subst same
    rfl
  · simp [same]

theorem appendPeer_fst {round : RaftCluster σ δ × Nat} :
    (appendPeer faults leaderId leader round peer).1 =
      called faults leaderId leader [peer] round.1 := by
  obtain ⟨cl, successes⟩ := round
  unfold appendPeer
  split
  case isTrue self =>
    exact (called_unreached faults leaderId leader fun reached => reached.2.1 self).symm
  case isFalse other =>
    by_cases live : peer ∈ cl.ids
    · simp only [get_of_mem live]
      rw [put_other (Ne.symm other)]
      split
      case isTrue success =>
        refine (called_one faults leaderId leader other live ?_).symm
        rw [← bookkeeping_one]
        congr 1
        funext p
        by_cases same : p = peer
        · subst same
          have won : (cl.appendReply faults leader p).2.success = true := success
          simp [reported, reaches_one other live, won]
          rfl
        · simp [reported, reaches_one other live, same]
      case isFalse failed =>
        have silent : cl.reported faults leaderId leader [peer] = fun _ => none := by
          funext p
          refine if_neg ?_
          rintro ⟨reached, won⟩
          cases mem_singleton.mp reached.1
          exact failed won
        have kept := put_other (Ne.symm other) (cl.appendReply faults leader peer).1 cl
        rw [called_one faults leaderId leader other live (by rw [silent, bookkeeping_none]), ← kept,
          put_self]
        rfl
    · simp only [get_of_not_mem live]
      exact (called_unreached faults leaderId leader fun reached => live reached.2.2).symm

theorem called_cons (fresh : peer ∉ rest) :
    called faults leaderId leader rest (called faults leaderId leader [peer] cl) =
      called faults leaderId leader (peer :: rest) cl := by
  have untouched : ∀ p, p ≠ leaderId → p ≠ peer →
      (called faults leaderId leader [peer] cl).node p = cl.node p := by
    intro p notLeader notPeer
    simp [called, notLeader, Reaches, notPeer]
  have split : ∀ p, cl.reported faults leaderId leader (peer :: rest) p =
      ((called faults leaderId leader [peer] cl).reported faults leaderId leader rest p).or
        (cl.reported faults leaderId leader [peer] p) := by
    intro p
    by_cases same : p = peer
    · subst same
      simp [reported, Reaches, fresh]
    · by_cases isLeader : p = leaderId
      · simp [reported, Reaches, isLeader]
      · have reply : (called faults leaderId leader [peer] cl).appendReply faults leader p =
            cl.appendReply faults leader p := by
          unfold appendReply
          rw [untouched p isLeader same]
        simp only [reported, Reaches, reply, mem_cons, same, false_or, not_mem_nil,
          false_and, if_false, Option.or_none]
        rfl
  unfold called
  congr 1
  funext p
  by_cases isLeader : p = leaderId
  · subst isLeader
    simp only [if_true]
    unfold bookkeeping
    simp only [split]
    congr 1
    · funext q
      rw [← Option.or_assoc, Option.map_or]
      rfl
    · funext q
      rw [← Option.or_assoc]
      rfl
  · by_cases same : p = peer
    · subst same
      simp [isLeader, Reaches, fresh]
    · simp only [isLeader, if_false, Reaches, mem_cons, same, false_or, not_mem_nil, false_and]
      rw [show appendReply faults leader _ p = cl.appendReply faults leader p by
        unfold appendReply
        simp [isLeader, same]]

theorem foldl_appendPeer {peers : List NodeId} (uniq : peers.Nodup) :
    ∀ (round : RaftCluster σ δ × Nat), (peers.foldl (appendPeer faults leaderId leader) round).1 =
        called faults leaderId leader peers round.1 := by
  induction peers with
  | nil =>
    intro round
    refine (called_nobody faults leaderId leader ?_).symm
    exact fun p reached => not_mem_nil reached.1
  | cons peer rest ih =>
    intro round
    obtain ⟨fresh, distinctRest⟩ := nodup_cons.mp uniq
    rw [foldl_cons, ih distinctRest, appendPeer_fst, called_cons faults leaderId leader fresh]

omit leaderId leader in
/-- A heartbeat round up to the leader's commit.  Of what the leader keeps, only the
    lease depends on the number of successes. -/
def afterRound (leaderId : NodeId) (eng : ReadIndexEngine) (cl : RaftCluster σ δ) :
    RaftCluster σ δ :=
  (called faults leaderId (cl.node leaderId) cl.ids cl).put leaderId
    { bookkeeping (cl.reported faults leaderId (cl.node leaderId) cl.ids)
        (cl.node leaderId) with
      readIndexEngine := eng }

omit leader in
@[simp] theorem afterRound_leader : (cl.afterRound faults leaderId eng).node leaderId =
      { bookkeeping (cl.reported faults leaderId (cl.node leaderId) cl.ids) (cl.node leaderId) with
        readIndexEngine := eng } := put_same _ _ _

omit leader in
theorem afterRound_peer {leaderId : NodeId} (other : p ≠ leaderId) (eng : ReadIndexEngine)
    (cl : RaftCluster σ δ) :
    (cl.afterRound faults leaderId eng).node p = cl.node p ∨
      (cl.afterRound faults leaderId eng).node p =
        (cl.appendReply faults (cl.node leaderId) p).1 := by
  unfold afterRound
  rw [put_other other]
  simp only [called, other, if_false]
  split
  · exact .inr rfl
  · exact .inl rfl

omit leader leaderId in
theorem forall_afterRound {leaderId : NodeId} {eng : ReadIndexEngine}
    (holds : NodeId → RaftNode σ δ → Prop) (own : holds leaderId
      { bookkeeping (cl.reported faults leaderId (cl.node leaderId) cl.ids) (cl.node leaderId) with
        readIndexEngine := eng }) (others : ∀ p, holds p (cl.node p))
    (handled : ∀ p, holds p (cl.appendReply faults (cl.node leaderId) p).1) (p : NodeId) :
    holds p ((cl.afterRound faults leaderId eng).node p) := by
  by_cases same : p = leaderId
  · subst same
    rw [afterRound_leader]
    exact own
  · rcases afterRound_peer faults same eng cl with untouched | reached
    · rw [untouched]
      exact others p
    · rw [reached]
      exact handled p

omit leader in
theorem afterRound_reached {leaderId : NodeId} (reached : cl.Reaches cl.ids leaderId p) :
    (cl.afterRound faults leaderId eng).node p =
      (cl.appendReply faults (cl.node leaderId) p).1 := by
  unfold afterRound
  rw [put_other reached.2.1]
  simp only [called, reached.2.1, if_false]
  exact if_pos reached

/-- How a heartbeat round can end. -/
inductive BroadcastEffect (faults : BroadcastFaults) (leaderId : NodeId)
    (cl : RaftCluster σ δ) : RaftCluster σ δ → Prop where
  | idle : BroadcastEffect faults leaderId cl cl
  | round (live : leaderId ∈ cl.ids) (leads : (cl.node leaderId).role = .leader)
      (eng : ReadIndexEngine) :
      BroadcastEffect faults leaderId cl
        ((cl.afterRound faults.peer leaderId eng).put leaderId
          (((cl.afterRound faults.peer leaderId eng).node leaderId).checkQuorumCommit
            faults.leader).1)

theorem broadcastHeartbeats_effect (faults : BroadcastFaults) (leaderId : NodeId)
    (uniq : cl.ids.Nodup) :
    BroadcastEffect faults leaderId cl (cl.broadcastHeartbeats faults leaderId) := by
  unfold broadcastHeartbeats
  by_cases live : leaderId ∈ cl.ids
  · rw [get_of_mem live]
    simp only
    split
    case isFalse => exact .idle
    case isTrue leading =>
      have leads : (cl.node leaderId).role = .leader := by
        simpa [isLeader] using leading
      have folded := foldl_appendPeer faults.peer leaderId (cl.node leaderId) uniq (cl, 1)
      have own : (called faults.peer leaderId (cl.node leaderId) cl.ids cl).node
          leaderId = bookkeeping (cl.reported faults.peer leaderId (cl.node leaderId)
            cl.ids) (cl.node leaderId) := by simp [called]
      have round : ∀ eng, BroadcastEffect faults leaderId cl _ := fun eng => .round live leads eng
      simp only [afterRound, put_put, put_same] at round
      simp only [folded, own]
      split
      · exact round _
      · exact round (bookkeeping (cl.reported faults.peer leaderId (cl.node leaderId)
          cl.ids) (cl.node leaderId)).readIndexEngine
  · rw [get_of_not_mem live]
    exact .idle

end

/-- Operations whose commands leave the voters as they are. -/
def Op.KeepsVoters (voters : List NodeId) : Op σ δ → Prop
  | .proposeBatch _ cmds _ => ∀ c ∈ cmds, c.KeepsVoters voters
  | .handleAppendEntries _ args _ => ∀ e ∈ args.entries, e.command.KeepsVoters voters
  | _ => True

end HoloSphere.Consensus.RaftCluster
