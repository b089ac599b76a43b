import HoloSphere.Consensus.Cluster
import HoloSphere.Replication.Quorum

/-! # What the handlers do

One lemma per handler of `Node`, saying everything later proofs use: how the
election state moves in memory and on disk (`Moved`), and what stays (`SameLog`,
`SameConsensus`).  The protocol proofs cite these and do not unfold a handler.
-/

namespace HoloSphere.Consensus
open List MemoryRaftStorage Replication

/-- Commands that leave the set of voters as it is. -/
def RaftCommand.KeepsVoters {δ : Type} (voters : List NodeId) : RaftCommand δ → Prop
  | .membership op => op.newPeers.dedup.Perm voters
  | _ => True

namespace RaftNode
variable {σ δ : Type}

/-- What any handler may do to the election state.  Whatever reaches the disk is
    a step forward from what was in memory, even if memory then stays behind. -/
structure Moved (node node' : RaftNode σ δ) : Prop where
  id : node'.id = node.id
  memory : Advances node.currentTerm node.votedFor node'.currentTerm node'.votedFor
  disk : node'.storage.hardState = node.storage.hardState ∨ Advances node.currentTerm node.votedFor
      node'.storage.hardState.currentTerm node'.storage.hardState.votedFor
  leader : node'.role = .leader → node.role = .leader ∧ node'.currentTerm = node.currentTerm

namespace Moved

theorem refl (node : RaftNode σ δ) : Moved node node :=
  ⟨rfl, .refl _ _, .inl rfl, fun role => ⟨role, rfl⟩⟩

theorem trans (fst : Moved a b) (snd : Moved b c) : Moved a c where
  id := snd.id.trans fst.id
  memory := fst.memory.trans snd.memory
  disk := by
    rcases snd.disk with same | forward
    · rw [same]
      exact fst.disk
    · exact .inr (fst.memory.trans forward)
  leader role := by
    obtain ⟨middle, level⟩ := snd.leader role
    obtain ⟨start, level'⟩ := fst.leader middle
    exact ⟨start, level.trans level'⟩

end Moved

/-- The log, what is known of it and the voters are as before. -/
structure SameLog (node node' : RaftNode σ δ) : Prop where
  log : node'.log = node.log
  votingPeers : node'.votingPeers = node.votingPeers
  commitIndex : node'.commitIndex = node.commitIndex
  nextIndex : node'.nextIndex = node.nextIndex
  matchIndex : node'.matchIndex = node.matchIndex
  storedLog : node'.storage.log = node.storage.log

theorem SameLog.refl (node : RaftNode σ δ) : SameLog node node := ⟨rfl, rfl, rfl, rfl, rfl, rfl⟩

theorem SameLog.trans (fst : SameLog a b) (snd : SameLog b c) : SameLog a c :=
  ⟨snd.log.trans fst.log, snd.votingPeers.trans fst.votingPeers,
    snd.commitIndex.trans fst.commitIndex, snd.nextIndex.trans fst.nextIndex,
    snd.matchIndex.trans fst.matchIndex, snd.storedLog.trans fst.storedLog⟩

section
variable {node : RaftNode σ δ}

/-- Every entry a replica holds, in memory or stored, leaves the voters as they are. -/
structure KeepsVoters (voters : List NodeId) (node : RaftNode σ δ) : Prop where
  peers : node.votingPeers.Perm voters
  log : ∀ e ∈ node.log, e.command.KeepsVoters voters
  stored : ∀ e ∈ node.storage.log, e.command.KeepsVoters voters

theorem SameLog.keepsVoters (same : node.SameLog node')
    (keeps : node.KeepsVoters voters) : node'.KeepsVoters voters :=
  ⟨same.votingPeers ▸ keeps.peers, same.log ▸ keeps.log, same.storedLog ▸ keeps.stored⟩

/-- What a handler may do as long as no command changes the voters. -/
structure Kept (voters : List NodeId) (node node' : RaftNode σ δ) : Prop where
  moved : Moved node node'
  keeps : node.KeepsVoters voters → node'.KeepsVoters voters

theorem Kept.refl (voters : List NodeId) (node : RaftNode σ δ) : Kept voters node node :=
  ⟨.refl node, fun keeps => keeps⟩

theorem adoptTerm_moved (fault : Fault) (higher : node.currentTerm < term) :
    Moved node (node.adoptTerm fault term).1 := by
  cases fault with
  | none =>
    refine ⟨rfl, .inl higher, .inr (.inl higher), ?_⟩
    intro role
    simp only [adoptTerm, saveHardState, Fault.run_none, if_true] at role
    split at role <;> cases role
  | before => exact ⟨rfl, .refl _ _, .inl rfl, fun role => ⟨role, rfl⟩⟩
  | after => exact ⟨rfl, .refl _ _, .inr (.inl higher), fun role => ⟨role, rfl⟩⟩

theorem adoptTerm_sameLog (fault : Fault) (term : Nat) (node : RaftNode σ δ) :
    SameLog node (node.adoptTerm fault term).1 := by
  cases fault with
  | none | before | after => exact ⟨rfl, rfl, rfl, rfl, rfl, rfl⟩

theorem adoptTerm_ok (ok : (node.adoptTerm fault term).2 = true) :
    (node.adoptTerm fault term).1.currentTerm = term ∧
      (node.adoptTerm fault term).1.role ≠ .leader := by
  cases fault with
  | none =>
    refine ⟨rfl, ?_⟩
    simp only [adoptTerm, saveHardState, Fault.run_none, if_true]
    split <;> decide
  | before | after => cases ok

/-- What a granted vote commits its voter to. -/
structure Granted (args : RequestVoteArgs) (node node' : RaftNode σ δ) : Prop where
  currentTerm : node'.currentTerm = args.term
  votedFor : node'.votedFor = some args.candidateId
  hardState : node'.storage.hardState = ⟨args.term, some args.candidateId⟩
  upToDate : args.lastLogTerm > node.lastLog.term ∨
    (args.lastLogTerm = node.lastLog.term ∧ args.lastLogIndex ≥ node.lastLog.index)

structure VoteEffect (args : RequestVoteArgs) (node : RaftNode σ δ)
    (res : RaftNode σ δ × RequestVoteReply) : Prop where
  moved : Moved node res.1
  sameLog : SameLog node res.1
  term : res.2.term = res.1.currentTerm
  granted : res.2.voteGranted = true → Granted args node res.1

theorem VoteEffect.kept (h : VoteEffect args node res) : Kept voters node res.1 :=
  ⟨h.moved, h.sameLog.keepsVoters⟩

theorem castVote_effect (fault : Fault) (args : RequestVoteArgs) (node : RaftNode σ δ) :
    VoteEffect args node (castVote fault args node) := by
  unfold castVote
  extract_lets last logUpToDate
  split
  case isTrue cond =>
    obtain ⟨free, level, upToDate⟩ := cond
    cases fault with
    | none =>
      exact ⟨⟨rfl, .inr ⟨rfl, free⟩, .inr (.inr ⟨rfl, free⟩), fun role => ⟨role, rfl⟩⟩,
        ⟨rfl, rfl, rfl, rfl, rfl, rfl⟩, rfl,
        fun _ => ⟨level.symm, rfl, by simp [saveHardState, level], upToDate⟩⟩
    | before =>
      exact ⟨.refl _, .refl _, rfl, fun granted => by cases granted⟩
    | after =>
      exact ⟨⟨rfl, .refl _ _, .inr (.inr ⟨rfl, free⟩), fun role => ⟨role, rfl⟩⟩,
        ⟨rfl, rfl, rfl, rfl, rfl, rfl⟩, rfl, fun granted => by cases granted⟩
  case isFalse =>
    exact ⟨.refl _, .refl _, rfl, fun granted => by cases granted⟩

theorem handleRequestVote_effect (faults : StorageFaults) (args : RequestVoteArgs)
    (node : RaftNode σ δ) : VoteEffect args node (node.handleRequestVote faults args) := by
  unfold handleRequestVote
  split
  · exact ⟨.refl _, .refl _, rfl, fun granted => by cases granted⟩
  · split
    case isTrue higher =>
      have moved := adoptTerm_moved (faults.hardState 0) higher
      have sameLog := adoptTerm_sameLog (faults.hardState 0) args.term node
      cases ok : (node.adoptTerm (faults.hardState 0) args.term).2 with
      | true =>
        have cast := castVote_effect (faults.hardState 1) args
          { (node.adoptTerm (faults.hardState 0) args.term).1 with leaderId := none }
        simp only [ok, if_true]
        refine ⟨moved.trans { cast.moved with }, sameLog.trans { cast.sameLog with }, cast.term, ?_⟩
        intro granted
        obtain ⟨term, vote, disk, upToDate⟩ := cast.granted granted
        refine ⟨term, vote, disk, ?_⟩
        simpa [lastLog, sameLog.log] using upToDate
      | false =>
        simp only [ok, if_false, Bool.false_eq_true]
        refine ⟨moved, sameLog, ?_, fun granted => by cases granted⟩
        revert ok
        cases faults.hardState 0 with
        | none => exact nofun
        | before | after => exact fun _ => rfl
    case isFalse => exact castVote_effect (faults.hardState 1) args node

end

/-- A restarted replica knows what its storage holds and follows. -/
structure Recovered (nid : NodeId) (peers : List NodeId) (sto : MemoryRaftStorage δ)
    (node : RaftNode σ δ) : Prop where
  id : node.id = nid
  role : node.role = .follower
  votingPeers : node.votingPeers = peers.dedup.insert nid
  currentTerm : node.currentTerm = sto.hardState.currentTerm
  votedFor : node.votedFor = sto.hardState.votedFor
  hardState : node.storage.hardState = sto.hardState
  log : ∀ e ∈ node.log, e ∈ sto.log ∨ e = .sentinel
  stored : ∀ e ∈ node.storage.log, e ∈ sto.log ∨ e = .sentinel

theorem tryWithStorage_recovered {fault : Fault} {id : NodeId} {peers : List NodeId}
    {sto : MemoryRaftStorage δ} {node : RaftNode σ δ}
    (built : tryWithStorage fault id peers sto = .ok node) :
    Recovered id peers sto node := by
  unfold tryWithStorage at built
  rw [loadLogEntries_zero] at built
  split at built
  case h_1 empty =>
    cases fault with
    | none =>
      simp only [appendEntries, Fault.run_none, if_true] at built
      cases built
      refine ⟨rfl, rfl, rfl, rfl, rfl, rfl, ?_, ?_⟩
      · exact fun e hm => .inr (mem_singleton.mp hm)
      · intro e hm
        simp only [empty] at hm
        exact .inr (mem_singleton.mp hm)
    | before | after => cases built
  case h_2 =>
    cases built
    exact ⟨rfl, rfl, rfl, rfl, rfl, rfl, fun _ hm => .inl hm, fun _ hm => .inl hm⟩

section

/-- The election state is as before, in memory and on disk. -/
structure SameElection (node node' : RaftNode σ δ) : Prop where
  id : node'.id = node.id
  role : node'.role = node.role
  currentTerm : node'.currentTerm = node.currentTerm
  votedFor : node'.votedFor = node.votedFor
  hardState : node'.storage.hardState = node.storage.hardState

/-- Applying committed entries touches neither the election state nor any log. -/
structure SameConsensus (node node' : RaftNode σ δ) : Prop extends SameElection node node' where
  log : node'.log = node.log
  commitIndex : node'.commitIndex = node.commitIndex
  nextIndex : node'.nextIndex = node.nextIndex
  matchIndex : node'.matchIndex = node.matchIndex
  storedLog : node'.storage.log = node.storage.log
  keeps : ∀ voters, node.KeepsVoters voters → node'.KeepsVoters voters

theorem SameConsensus.refl (node : RaftNode σ δ) : SameConsensus node node :=
  ⟨⟨rfl, rfl, rfl, rfl, rfl⟩, rfl, rfl, rfl, rfl, rfl, fun _ keeps => keeps⟩

theorem SameConsensus.trans (fst : SameConsensus a b) (snd : SameConsensus b c) :
    SameConsensus a c :=
  ⟨⟨snd.id.trans fst.id, snd.role.trans fst.role, snd.currentTerm.trans fst.currentTerm,
      snd.votedFor.trans fst.votedFor, snd.hardState.trans fst.hardState⟩,
    snd.log.trans fst.log, snd.commitIndex.trans fst.commitIndex,
    snd.nextIndex.trans fst.nextIndex, snd.matchIndex.trans fst.matchIndex,
    snd.storedLog.trans fst.storedLog, fun voters old => snd.keeps voters (fst.keeps voters old)⟩

variable {node : RaftNode σ δ}

theorem SameElection.moved (h : SameElection node node') : Moved node node' where
  id := h.id
  memory := by
    rw [h.currentTerm, h.votedFor]
    exact .refl _ _
  disk := .inl h.hardState
  leader role := ⟨h.role ▸ role, h.currentTerm⟩

variable [ReplicatedStateMachine σ δ]

theorem applyCommand_sameConsensus (mem : entry ∈ node.log) :
    SameConsensus node (node.applyCommand entry).1 := by
  unfold applyCommand
  extract_lets proposal
  split
  · exact ⟨⟨rfl, rfl, rfl, rfl, rfl⟩, rfl, rfl, rfl, rfl, rfl, fun _ keeps => { keeps with }⟩
  case h_2 op cmd =>
    refine ⟨⟨rfl, rfl, rfl, rfl, rfl⟩, rfl, rfl, rfl, rfl, rfl,
      fun voters keeps => { keeps with peers := ?_ }⟩
    have kept := keeps.log entry mem
    rw [cmd] at kept
    exact kept
  · exact .refl _
  · split
    · exact .refl _
    · split <;>
        exact ⟨⟨rfl, rfl, rfl, rfl, rfl⟩, rfl, rfl, rfl, rfl, rfl, fun _ keeps => { keeps with }⟩

/-- The apply loop is a chain of single commands, each followed by a write of
    `last_applied`: what both keep, the loop keeps. -/
theorem applyLoop_keeps {P : RaftNode σ δ → Prop} {log : List (RaftLogEntry δ)}
    (cmd : ∀ entry ∈ log, ∀ node, P node → P (node.applyCommand entry).1)
    (applied : ∀ node n, P node → P { node with lastApplied := n }) (tgt fuel : Nat) :
    ∀ (node : RaftNode σ δ) answers, P node → P (node.applyLoop log tgt fuel answers).1 := by
  induction fuel with
  | zero => exact fun node answers h => h
  | succ fuel ih =>
    intro node answers h
    unfold applyLoop
    split
    · split
      · exact h
      case h_2 entry here =>
        have next := cmd entry (mem_of_getElem? here) node h
        simp only
        split
        · exact ih _ _ (applied _ _ next)
        · exact next
    · exact h

theorem applyCommittedEntries_sameConsensus (tgt : Nat) (own : node.log = ents) :
    SameConsensus node (node.applyCommittedEntries fault ents tgt) := by
  subst own
  have loop : SameConsensus node
      (node.applyLoop node.log tgt (tgt - node.lastApplied) []).1 := by
    refine applyLoop_keeps ?_ ?_ tgt _ node [] (.refl node)
    · exact fun entry mem node' h => h.trans (applyCommand_sameConsensus (h.log ▸ mem))
    · exact fun node' n h => { h with keeps := fun voters keeps => { h.keeps voters keeps with } }
  cases fault with
  | none | before | after =>
    exact { loop with keeps := fun voters keeps => { loop.keeps voters keeps with } }

end

section

theorem mem_foldl_putEntry {ents : List (RaftLogEntry δ)} :
    ∀ {log : List (RaftLogEntry δ)} {e : RaftLogEntry δ},
      e ∈ ents.foldl putEntry log → e ∈ log ∨ e ∈ ents := by
  induction ents with
  | nil => exact fun hm => .inl hm
  | cons head rest ih =>
    intro log e hm
    rcases ih hm with put | later
    · unfold putEntry at put
      split at put
      · rcases mem_or_eq_of_mem_set put with old | rfl
        · exact .inl old
        · exact .inr mem_cons_self
      · rcases mem_append.mp put with old | new
        · exact .inl old
        · exact .inr (mem_cons.mpr (.inl (mem_singleton.mp new)))
    · exact .inr (mem_cons_of_mem head later)

/-- The repair loop neither invents entries nor touches the hard state. -/
structure Repair.Within (sto : MemoryRaftStorage δ) (log ents : List (RaftLogEntry δ))
    (repair : Repair δ) : Prop where
  log : ∀ e ∈ repair.log, e ∈ log ∨ e ∈ ents
  stored : ∀ e ∈ repair.storage.log, e ∈ sto.log ∨ e ∈ ents
  hardState : repair.storage.hardState = sto.hardState

variable {sto : MemoryRaftStorage δ}

theorem mem_appendEntries (hm : e ∈ (sto.appendEntries fault ents).1.log) :
    e ∈ sto.log ∨ e ∈ ents := by
  cases fault with
  | before => exact .inl hm
  | none | after => exact mem_foldl_putEntry hm

@[simp] theorem appendEntries_hardState :
    (sto.appendEntries fault ents).1.hardState = sto.hardState := by
  cases fault with
  | before | none | after => rfl

theorem mem_truncateSuffix (hm : e ∈ (sto.truncateSuffix fault fromIndex).1.log) : e ∈ sto.log := by
  have cut : ∀ log : List (RaftLogEntry δ),
      e ∈ (if fromIndex < log.length then log.take fromIndex else log) → e ∈ log := by
    intro log hin
    split at hin
    · exact mem_of_mem_take hin
    · exact hin
  cases fault with
  | before => exact hm
  | none | after => exact cut _ hm

@[simp] theorem truncateSuffix_hardState :
    (sto.truncateSuffix fault fromIndex).1.hardState = sto.hardState := by
  cases fault with
  | before | none | after => rfl

/-- Handling one entry and then repairing the rest stays within what both bring in. -/
theorem Repair.Within.cons {storage' : MemoryRaftStorage δ} {log log' rest : List (RaftLogEntry δ)}
    {entry : RaftLogEntry δ} {repair : Repair δ} (h : repair.Within storage' log' rest)
    (logStep : ∀ e ∈ log', e ∈ log ∨ e = entry)
    (storedStep : ∀ e ∈ storage'.log, e ∈ sto.log ∨ e = entry)
    (same : storage'.hardState = sto.hardState) :
    repair.Within sto log (entry :: rest) where
  log e hm := by
    rcases h.log e hm with old | new
    · rcases logStep e old with older | rfl
      · exact .inl older
      · exact .inr mem_cons_self
    · exact .inr (mem_cons_of_mem entry new)
  stored e hm := by
    rcases h.stored e hm with old | new
    · rcases storedStep e old with older | rfl
      · exact .inl older
      · exact .inr mem_cons_self
    · exact .inr (mem_cons_of_mem entry new)
  hardState := h.hardState.trans same

theorem Repair.Within.stop (sto : MemoryRaftStorage δ) (log ents : List (RaftLogEntry δ))
    (completed : Bool) : Repair.Within sto log ents ⟨sto, log, completed⟩ :=
  ⟨fun _ hm => .inl hm, fun _ hm => .inl hm, rfl⟩

theorem repairLog_within (faults : StorageFaults) (ents : List (RaftLogEntry δ)) :
    ∀ (k insertIdx : Nat) (sto : MemoryRaftStorage δ) (log : List (RaftLogEntry δ)),
      (repairLog faults k insertIdx sto log ents).Within sto log ents := by
  induction ents with
  | nil => exact fun k insertIdx sto log => .stop sto log [] true
  | cons entry rest ih =>
    intro k insertIdx sto log
    have appended : ∀ (store : MemoryRaftStorage δ),
        ∀ e ∈ (store.appendEntries (faults.append k) [entry]).1.log, e ∈ store.log ∨ e = entry := by
      intro store e hm
      simpa using mem_appendEntries hm
    have cut : ∀ e ∈ (sto.truncateSuffix (faults.truncate k) insertIdx).1.log,
        e ∈ sto.log ∨ e = entry := fun e hm => .inl (mem_truncateSuffix hm)
    have replaced : ∀ e ∈ ((sto.truncateSuffix (faults.truncate k) insertIdx).1.appendEntries
        (faults.append k) [entry]).1.log, e ∈ sto.log ∨ e = entry := by
      intro e hm
      rcases appended _ e hm with old | new
      · exact cut e old
      · exact .inr new
    have kept : ∀ e ∈ log, e ∈ log ∨ e = entry := fun e hm => .inl hm
    unfold repairLog
    split
    · split
      · simp only
        split
        · split
          · refine (ih _ _ _ _).cons ?_ replaced (by simp)
            intro e hm
            rcases mem_append.mp hm with old | new
            · exact .inl (mem_of_mem_take old)
            · exact .inr (mem_singleton.mp new)
          · exact (Repair.Within.stop _ log rest false).cons kept replaced (by simp)
        · exact (Repair.Within.stop _ log rest false).cons kept cut (by simp)
      · exact (ih _ _ _ _).cons kept (fun e hm => .inl hm) rfl
    · simp only
      split
      · refine (ih _ _ _ _).cons ?_ (appended sto) (by simp)
        intro e hm
        simpa using hm
      · exact (Repair.Within.stop _ log rest false).cons kept (appended sto) (by simp)

end

section
variable [ReplicatedStateMachine σ δ]

theorem advanceCommit_effect (fault : Fault) (leaderCommit matched : Nat) (node : RaftNode σ δ) :
    SameConsensus { node with
        commitIndex :=
          if leaderCommit > node.commitIndex then min leaderCommit matched else node.commitIndex }
      (node.advanceCommit fault leaderCommit matched) := by
  unfold advanceCommit
  split
  · exact applyCommittedEntries_sameConsensus _ rfl
  · exact .refl _

variable {node : RaftNode σ δ}

/-- A message that passed the term and `prev_log` checks. -/
structure Accepted (faults : StorageFaults) (args : AppendEntriesArgs δ) (node : RaftNode σ δ)
    (res : RaftNode σ δ × AppendEntriesReply) : Prop where
  moved : Moved node res.1
  keeps : ∀ voters, (∀ e ∈ args.entries, e.command.KeepsVoters voters) →
    node.KeepsVoters voters → res.1.KeepsVoters voters
  term : res.1.currentTerm = args.term
  follows : res.1.role ≠ .leader
  prev : node.prevMatches args
  nextIndex : res.1.nextIndex = node.nextIndex
  matchIndex : res.1.matchIndex = node.matchIndex
  repair : ∃ sto : MemoryRaftStorage δ, sto.log = node.storage.log ∧ res.1.log =
      (repairLog faults 0 (args.prevLogIndex + 1) sto node.log args.entries).log ∧
    res.1.storage.log =
      (repairLog faults 0 (args.prevLogIndex + 1) sto node.log args.entries).storage.log ∧
    res.2.success = (repairLog faults 0 (args.prevLogIndex + 1) sto node.log args.entries).completed
  reported : res.2.success = true → res.2.matchIndex = res.1.log.length - 1
  commit : res.1.commitIndex = node.commitIndex ∨
    (res.2.success = true ∧ node.commitIndex < args.leaderCommit ∧
      res.1.commitIndex = min args.leaderCommit (res.1.log.length - 1))

inductive AppendEffect (faults : StorageFaults) (args : AppendEntriesArgs δ)
    (node : RaftNode σ δ) (res : RaftNode σ δ × AppendEntriesReply) : Prop where
  | refused (moved : Moved node res.1) (same : SameLog node res.1)
      (failed : res.2.success = false)
  | accepted (h : Accepted faults args node res)

omit [ReplicatedStateMachine σ δ] in
/-- Changes of the election state alone may come before a message is handled. -/
theorem AppendEffect.after (moved : Moved node between) (same : SameLog node between)
    (h : AppendEffect faults args between res) :
    AppendEffect faults args node res := by
  cases h with
  | refused moved' same' failed => exact .refused (moved.trans moved') (same.trans same') failed
  | accepted h =>
    obtain ⟨sto, stored, repair⟩ := h.repair
    rw [same.log] at repair
    refine .accepted
      { h with
        moved := moved.trans h.moved
        keeps := fun voters ents keeps => h.keeps voters ents (same.keepsVoters keeps)
        prev := by simpa only [prevMatches, same.log] using h.prev
        nextIndex := h.nextIndex.trans same.nextIndex
        matchIndex := h.matchIndex.trans same.matchIndex
        repair := ⟨sto, stored.trans same.storedLog, repair⟩
        commit := ?_ }
    rw [← same.commitIndex]
    exact h.commit

/-- An empty heartbeat is handled like a message whose entries are already there. -/
theorem acceptEntries_eq : node.acceptEntries faults args =
    if args.term < node.currentTerm then (node, ⟨node.currentTerm, false, 0⟩)
    else (node.followLeader args.leaderId).replicate faults args := by
  unfold acceptEntries
  split_ifs with old beat
  · rfl
  · simp [heartbeat, replicate, beat.2, repairLog]
  · rfl

theorem replicate_effect (level : node.currentTerm = args.term) (follows : node.role ≠ .leader) :
    AppendEffect faults args node (node.replicate faults args) := by
  unfold replicate
  split
  case isFalse => exact .refused (.refl _) (.refl _) rfl
  case isTrue prev =>
    have within := repairLog_within faults args.entries 0 (args.prevLogIndex + 1)
      node.storage node.log
    extract_lets repair repaired newMatch
    have moved : Moved node repaired :=
      ⟨rfl, .refl _ _, .inl within.hardState, fun role => ⟨role, rfl⟩⟩
    have keeps : ∀ voters, (∀ e ∈ args.entries, e.command.KeepsVoters voters) →
        node.KeepsVoters voters → repaired.KeepsVoters voters := fun voters ents keeps =>
      { keeps with
        log := fun e hm => (within.log e hm).elim (keeps.log e) (ents e)
        stored := fun e hm => (within.stored e hm).elim (keeps.stored e) (ents e) }
    cases done : repair.completed with
    | true =>
      rw [if_pos rfl]
      have commit := advanceCommit_effect (faults.progress 0) args.leaderCommit newMatch repaired
      refine .accepted
        { moved := moved.trans { commit.moved with }
          keeps := fun voters ents kept => commit.keeps voters { keeps voters ents kept with }
          term := commit.currentTerm.trans level
          follows := fun role => follows (commit.role.symm.trans role)
          prev := prev
          nextIndex := commit.nextIndex
          matchIndex := commit.matchIndex
          repair := ⟨node.storage, rfl, commit.log, commit.storedLog, done.symm⟩
          reported := fun _ => by rw [commit.log]
          commit := ?_ }
      have idx := commit.commitIndex
      rw [commit.log]
      split at idx
      case isTrue higher => exact .inr ⟨rfl, higher, idx⟩
      case isFalse => exact .inl idx
    | false =>
      exact .accepted
        { moved := moved
          keeps := keeps
          term := level
          follows := follows
          prev := prev
          nextIndex := rfl
          matchIndex := rfl
          repair := ⟨node.storage, rfl, rfl, rfl, done.symm⟩
          reported := fun success => by cases success
          commit := .inl rfl }

theorem acceptEntries_effect (notNewer : args.term ≤ node.currentTerm) :
    AppendEffect faults args node (node.acceptEntries faults args) := by
  have moved : Moved node (node.followLeader args.leaderId) := by
    refine ⟨rfl, .refl _ _, .inl rfl, ?_⟩
    intro role
    simp only [followLeader] at role
    split at role <;> cases role
  have follows : (node.followLeader args.leaderId).role ≠ .leader := by
    simp only [followLeader]
    split <;> decide
  have same : SameLog node (node.followLeader args.leaderId) := ⟨rfl, rfl, rfl, rfl, rfl, rfl⟩
  rw [acceptEntries_eq]
  split
  · exact .refused (.refl _) (.refl _) rfl
  case isFalse notOlder =>
    have level : (node.followLeader args.leaderId).currentTerm = args.term := by
      show node.currentTerm = args.term
      omega
    exact (replicate_effect level follows).after moved same

theorem handleAppendEntries_effect (faults : StorageFaults) (args : AppendEntriesArgs δ)
    (node : RaftNode σ δ) :
    AppendEffect faults args node (node.handleAppendEntries faults args) := by
  unfold handleAppendEntries
  split
  case isTrue higher =>
    have moved := adoptTerm_moved (faults.hardState 0) higher
    have same := adoptTerm_sameLog (faults.hardState 0) args.term node
    cases ok : (node.adoptTerm (faults.hardState 0) args.term).2 with
    | true =>
      simp only [ok, if_true]
      exact (acceptEntries_effect (Nat.le_of_eq (adoptTerm_ok ok).1.symm)).after moved same
    | false =>
      simp only [ok, if_false, Bool.false_eq_true]
      exact .refused moved same rfl
  case isFalse notHigher => exact acceptEntries_effect (by omega)

theorem handleAppendEntries_kept (ents : ∀ e ∈ args.entries, e.command.KeepsVoters voters) :
    Kept voters node (node.handleAppendEntries faults args).1 := by
  cases handleAppendEntries_effect faults args node with
  | refused moved same failed => exact ⟨moved, same.keepsVoters⟩
  | accepted eff => exact ⟨eff.moved, eff.keeps voters ents⟩

end

section

theorem newEntries_get (node : RaftNode σ δ) {k : Nat}
    {entry : RaftLogEntry δ} (here : (node.newEntries cmds)[k]? = some entry) :
    ∃ cmd, cmds[k]? = some cmd ∧ entry = ⟨node.currentTerm, node.log.length + k, cmd⟩ := by
  unfold newEntries at here
  rw [getElem?_mapIdx, Option.map_eq_some_iff] at here
  obtain ⟨cmd, atK, rfl⟩ := here
  exact ⟨cmd, atK, rfl⟩

variable {node : RaftNode σ δ}

theorem mem_newEntries (hm : entry ∈ node.newEntries cmds) :
    entry.term = node.currentTerm ∧ entry.command ∈ cmds := by
  obtain ⟨k, here⟩ := getElem?_of_mem hm
  obtain ⟨cmd, atK, rfl⟩ := newEntries_get node here
  exact ⟨rfl, mem_of_getElem? atK⟩

@[simp] theorem length_newEntries : (node.newEntries cmds).length = cmds.length := by
  simp [newEntries]

/-- Only the log, its stored copy and the leader's own match index can change. -/
structure ProposeEffect (cmds : List (RaftCommand δ)) (node node' : RaftNode σ δ) : Prop
    extends SameElection node node' where
  votingPeers : node'.votingPeers = node.votingPeers
  commitIndex : node'.commitIndex = node.commitIndex
  nextIndex : node'.nextIndex = node.nextIndex
  stored : ∀ e ∈ node'.storage.log, e ∈ node.storage.log ∨ e ∈ node.newEntries cmds
  log : (node'.log = node.log ∧ node'.matchIndex = node.matchIndex) ∨
    (node.role = .leader ∧ node'.log = node.log ++ node.newEntries cmds ∧
      node'.matchIndex = fun peer =>
        if peer = node.id then some (node'.log.length - 1) else node.matchIndex peer)

theorem ProposeEffect.refl (cmds : List (RaftCommand δ)) (node : RaftNode σ δ) :
    ProposeEffect cmds node node :=
  ⟨⟨rfl, rfl, rfl, rfl, rfl⟩, rfl, rfl, rfl, fun _ hm => .inl hm, .inl ⟨rfl, rfl⟩⟩

theorem proposeBatch_effect (faults : StorageFaults) (cmds : List (RaftCommand δ))
    (node : RaftNode σ δ) :
    ProposeEffect cmds node (node.proposeBatch faults cmds).1 := by
  have storedOnly : ProposeEffect cmds node { node with
      storage := (node.storage.appendEntries (faults.append 0) (node.newEntries cmds)).1 } :=
    ⟨⟨rfl, rfl, rfl, rfl, by simp⟩, rfl, rfl, rfl, fun _ hm => mem_appendEntries hm,
      .inl ⟨rfl, rfl⟩⟩
  unfold proposeBatch
  split
  case isFalse => exact .refl cmds node
  case isTrue leads =>
    extract_lets ents
    simp only
    split
    case isFalse => exact storedOnly
    case isTrue =>
      split
      · exact storedOnly
      case h_2 last found =>
        refine ⟨{ storedOnly.toSameElection with }, rfl, rfl, rfl, storedOnly.stored,
          .inr ⟨by simpa [isLeader] using leads, rfl, ?_⟩⟩
        have pos : last.index = (node.log ++ ents).length - 1 := by
          rw [getLast?_eq_getElem?] at found
          obtain ⟨cmd, atLast, val⟩ := newEntries_get node found
          have hin := (List.getElem?_eq_some_iff.mp atLast).1
          rw [val, length_append]
          show node.log.length + (ents.length - 1) = _
          have : 0 < ents.length := by
            rw [length_newEntries]
            omega
          omega
        simp [pos]

/-- A leader whose store accepts a batch holds it afterwards. -/
theorem proposeBatch_written {faults : StorageFaults} (leads : node.role = .leader)
    (sound : faults.append 0 = .none) (nonempty : cmds ≠ []) :
    (node.proposeBatch faults cmds).1.log = node.log ++ node.newEntries cmds := by
  have filled : node.newEntries cmds ≠ [] := by
    rw [← length_pos_iff, length_newEntries]
    exact length_pos_iff.mpr nonempty
  obtain ⟨last, found⟩ : ∃ last, (node.newEntries cmds).getLast? = some last :=
    ⟨_, getLast?_eq_some_getLast filled⟩
  simp [proposeBatch, isLeader, leads, sound, appendEntries, found]

theorem propose_fst : (node.propose faults cmd).1 = (node.proposeBatch faults [cmd]).1 := by
  unfold propose
  split <;> simp_all

theorem proposeDataMutation_effect [ReplicatedStateMachine σ δ] (node : RaftNode σ δ) :
    ProposeEffect [.data op] node (node.proposeDataMutation faults op).1 := by
  have eff := proposeBatch_effect faults [.data op] node
  rw [← propose_fst] at eff
  unfold proposeDataMutation
  split
  · cases proposed : node.propose faults (.data op) with
    | mk updated outc =>
      rw [proposed] at eff
      cases outc with
      | error failure => exact eff
      | ok idx =>
        simp only
        split <;>
          exact { eff with }
  · exact .refl _ node

theorem ProposeEffect.kept (h : ProposeEffect cmds node node')
    (new : ∀ c ∈ cmds, c.KeepsVoters voters) : Kept voters node node' := by
  have ents : ∀ e ∈ node.newEntries cmds, e.command.KeepsVoters voters :=
    fun e hm => new _ (mem_newEntries hm).2
  refine ⟨h.moved, fun keeps => ⟨h.votingPeers ▸ keeps.peers, ?_, ?_⟩⟩
  · rcases h.log with ⟨same, -⟩ | ⟨-, grown, -⟩
    · rw [same]
      exact keeps.log
    · intro e hm
      rw [grown] at hm
      rcases mem_append.mp hm with old | added
      · exact keeps.log e old
      · exact ents e added
  · intro e hm
    rcases h.stored e hm with old | added
    · exact keeps.stored e old
    · exact ents e added

/-- What `check_quorum_commit` requires of the index it commits. -/
theorem quorumIndex_some (found : node.quorumIndex = some n) :
    node.commitIndex < n ∧ n < node.log.length ∧
      (node.log[n]?).map RaftLogEntry.term = some node.currentTerm ∧
      node.votingPeers.length / 2 + 1 ≤ (node.replicatedOn n).length := by
  have holds := find?_some found
  have hm := mem_of_find?_eq_some found
  simp only [mem_reverse, mem_range'_1] at hm
  simp only [decide_eq_true_eq] at holds
  exact ⟨by omega, by omega, holds.1, holds.2⟩

inductive CommitEffect (node node' : RaftNode σ δ) : Prop where
  | nothing (same : node' = node)
  | committed (n : Nat) (leads : node.role = .leader) (found : node.quorumIndex = some n)
      (applied : SameConsensus { node with commitIndex := n } node')

theorem CommitEffect.moved (h : CommitEffect node node') : Moved node node' := by
  cases h with
  | nothing same =>
    rw [same]
    exact .refl _
  | committed n leads found applied =>
    exact { applied.moved with }

variable [ReplicatedStateMachine σ δ]

theorem checkQuorumCommit_effect (faults : StorageFaults) (node : RaftNode σ δ) :
    CommitEffect node (node.checkQuorumCommit faults).1 := by
  unfold checkQuorumCommit
  split
  case isFalse => exact .nothing rfl
  case isTrue leads =>
    split
    · exact .nothing rfl
    case h_2 n found =>
      refine .committed n (by simpa [isLeader] using leads) found ?_
      refine SameConsensus.trans ?_ (applyCommittedEntries_sameConsensus n rfl)
      cases faults.progress 0 with
      | none | before | after =>
        exact ⟨⟨rfl, rfl, rfl, rfl, rfl⟩, rfl, rfl, rfl, rfl, rfl, fun _ keeps => { keeps with }⟩

theorem checkQuorumCommit_kept : Kept voters node (node.checkQuorumCommit faults).1 := by
  have eff := checkQuorumCommit_effect faults node
  refine ⟨eff.moved, fun keeps => ?_⟩
  cases eff with
  | nothing same =>
    rw [same]
    exact keeps
  | committed n leads found applied => exact applied.keeps voters { keeps with }

end
end RaftNode
end HoloSphere.Consensus
