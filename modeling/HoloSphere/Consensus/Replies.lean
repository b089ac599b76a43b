import HoloSphere.Consensus.Simulation

/-! # What an AppendEntries reply says

A follower reports the end of its whole log and lets its commit index move up to there,
although the message vouches for its log only up to the last entry sent.
-/

namespace HoloSphere.Consensus
open Replication
namespace RaftNode
variable {σ δ : Type}

/-- The leader's log up to the last entry of a message. -/
def sent (leader : List (RaftLogEntry δ)) (args : AppendEntriesArgs δ) : List (RaftLogEntry δ) :=
  leader.take (args.prevLogIndex + 1 + args.entries.length)

theorem repairLog_completed (ents : List (RaftLogEntry δ)) (k insertIdx : Nat)
    (sto : MemoryRaftStorage δ) (log : List (RaftLogEntry δ)) :
    (repairLog {} k insertIdx sto log ents).completed = true := by
  induction ents generalizing k insertIdx sto log with
  | nil => rfl
  | cons entry rest ih =>
    unfold repairLog
    split
    · split
      · exact ih ..
      · exact ih ..
    · exact ih ..

variable [ReplicatedStateMachine σ δ] {node : RaftNode σ δ}

theorem handleAppendEntries_eq_replicate (fits : node.currentTerm ≤ args.term) :
    ∃ n : RaftNode σ δ, n.log = node.log ∧ n.commitIndex = node.commitIndex ∧
      node.handleAppendEntries {} args = n.replicate {} args := by
  unfold handleAppendEntries
  split
  · exact ⟨(node.adoptTerm .none args.term).1.followLeader args.leaderId, rfl, rfl,
      acceptEntries_eq.trans (if_neg (Nat.lt_irrefl _))⟩
  · exact ⟨node.followLeader args.leaderId, rfl, rfl,
      acceptEntries_eq.trans (if_neg (Nat.not_lt.mpr fits))⟩

/-- A message that passes the checks, without faults of the storage: what the log becomes, and
    the reply and the commit index that follow from it. -/
theorem replicate_log (cut : CutFrom src args) (agrees : Agrees node.log src)
    (prev : node.prevMatches args) : ∃ log, (src <+: node.log → log = node.log) ∧
      (¬ src <+: node.log → log = src) ∧ (node.replicate {} args).1.log = log ∧
      (node.replicate {} args).2 = ⟨node.currentTerm, true, log.length - 1⟩ ∧
      (node.replicate {} args).1.commitIndex = if args.leaderCommit > node.commitIndex then
        min args.leaderCommit (log.length - 1) else node.commitIndex := by
  have done := repairLog_completed args.entries 0 (args.prevLogIndex + 1) node.storage node.log
  have repaired := cut.repaired agrees prev {} node.storage
  simp only [done] at repaired
  obtain ⟨held, taken⟩ := repaired.log_eq
  refine ⟨_, held, taken, ?_⟩
  unfold replicate
  rw [if_pos prev]
  simp only [done, if_true, true_and]
  have commit (matched : Nat) (n : RaftNode σ δ) :=
    advanceCommit_effect .none args.leaderCommit matched n
  exact ⟨(commit _ _).log, (commit _ _).commitIndex⟩

/-- Replies tell the truth, and the commit index stays within what was sent, except to a follower
    that holds all of it and more. -/
theorem replies_tell_truth_iff (leader : List (RaftLogEntry δ)) (matching : Agrees node.log leader)
    (cut : CutFrom (sent leader args) args) :
    (((node.handleAppendEntries {} args).2.success = true →
        ∀ i ≤ (node.handleAppendEntries {} args).2.matchIndex,
          (node.handleAppendEntries {} args).1.log[i]? = leader[i]?) ∧
      (node.handleAppendEntries {} args).1.commitIndex ≤
        max node.commitIndex (args.prevLogIndex + args.entries.length)) ↔
    (node.currentTerm ≤ args.term → node.prevMatches args → sent leader args <+: node.log →
      node.log <+: leader ∧ min args.leaderCommit (node.log.length - 1) ≤
        max node.commitIndex (args.prevLogIndex + args.entries.length)) := by
  have begins : sent leader args <+: leader := List.take_prefix _ _
  have size : (sent leader args).length = args.prevLogIndex + 1 + args.entries.length := by
    have rest := congrArg List.length cut.entries
    have hin := cut.inside
    rw [List.length_drop] at rest
    omega
  have least : node.commitIndex ≤ max node.commitIndex (args.prevLogIndex + args.entries.length) :=
    le_max_left _ _
  by_cases fits : node.currentTerm ≤ args.term
  · obtain ⟨n, sameLog, sameCommit, eq⟩ := handleAppendEntries_eq_replicate fits
    have checked : n.prevMatches args ↔ node.prevMatches args := by rw [prevMatches, sameLog]; rfl
    rw [eq]
    by_cases prev : node.prevMatches args
    · obtain ⟨log, held, taken, logEq, reply, commit⟩ := replicate_log cut
        (sameLog ▸ matching.of_isPrefix begins) (checked.mpr prev)
      rw [sameLog] at held taken
      rw [logEq, reply, commit, sameCommit]
      by_cases holds : sent leader args <+: node.log
      · have filled : 0 < node.log.length := by
          have := holds.length_le
          omega
        rw [held holds]
        have truth : (∀ i ≤ node.log.length - 1, node.log[i]? = leader[i]?) ↔
            node.log <+: leader := by
          rw [List.prefix_iff_getElem?]
          refine forall_congr' fun i => ⟨fun same hin => ?_, fun same le => ?_⟩
          · rw [← same (by omega), List.getElem?_eq_getElem hin]
          · rw [same (by omega), List.getElem?_eq_getElem]
        simp only [fits, prev, holds, true_implies, truth]
        refine and_congr_right fun _ => ?_
        split
        · rfl
        · exact iff_of_true least ((min_le_left _ _).trans (by omega))
      · rw [taken holds]
        simp only [holds, false_implies, implies_true, iff_true, true_implies, size]
        refine ⟨fun i le => (getElem_of_isPrefix begins (by omega)).symm, ?_⟩
        split
        · exact (min_le_right _ _).trans (by omega)
        · exact least
    · unfold replicate
      rw [if_neg (mt checked.mp prev)]
      simp [prev, sameCommit, least]
  · rw [handleAppendEntries, if_neg (by omega), acceptEntries_eq, if_pos (by omega)]
    simp [fits, least]

def stub (term idx : Nat) : RaftLogEntry Nat := ⟨term, idx, .noOp⟩

def follower (log : List (RaftLogEntry Nat)) : RaftNode Nat Nat :=
  { (new 2 [1, 2] : RaftNode Nat Nat) with log := log }

def leaderLog : List (RaftLogEntry Nat) := [.sentinel, stub 1 1, stub 2 2]

/-- A heartbeat that vouches for the first two entries. -/
def beat : AppendEntriesArgs Nat := ⟨2, 1, 1, 1, [], 2, true⟩

theorem cutFrom_beat : CutFrom (sent leaderLog beat) beat := ⟨by decide, rfl, rfl⟩

theorem level_follower_replies_truth :
    ((follower (leaderLog.take 2)).handleAppendEntries {} beat).1.commitIndex ≤ max 0 (1 + 0) :=
  ((replies_tell_truth_iff leaderLog (.of_lead (List.take_prefix 2 leaderLog)) cutFrom_beat).mpr
    fun _ _ _ => ⟨List.take_prefix _ _, by decide⟩).2

/-- A follower with an entry of its own at index 2 reports it as matching, and commits it. -/
theorem long_follower_overreports :
    let log := [.sentinel, stub 1 1, stub 1 2]
    Agrees log leaderLog ∧ CutFrom (sent leaderLog beat) beat ∧
      ((follower log).handleAppendEntries {} beat).2 = ⟨2, true, 2⟩ ∧
      ((follower log).handleAppendEntries {} beat).1.log[2]? ≠ leaderLog[2]? ∧
      ((follower log).handleAppendEntries {} beat).1.commitIndex = 2 := by
  refine ⟨?_, cutFrom_beat, rfl, by decide, rfl⟩
  rintro (_ | _ | _ | k) hin inside same
  · rfl
  · rfl
  · cases same
  · exact absurd hin (by simp)

end RaftNode
end HoloSphere.Consensus
