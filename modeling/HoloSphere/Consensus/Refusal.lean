import HoloSphere.Consensus.Effects

/-! # Refused proposals

`propose_data_mutation` writes the command to the store and to the log before it asks the
registry of pending proposals for a place.  A call that is refused because the registry is full
therefore leaves its command in the log of the leader, from where it is replicated and applied
like any other.
-/

namespace HoloSphere.Consensus
open List ReplicatedStateMachine PendingProposals MemoryRaftStorage
variable {σ δ : Type}

namespace MemoryRaftStorage

/-- Writing an entry changes nothing exactly if it is already in its place. -/
theorem putEntry_eq_self_iff {log : List (RaftLogEntry δ)} {entry : RaftLogEntry δ} :
    putEntry log entry = log ↔ log[entry.index]? = some entry := by
  unfold putEntry
  split
  case isTrue hin =>
    constructor
    · intro same
      rw [← same, getElem?_set_self hin]
    · intro here
      obtain ⟨_, val⟩ := List.getElem?_eq_some_iff.mp here
      have same := set_getElem_self hin
      rwa [val] at same
  case isFalse beyond => simp [getElem?_eq_none (Nat.not_lt.mp beyond)]

end MemoryRaftStorage

theorem PendingProposals.register_error_iff (proposal : ProposalId) (mutationId : MutationId)
    (pending : PendingProposals) :
    (∃ error, (pending.register proposal mutationId).2 = .error error) ↔
      pending.maxCapacity ≤ pending.entries.length := by
  unfold register
  extract_lets size cap ticket cleared
  split
  case isTrue full => simpa using full
  case isFalse room => simpa using room

namespace RaftNode
variable [ReplicatedStateMachine σ δ]

def proposedEntry (op : δ) (node : RaftNode σ δ) : RaftLogEntry δ :=
  ⟨node.currentTerm, node.log.length, .data op⟩

/-- A refused proposal leaves both logs as they were. -/
def RefusalLeavesNoTrace (faults : StorageFaults) (op : δ) (node : RaftNode σ δ) : Prop :=
  ∀ failure, (node.proposeDataMutation faults op).2 = .error failure →
    (node.proposeDataMutation faults op).1.log = node.log ∧
      (node.proposeDataMutation faults op).1.storage.log = node.storage.log

theorem proposeDataMutation_stored (faults : StorageFaults) (op : δ) {node : RaftNode σ δ}
    (leads : node.role = .leader) (stored : faults.append 0 = .none) :
    (node.proposeDataMutation faults op).1.log = node.log ++ [node.proposedEntry op] ∧
    (node.proposeDataMutation faults op).1.pendingProposals =
      (node.pendingProposals.register ⟨node.currentTerm, node.log.length⟩ (mutationId σ op)).1 ∧
    (node.proposeDataMutation faults op).2 =
      (node.pendingProposals.register ⟨node.currentTerm, node.log.length⟩
        (mutationId σ op)).2.mapError .error := by
  simp only [proposeDataMutation, propose, proposeBatch, newEntries, mapIdx_cons, mapIdx_nil,
    Nat.add_zero, isLeader, leads, stored, appendEntries, Fault.run_none, beq_self_eq_true, if_true,
    getLast?_singleton, map_cons, map_nil, headD_cons]
  cases registered : node.pendingProposals.register ⟨node.currentTerm, node.log.length⟩
      (mutationId σ op) with
  | mk pending outc =>
    cases outc with
    | error | ok => exact ⟨rfl, rfl, rfl⟩

/-- A leader whose store reports an error. -/
theorem proposeDataMutation_failed {faults : StorageFaults} (op : δ) {node : RaftNode σ δ}
    (leads : node.role = .leader) (failed : faults.append 0 ≠ .none) :
    (node.proposeDataMutation faults op).1.log = node.log ∧
    (node.proposeDataMutation faults op).1.storage.log = (if faults.append 0 = .after then
        putEntry node.storage.log (node.proposedEntry op)
      else node.storage.log) ∧
    ∃ failure, (node.proposeDataMutation faults op).2 = .error failure := by
  simp only [proposeDataMutation, propose, proposeBatch, newEntries, isLeader, leads,
    appendEntries, beq_self_eq_true, if_true]
  cases fault : faults.append 0 with
  | none => exact absurd fault failed
  | before | after => exact ⟨rfl, rfl, _, rfl⟩

/-- A refusal leaves no trace exactly if the node does not lead, or its store takes the entry
    and the registry has room, or the store fails and has not been changed by the entry. -/
theorem refusalLeavesNoTrace_iff (faults : StorageFaults) (op : δ) (node : RaftNode σ δ) :
    node.RefusalLeavesNoTrace faults op ↔ (node.role = .leader → (faults.append 0 = .none →
          node.pendingProposals.entries.length < node.pendingProposals.maxCapacity) ∧
        (faults.append 0 = .after →
          node.storage.log[node.log.length]? = some (node.proposedEntry op))) := by
  unfold RefusalLeavesNoTrace
  by_cases leads : node.role = .leader
  case neg =>
    simp [proposeDataMutation, isLeader, leads]
  case pos =>
    by_cases stored : faults.append 0 = .none
    · obtain ⟨log, -, outc⟩ := proposeDataMutation_stored faults op leads stored
      have grown : (node.proposeDataMutation faults op).1.log ≠ node.log := by
        rw [log]
        simp
      have full := register_error_iff ⟨node.currentTerm, node.log.length⟩
        (mutationId σ op) node.pendingProposals
      rw [outc]
      simp only [leads, stored, grown, false_and, imp_false, true_imp_iff, reduceCtorEq,
        IsEmpty.forall_iff, and_true]
      rw [← Nat.not_le, ← full]
      cases (node.pendingProposals.register ⟨node.currentTerm, node.log.length⟩
        (mutationId σ op)).2 with
      | error | ok => simp [Except.mapError]
    · obtain ⟨log, disk, failure, refused⟩ := proposeDataMutation_failed op leads stored
      rw [log, disk, refused]
      simp only [leads, stored, Except.error.injEq, forall_eq', true_and, true_imp_iff,
        IsEmpty.forall_iff]
      split
      case isTrue after =>
        simp only [after, true_imp_iff]
        exact putEntry_eq_self_iff
      case isFalse before => simp [before]

/-- Proposals that nobody answers, one after the other. -/
def proposeTimes (op : δ) : Nat → RaftNode σ δ → RaftNode σ δ
  | 0, node => node
  | count + 1, node => proposeTimes op count (node.proposeDataMutation {} op).1

/-- Every registered index is in the log. -/
def RegistersLog (node : RaftNode σ δ) : Prop :=
  ∀ entry ∈ node.pendingProposals.entries, entry.1.logIndex < node.log.length

theorem proposeTimes_fills (op : δ) (count : Nat) {node : RaftNode σ δ}
    (leads : node.role = .leader) (logged : node.RegistersLog)
    (room : node.pendingProposals.entries.length + count ≤ node.pendingProposals.maxCapacity) :
    (node.proposeTimes op count).role = .leader ∧
      (node.proposeTimes op count).pendingProposals.maxCapacity =
        node.pendingProposals.maxCapacity ∧
      (node.proposeTimes op count).pendingProposals.entries.length =
        node.pendingProposals.entries.length + count := by
  induction count generalizing node with
  | zero => exact ⟨leads, rfl, rfl⟩
  | succ count ih =>
    have role : (node.proposeDataMutation {} op).1.role = node.role :=
      node.proposeDataMutation_effect.role
    obtain ⟨log, pending, -⟩ := proposeDataMutation_stored {} op leads rfl
    have fresh : node.pendingProposals.remove ⟨node.currentTerm, node.log.length⟩ =
        node.pendingProposals := by
      have kept : node.pendingProposals.entries.filter
          (·.1 != (⟨node.currentTerm, node.log.length⟩ : ProposalId)) =
          node.pendingProposals.entries := by
        rw [filter_eq_self]
        intro entry mem
        have below := logged entry mem
        rw [bne_iff_ne]
        intro same
        rw [same] at below
        exact Nat.lt_irrefl _ below
      rw [remove, kept]
    rw [register, if_neg (by omega), fresh] at pending
    have ents := congrArg entries pending
    have cap := congrArg maxCapacity pending
    simp only at ents cap
    have next := @ih (node.proposeDataMutation {} op).1 (role.trans leads) (by
      intro entry mem
      rw [ents] at mem
      rw [log, length_append, length_singleton]
      rcases mem_append.mp mem with old | new
      · exact Nat.lt_succ_of_lt (logged entry old)
      · rw [mem_singleton.mp new]
        exact Nat.lt_succ_self _) (by
      rw [ents, cap, length_append, length_singleton]
      omega)
    rw [ents, cap, length_append, length_singleton] at next
    obtain ⟨leadsThen, capacityThen, lengthThen⟩ := next
    exact ⟨leadsThen, capacityThen, by rw [proposeTimes, lengthThen]; omega⟩

/-- A node that elected itself. -/
def firstLeader : RaftNode Nat Nat :=
  ((RaftNode.new 1 [1] : RaftNode Nat Nat).stand .none 1).1.becomeLeader [1]

/-- After 65536 proposals without an answer the next one is refused, and it is in the log. -/
theorem saturated_proposal_is_logged :
    ¬ (firstLeader.proposeTimes 5 65536).RefusalLeavesNoTrace {} 7 := by
  have empty : firstLeader.pendingProposals.entries = [] := rfl
  have cap : firstLeader.pendingProposals.maxCapacity = 65536 := rfl
  obtain ⟨leads, sameCapacity, length⟩ := @proposeTimes_fills Nat Nat _ 5 65536 firstLeader rfl
    (fun entry mem => by rw [empty] at mem; cases mem)
    (by rw [empty, cap]; exact Nat.le_refl _)
  intro noTrace
  obtain ⟨log, -, outc⟩ := proposeDataMutation_stored {} 7 leads rfl
  have full := (register_error_iff
    ⟨(firstLeader.proposeTimes 5 65536).currentTerm, (firstLeader.proposeTimes 5 65536).log.length⟩
    (mutationId Nat 7)
    (firstLeader.proposeTimes 5 65536).pendingProposals).mpr
      (by rw [sameCapacity, length, empty, cap]; exact Nat.le_refl _)
  obtain ⟨error, refused⟩ := full
  rw [refused] at outc
  have same := (noTrace _ outc).1
  rw [log] at same
  simp at same

end RaftNode
end HoloSphere.Consensus
