import HoloSphere.Consensus.Types

/-! # Pending proposals

The registry of `consensus/pending.rs`.  A one-shot channel is a numbered ticket:
sending on it adds the ticket with its answer to `resolved`, and an entry which
is overwritten drops its sender without an answer.
-/

namespace HoloSphere.Consensus

structure ProposalId where
  term : Nat
  logIndex : Nat
  deriving DecidableEq

abbrev MutationId := String

inductive DurabilityLevel where
  | memoryOnly
  | quorumReplicated
  | quorumDurableFsylog
  deriving DecidableEq

structure CommitReceipt where
  mutationId : MutationId
  term : Nat
  logIndex : Nat
  quorumCommitted : Bool
  stateMachineApplied : Bool
  appliedIndex : Nat
  topologyEpoch : Nat
  durability : DurabilityLevel
  deriving DecidableEq

inductive CommitStatus where
  | committed
  | uncommitted
  | unknown
  deriving DecidableEq

inductive ApplyError where
  | leadershipLost (mutationId : MutationId) (term logIndex : Nat) (commitStatus : CommitStatus)
  | stateApplyFailed (mutationId : MutationId) (reason : String) (logIndex : Nat)
  | stateMachineUnavailable (logIndex : Nat)
  | sequenceViolation (reason : String)
  deriving DecidableEq

structure PendingEntry where
  ticket : Nat
  mutationId : MutationId
  deriving DecidableEq

structure PendingProposals where
  entries : List (ProposalId × PendingEntry) := []
  maxCapacity : Nat := 65536
  nextTicket : Nat := 0
  resolved : List (Nat × Except ApplyError CommitReceipt) := []

namespace PendingProposals

def lookup (proposal : ProposalId) (pending : PendingProposals) : Option PendingEntry :=
  (pending.entries.find? (·.1 == proposal)).map (·.2)

def remove (proposal : ProposalId) (pending : PendingProposals) : PendingProposals :=
  { pending with entries := pending.entries.filter (·.1 != proposal) }

def send (ticket : Nat) (ans : Except ApplyError CommitReceipt) (pending : PendingProposals) :
    PendingProposals :=
  { pending with resolved := pending.resolved ++ [(ticket, ans)] }

def register (proposal : ProposalId) (mutationId : MutationId) (pending : PendingProposals) :
    PendingProposals × Except HNSQRError Nat :=
  let size := pending.entries.length
  let capacity := pending.maxCapacity
  if capacity ≤ size then
    (pending, .error (.internal s!"Pending proposals queue saturated ({size}/{capacity})"))
  else
    let ticket := pending.nextTicket
    let cleared := pending.remove proposal
    ({ cleared with
        entries := cleared.entries ++ [(proposal, ⟨ticket, mutationId⟩)]
        nextTicket := ticket + 1 }, .ok ticket)

/-- `new_verified` asserts a positive applied index; when the assertion fails the
    sender is dropped while the entry is already gone. -/
def completeApplied (proposal : ProposalId) (term appliedIndex topologyEpoch : Nat)
    (durability : DurabilityLevel) (pending : PendingProposals) : PendingProposals :=
  match pending.lookup proposal with
  | none => pending
  | some entry =>
    if appliedIndex = 0 then pending.remove proposal
    else
      (pending.remove proposal).send entry.ticket (.ok
        { mutationId := entry.mutationId, term := term, logIndex := proposal.logIndex,
          quorumCommitted := true, stateMachineApplied := true, appliedIndex := appliedIndex,
          topologyEpoch := topologyEpoch, durability := durability })

def failProposal (proposal : ProposalId) (error : ApplyError) (pending : PendingProposals) :
    PendingProposals :=
  match pending.lookup proposal with
  | none => pending
  | some entry => (pending.remove proposal).send entry.ticket (.error error)

def cancelAllLeadershipLost (currentTerm : Nat) (pending : PendingProposals) : PendingProposals :=
  { pending with
    entries := []
    resolved := pending.resolved ++ pending.entries.map fun (proposal, entry) =>
      (entry.ticket, .error (.leadershipLost entry.mutationId currentTerm proposal.logIndex
        .unknown)) }

end PendingProposals
end HoloSphere.Consensus
