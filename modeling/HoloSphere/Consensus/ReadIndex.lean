import HoloSphere.Consensus.Types

/-! # ReadIndex rounds

The round table of `consensus/read_index.rs`.  A context id is drawn at random by
the source and is an argument here.  Clock readings and counters are left out:
the lease half of the engine is real time.
-/

namespace HoloSphere.Consensus

structure ReadIndexRequest where
  context : Nat
  term : Nat
  deriving DecidableEq

structure ReadIndexConfirmation where
  context : Nat
  term : Nat
  nodeId : NodeId
  success : Bool
  deriving DecidableEq

structure ReadIndexRoundState where
  term : Nat
  confirmations : List NodeId
  deriving DecidableEq

structure ReadIndexEngine where
  leaseTerm : Nat := 0
  pendingRounds : Nat → Option ReadIndexRoundState := fun _ => none

namespace ReadIndexEngine

def setRound (context : Nat) (st : Option ReadIndexRoundState) (eng : ReadIndexEngine) :
    ReadIndexEngine :=
  { eng with
    pendingRounds := fun other => if other = context then st else eng.pendingRounds other }

def startReadIndexRound (context term : Nat) (leaderId : NodeId) (eng : ReadIndexEngine) :
    ReadIndexEngine × ReadIndexRequest :=
  (eng.setRound context (some ⟨term, [leaderId]⟩), ⟨context, term⟩)

/-- `Ok(true)` when the round has now reached the quorum. -/
def handleConfirmation (conf : ReadIndexConfirmation) (currentTerm quorumSize : Nat)
    (eng : ReadIndexEngine) : ReadIndexEngine × Except HNSQRError Bool :=
  let received := conf.term
  if received ≠ currentTerm then
    (eng, .error (.internal
      s!"ReadIndex confirmation term mismatch: received {received}, current {currentTerm}"))
  else
    match eng.pendingRounds conf.context with
    | none => (eng, .ok false)
    | some st =>
      let staleTerm := st.term
      if staleTerm ≠ currentTerm then
        (eng.setRound conf.context none, .error (.internal
          s!"ReadIndex round invalidated due to term change from {staleTerm} to {currentTerm}"))
      else
        let confirmations :=
          if conf.success then st.confirmations.insert conf.nodeId else st.confirmations
        if quorumSize ≤ confirmations.length then
          (eng.setRound conf.context none, .ok true)
        else
          (eng.setRound conf.context (some { st with confirmations := confirmations }), .ok false)

def recordQuorumSuccess (term : Nat) (eng : ReadIndexEngine) : ReadIndexEngine :=
  { eng with leaseTerm := term }

end ReadIndexEngine
end HoloSphere.Consensus
