import HoloSphere.Consensus.Node
import Mathlib.Data.List.AList

/-! # The deduplication horizon

`DeduplicationHorizon` of `cluster/state_machine.rs`.  The receipts by mutation id
are a finite map, because their number is compared with the capacity; what is kept
per client is never removed, and those maps are functions.
-/

namespace HoloSphere.Cluster
open Consensus

inductive RetrySemantics where
  | atLeastOnce
  | idempotent
  | exactlyOnceWithinWindow (maxSequenceGap : Nat)
  deriving DecidableEq

structure ClientIdentity where
  tenantId : String
  clientId : String
  deriving DecidableEq

structure DeduplicationHorizon where
  seen : AList fun _ : MutationId => ApplyReceipt
  clientSequences : ClientIdentity → Option Nat
  clientReceipts : ClientIdentity → Option ApplyReceipt
  order : List MutationId
  maxCapacity : Nat

namespace DeduplicationHorizon

def new (maxCapacity : Nat) : DeduplicationHorizon :=
  ⟨∅, fun _ => none, fun _ => none, [], maxCapacity⟩

/-- `ApplyError::SequenceViolation`, turned into the crate's error. -/
def sequenceViolation (reason : String) : Failure :=
  .error (.internal s!"Sequence violation: {reason}")

/-- The test against the last number of a client: the receipt of an exact repetition, an
    error for a number that is too old or too far ahead, nothing otherwise.  The end of
    the window is computed in 64 bits with overflow checks. -/
def checkSequence (id : MutationId) (client : ClientIdentity) (clientSeq maxSequenceGap : Nat)
    (lastSeq : Nat) (horizon : DeduplicationHorizon) : Except Failure (Option ApplyReceipt) :=
  if clientSeq = lastSeq then
    .ok ((horizon.clientReceipts client).or (horizon.seen.lookup id))
  else if clientSeq < lastSeq then
    .error (sequenceViolation
      s!"Stale client sequence {clientSeq} (last observed: {lastSeq})")
  else if 2 ^ 64 ≤ lastSeq + maxSequenceGap then .error (.panic "attempt to add with overflow")
  else if lastSeq + maxSequenceGap < clientSeq then
    .error (sequenceViolation ("Client sequence gap exceeded window limit: " ++
      s!"seq {clientSeq}, last {lastSeq}, max gap {maxSequenceGap}"))
  else .ok none

def check (id : MutationId) (client : Option ClientIdentity) (clientSeq : Nat)
    (retry : RetrySemantics) (horizon : DeduplicationHorizon) :
    Except Failure (Option ApplyReceipt) :=
  match retry with
  | .atLeastOnce => .ok none
  | .idempotent => .ok (horizon.seen.lookup id)
  | .exactlyOnceWithinWindow maxSequenceGap =>
    match client with
    | none =>
      .error (sequenceViolation "ClientIdentity is required for ExactlyOnceWithinWindow")
    | some client =>
      match horizon.clientSequences client with
      | none => .ok none
      | some lastSeq => horizon.checkSequence id client clientSeq maxSequenceGap lastSeq

/-- The client's number and receipt are overwritten whatever the retry semantics were. -/
def recordClient (receipt : ApplyReceipt) (client : Option ClientIdentity) (clientSeq : Nat)
    (horizon : DeduplicationHorizon) : DeduplicationHorizon :=
  match client with
  | none => horizon
  | some client =>
    { horizon with
      clientSequences := Function.update horizon.clientSequences client (some clientSeq)
      clientReceipts := Function.update horizon.clientReceipts client (some receipt) }

def evictOldest (horizon : DeduplicationHorizon) : DeduplicationHorizon :=
  if horizon.maxCapacity ≤ horizon.seen.entries.length then
    match horizon.order with
    | [] => horizon
    | oldest :: rest => { horizon with order := rest, seen := horizon.seen.erase oldest }
  else horizon

def insert (receipt : ApplyReceipt) (client : Option ClientIdentity) (clientSeq : Nat)
    (horizon : DeduplicationHorizon) : DeduplicationHorizon :=
  let horizon := (horizon.recordClient receipt client clientSeq).evictOldest
  { horizon with
    order := horizon.order ++ [receipt.mutationId]
    seen := horizon.seen.insert receipt.mutationId receipt }

section
variable (horizon : DeduplicationHorizon)
include horizon

@[simp] theorem evictOldest_clientSequences :
    horizon.evictOldest.clientSequences = horizon.clientSequences := by
  unfold evictOldest
  split
  · split <;> rfl
  · rfl

@[simp] theorem evictOldest_clientReceipts :
    horizon.evictOldest.clientReceipts = horizon.clientReceipts := by
  unfold evictOldest
  split
  · split <;> rfl
  · rfl

theorem insert_clientSequences : (horizon.insert receipt client clientSeq).clientSequences =
      (horizon.recordClient receipt client clientSeq).clientSequences :=
  evictOldest_clientSequences _

theorem insert_clientReceipts : (horizon.insert receipt client clientSeq).clientReceipts =
      (horizon.recordClient receipt client clientSeq).clientReceipts :=
  evictOldest_clientReceipts _

end

/-- The client has been given a receipt for this number or a later one. -/
structure Served (client : ClientIdentity) (clientSeq : Nat) (horizon : DeduplicationHorizon) :
    Prop where
  sequence : ∃ lastSeq, horizon.clientSequences client = some lastSeq ∧ clientSeq ≤ lastSeq
  receipt : (horizon.clientReceipts client).isSome

/-- A request that lets its deltas through has no number recorded above its own. -/
theorem le_of_check_none {id : MutationId} {client : ClientIdentity} {clientSeq gap lastSeq : Nat}
    {horizon : DeduplicationHorizon}
    (passed : horizon.check id (some client) clientSeq (.exactlyOnceWithinWindow gap) = .ok none)
    (recorded : horizon.clientSequences client = some lastSeq) : lastSeq ≤ clientSeq := by
  simp only [check, recorded, checkSequence] at passed
  split at passed
  next same => exact le_of_eq same.symm
  next =>
    split at passed
    next => cases passed
    next notStale => exact not_lt.mp notStale

/-- A number that was served is not let through again. -/
theorem Served.check_ne_none {client : ClientIdentity} {clientSeq : Nat}
    {horizon : DeduplicationHorizon} (served : horizon.Served client clientSeq) (id : MutationId)
    (gap : Nat) :
    horizon.check id (some client) clientSeq (.exactlyOnceWithinWindow gap) ≠ .ok none := by
  intro passed
  obtain ⟨lastSeq, recorded, reached⟩ := served.sequence
  obtain ⟨receipt, kept⟩ := Option.isSome_iff_exists.mp served.receipt
  have same : clientSeq = lastSeq := le_antisymm reached (le_of_check_none passed recorded)
  simp [check, recorded, checkSequence, same, kept] at passed

end DeduplicationHorizon
end HoloSphere.Cluster
