import HoloSphere.Cluster.StateMachine

/-! # Retried requests

What the deduplication horizon guarantees over a whole sequence of calls.  The
number recorded for a client is overwritten by every published write of that
client, in whichever retry mode it was sent.  As long as writes outside the
exactly-once mode carry no number below the recorded one, the record only grows,
and a request that was served is never let through again.
-/

namespace HoloSphere.Cluster
open Consensus Discovery Memory Function
namespace DeduplicationHorizon

/-- No client's number has gone down, and no client has lost its receipt. -/
structure Advances (pre after : DeduplicationHorizon) : Prop where
  sequence : ∀ client lastSeq, pre.clientSequences client = some lastSeq →
    ∃ later, after.clientSequences client = some later ∧ lastSeq ≤ later
  receipt : ∀ client, (pre.clientReceipts client).isSome → (after.clientReceipts client).isSome

theorem Advances.refl (horizon : DeduplicationHorizon) : Advances horizon horizon :=
  ⟨fun _ lastSeq recorded => ⟨lastSeq, recorded, le_rfl⟩, fun _ kept => kept⟩

theorem Advances.trans (fst : Advances pre middle) (snd : Advances middle after) :
    Advances pre after := by
  constructor
  · intro client lastSeq recorded
    obtain ⟨mid, atMiddle, grown⟩ := fst.sequence client lastSeq recorded
    obtain ⟨later, atEnd, grownAgain⟩ := snd.sequence client mid atMiddle
    exact ⟨later, atEnd, grown.trans grownAgain⟩
  · intro client kept
    exact snd.receipt client (fst.receipt client kept)

theorem Advances.served (advances : Advances pre after) (served : pre.Served client clientSeq) :
    after.Served client clientSeq := by
  obtain ⟨lastSeq, recorded, reached⟩ := served.sequence
  obtain ⟨later, atEnd, grown⟩ := advances.sequence client lastSeq recorded
  exact ⟨⟨later, atEnd, reached.trans grown⟩, advances.receipt client served.receipt⟩

/-- Taking note of a number that is not below the recorded one. -/
theorem advances_insert {horizon : DeduplicationHorizon}
    (notBelow : ∀ known lastSeq, client = some known →
      horizon.clientSequences known = some lastSeq → lastSeq ≤ clientSeq) :
    Advances horizon (horizon.insert receipt client clientSeq) := by
  cases client with
  | none =>
    constructor
    · intro other lastSeq recorded
      rw [insert_clientSequences]
      exact ⟨lastSeq, recorded, le_rfl⟩
    · intro other kept
      rw [insert_clientReceipts]
      exact kept
  | some known =>
    constructor
    · intro other lastSeq recorded
      rw [insert_clientSequences]
      by_cases same : other = known
      · subst same
        exact ⟨clientSeq, update_self .., notBelow other lastSeq rfl recorded⟩
      · exact ⟨lastSeq, (update_of_ne same ..).trans recorded, le_rfl⟩
    · intro other kept
      rw [insert_clientReceipts]
      by_cases same : other = known
      · subst same
        simp [recordClient]
      · simp only [recordClient, update_of_ne same]
        exact kept

theorem served_insert (receipt : ApplyReceipt) (client : ClientIdentity)
    (horizon : DeduplicationHorizon) :
    (horizon.insert receipt (some client) clientSeq).Served client clientSeq := by
  constructor
  · rw [insert_clientSequences]
    exact ⟨clientSeq, update_self .., le_rfl⟩
  · rw [insert_clientReceipts]
    simp [recordClient]

end DeduplicationHorizon

namespace ShardStateMachine
open DeduplicationHorizon
section
variable [Primitives] [F32Arithmetic]

structure Call where
  index : Nat
  mutation : DataMutation

def step (m : ShardStateMachine) (call : Call) : ShardStateMachine :=
  (m.apply call.index call.mutation).1

def run (m : ShardStateMachine) (calls : List Call) : ShardStateMachine := calls.foldl step m

theorem run_append (m : ShardStateMachine) (front back : List Call) :
    m.run (front ++ back) = (m.run front).run back :=
  List.foldl_append ..

/-- The call's deltas are published: the horizon lets it through, and preparation and
    publication complete. -/
def Publishes (m : ShardStateMachine) (call : Call) : Prop :=
  m.checkMutation call.mutation = .ok none ∧
    ∃ deltas, m.prepareMutation call.index call.mutation [] = (deltas, .ok ()) ∧
      (Backends.publishDeltas deltas m.toBackends).2 = .ok ()

/-- Two exactly-once requests of one client under one number. -/
def SameRequest (fst snd : DataMutation) : Prop :=
  ∃ client clientSeq gap otherGap,
    fst.retryContext = (some client, clientSeq, .exactlyOnceWithinWindow gap) ∧
      snd.retryContext = (some client, clientSeq, .exactlyOnceWithinWindow otherGap)

/-- Of two calls with the same request at most one publishes. -/
def PublishesAtMostOnce (m : ShardStateMachine) (calls : List Call) : Prop :=
  ∀ pre fst between snd after, calls = pre ++ fst :: (between ++ snd :: after) →
      SameRequest fst.mutation snd.mutation → (m.run pre).Publishes fst →
        ¬ (m.run (pre ++ fst :: between)).Publishes snd

/-- A number recorded at one moment is not above the one recorded at a later moment. -/
def NeverDecreases (m : ShardStateMachine) (calls : List Call) : Prop :=
  ∀ pre between after, calls = pre ++ (between ++ after) →
    ∀ client lastSeq, (m.run pre).dedupHorizon.clientSequences client = some lastSeq →
      ∃ later, (m.run (pre ++ between)).dedupHorizon.clientSequences client = some later ∧
        lastSeq ≤ later

/-- A write outside the exactly-once mode carries no number below the client's record. -/
def InOrder (m : ShardStateMachine) (op : DataMutation) : Prop :=
  ∀ client clientSeq retry lastSeq, op.retryContext = (some client, clientSeq, retry) →
    (∀ gap, retry ≠ .exactlyOnceWithinWindow gap) →
      m.dedupHorizon.clientSequences client = some lastSeq → lastSeq ≤ clientSeq

def InOrderThroughout : List Call → ShardStateMachine → Prop
  | [], _ => True
  | call :: rest, m =>
    m.InOrder call.mutation ∧ InOrderThroughout rest (m.step call)

variable {m : ShardStateMachine}

theorem inOrderThroughout_append : InOrderThroughout (front ++ back) m ↔
      InOrderThroughout front m ∧ InOrderThroughout back (m.run front) := by
  induction front generalizing m with
  | nil => simp [InOrderThroughout, run]
  | cons call front ih =>
    simp only [List.cons_append, InOrderThroughout, ih, and_assoc]
    rfl

omit [F32Arithmetic] in
theorem notBelow_of_passed (ordered : m.InOrder op) (passed : m.checkMutation op = .ok none)
    (sent : op.retryContext.1 = some client)
    (recorded : m.dedupHorizon.clientSequences client = some lastSeq) :
    lastSeq ≤ op.retryContext.2.1 := by
  unfold checkMutation at passed
  unfold InOrder at ordered
  generalize op.retryContext = context at ordered passed sent ⊢
  obtain ⟨sender, clientSeq, retry⟩ := context
  dsimp only at sent passed ⊢
  subst sent
  cases retry with
  | atLeastOnce | idempotent => exact ordered client clientSeq _ lastSeq rfl (by simp) recorded
  | exactlyOnceWithinWindow gap => exact le_of_check_none passed recorded

theorem advances_step (ordered : m.InOrder call.mutation) :
    Advances m.dedupHorizon (m.step call).dedupHorizon := by
  unfold step
  have eff := apply_effect call.index call.mutation m
  generalize m.apply call.index call.mutation = ans at eff
  cases eff with
  | refused | replayed | unprepared | halted => exact .refl _
  | published _ _ passed =>
    apply advances_insert
    intro client lastSeq sent recorded
    exact notBelow_of_passed ordered passed sent recorded

theorem advances_run (ordered : InOrderThroughout calls m) :
    Advances m.dedupHorizon (m.run calls).dedupHorizon := by
  induction calls generalizing m with
  | nil => exact .refl _
  | cons call rest ih => exact (advances_step ordered.1).trans (ih ordered.2)

theorem Publishes.served (publishes : m.Publishes call)
    (sent : call.mutation.retryContext = (some client, clientSeq, retry)) :
    (m.step call).dedupHorizon.Served client clientSeq := by
  obtain ⟨passed, deltas, prep, done⟩ := publishes
  unfold step
  have eff := apply_effect call.index call.mutation m
  generalize m.apply call.index call.mutation = ans at eff
  cases eff with
  | refused failure checked => cases passed.symm.trans checked
  | replayed cached checked => cases passed.symm.trans checked
  | unprepared e others _ failed => cases prep.symm.trans failed
  | halted failure others published _ again stopped =>
    cases prep.symm.trans again
    rw [stopped] at done
    cases done
  | published others published =>
    simp only [recorded, sent]
    exact served_insert ..

theorem Served.not_publishes (served : m.dedupHorizon.Served client clientSeq)
    (sent : call.mutation.retryContext = (some client, clientSeq, .exactlyOnceWithinWindow gap)) :
    ¬ m.Publishes call := by
  rintro ⟨passed, -⟩
  simp only [checkMutation, sent] at passed
  exact DeduplicationHorizon.Served.check_ne_none served _ gap passed

theorem publishesAtMostOnce_of_inOrder (ordered : InOrderThroughout calls m) :
    m.PublishesAtMostOnce calls := by
  rintro pre fst between snd after rfl ⟨client, clientSeq, gap, otherGap, sent, resent⟩
    publishes
  obtain ⟨-, -, later⟩ := inOrderThroughout_append.mp ordered
  obtain ⟨during, -⟩ := inOrderThroughout_append.mp later
  have served := (advances_run during).served (publishes.served sent)
  rw [run_append]
  exact Served.not_publishes served resent

theorem neverDecreases_of_inOrder (ordered : InOrderThroughout calls m) :
    m.NeverDecreases calls := by
  rintro pre between after rfl client lastSeq recorded
  obtain ⟨-, later⟩ := inOrderThroughout_append.mp ordered
  obtain ⟨during, -⟩ := inOrderThroughout_append.mp later
  rw [run_append]
  exact (advances_run during).sequence client lastSeq recorded

/-- A request is published at most once and the records only grow, in every sequence of
    calls in which no write outside the exactly-once mode goes back behind the record. -/
theorem ordered_requests_publish_once (m : ShardStateMachine) (calls : List Call)
    (ordered : InOrderThroughout calls m) :
    m.PublishesAtMostOnce calls ∧ m.NeverDecreases calls :=
  ⟨publishesAtMostOnce_of_inOrder ordered, neverDecreases_of_inOrder ordered⟩

end

/-- A constant hash and programs without content, for concrete runs. -/
instance plainPrimitives : Primitives where
  sha256 _ := .zero
  Program := Unit
  decideProgram := inferInstance
  serializeProgram _ := []

/-- Arithmetic on patterns as if they were numbers, for concrete runs. -/
instance plainArithmetic : F32Arithmetic where
  add := (· + ·)
  mul := (· * ·)
  neg := id
  ln := id
  ofU32 := UInt32.ofNat
  toU64 := UInt32.toNat
  display bits := toString bits.toNat

def shard : ShardStateMachine := .new 0 (.new 0 1)

def sender : ClientIdentity := ⟨"tenant", "client"⟩

def deleteCall (idx : Nat) (mutationId : MutationId) (clientSeq : Nat)
    (retrySemantics : RetrySemantics) : Call :=
  ⟨idx, .delete mutationId "key" (some sender) clientSeq retrySemantics⟩

def request (idx : Nat) : Call := deleteCall idx "request" 5 (.exactlyOnceWithinWindow 10)

def laggard : Call := deleteCall 2 "laggard" 3 .atLeastOnce

def newer : Call := deleteCall 2 "newer" 6 .idempotent

theorem inOrder_request (m : ShardStateMachine) : m.InOrder (request idx).mutation := by
  intro client clientSeq retry lastSeq sent otherMode
  cases sent
  exact absurd rfl (otherMode 10)

theorem inOrder_newer : (shard.run [request 1]).InOrder newer.mutation := by
  intro client clientSeq retry lastSeq sent _ recorded
  cases sent
  have five : (shard.run [request 1]).dedupHorizon.clientSequences sender = some 5 := rfl
  cases five.symm.trans recorded
  decide

/-- A request, a newer write in another mode, and the request again. -/
theorem retry_after_newer_write_publishes_once :
    shard.PublishesAtMostOnce [request 1, newer, request 3] ∧
      shard.NeverDecreases [request 1, newer, request 3] :=
  ordered_requests_publish_once shard [request 1, newer, request 3]
    ⟨inOrder_request shard, inOrder_newer, inOrder_request _, trivial⟩

/-- A write sent at least once with a smaller number takes the record back from five to
    three, and the request before it is published a second time. -/
theorem older_write_reopens_request : ¬ shard.PublishesAtMostOnce [request 1, laggard, request 3] ∧
      ¬ shard.NeverDecreases [request 1, laggard, request 3] := by
  constructor
  · intro atMostOnce
    have same : SameRequest (request 1).mutation (request 3).mutation :=
      ⟨sender, 5, 10, 10, rfl, rfl⟩
    have fst : (shard.run []).Publishes (request 1) := ⟨rfl, [.vectorDelete "key"], rfl, rfl⟩
    have snd : (shard.run [request 1, laggard]).Publishes (request 3) :=
      ⟨rfl, [.vectorDelete "key"], rfl, rfl⟩
    exact atMostOnce [] (request 1) [laggard] (request 3) [] rfl same fst snd
  · intro grows
    have five : (shard.run [request 1]).dedupHorizon.clientSequences sender = some 5 := rfl
    have three : (shard.run [request 1, laggard]).dedupHorizon.clientSequences sender = some 3 :=
      rfl
    obtain ⟨later, recorded, grown⟩ := grows [request 1] [laggard] [request 3] rfl sender 5 five
    cases three.symm.trans recorded
    exact absurd grown (by decide)

end ShardStateMachine
end HoloSphere.Cluster
