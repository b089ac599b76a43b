import HoloSphere.Consensus.Repair

/-! # The stored log and the live log

One replica over any sequence of its calls.  The handlers write the store first
and memory second, with an early return when a storage call fails, so the two
logs can part.  They stay equal as long as a failing call leaves the store alone
and the entry that replaces a conflicting one is written once the conflict has
been cut off.
-/

namespace HoloSphere.Consensus
open MemoryRaftStorage
namespace RaftNode
variable {σ δ : Type}

/-- The calls that a replica receives.  `takeOver` is the part of a won election
    that happens on the winner, before its first proposal. -/
inductive Call (δ : Type) where
  | handleRequestVote (args : RequestVoteArgs) (faults : StorageFaults)
  | handleAppendEntries (args : AppendEntriesArgs δ) (faults : StorageFaults)
  | takeOver (keys : List NodeId) (fault : Fault)
  | proposeBatch (cmds : List (RaftCommand δ)) (faults : StorageFaults)
  | checkQuorumCommit (faults : StorageFaults)

/-- The state after a call and whether the call reported an error. -/
def perform [ReplicatedStateMachine σ δ] (node : RaftNode σ δ) : Call δ → RaftNode σ δ × Bool
  | .handleRequestVote args faults => ((node.handleRequestVote faults args).1, false)
  | .handleAppendEntries args faults =>
    let (updated, reply) := node.handleAppendEntries faults args
    (updated, !reply.success)
  | .takeOver keys fault =>
    match node.stand fault node.id with
    | (cand, true) => (cand.becomeLeader keys, false)
    | (cand, false) => (cand, true)
  | .proposeBatch cmds faults =>
    match node.proposeBatch faults cmds with
    | (updated, .ok _) => (updated, false)
    | (updated, .error _) => (updated, true)
  | .checkQuorumCommit faults => ((node.checkQuorumCommit faults).1, false)

def Call.writes : Call δ → Bool
  | .handleAppendEntries _ _ | .proposeBatch _ _ => true
  | _ => false

/-- The live log is the stored log; after a reported error one may instead be a
    leading part of the other.  A restart in either case finds every entry at its
    own index. -/
structure Mirrors (failed : Bool) (node : RaftNode σ δ) : Prop where
  logs : node.log = node.storage.loadLogEntries 0 ∨ (failed = true ∧ Indexed node.log ∧
      (node.storage.loadLogEntries 0 <+: node.log ∨ node.log <+: node.storage.loadLogEntries 0))
  restart : Indexed (node.storage.loadLogEntries 0)

/-- The two logs are looked at after every call that writes. -/
def MirrorsThroughout [ReplicatedStateMachine σ δ] (node : RaftNode σ δ) : List (Call δ) → Prop
  | [] => True
  | call :: rest =>
    (call.writes = true → (node.perform call).1.Mirrors (node.perform call).2) ∧
      MirrorsThroughout (node.perform call).1 rest

/-- The first entry of a message whose place in the log is taken by an entry of
    another term. -/
def firstConflict (log : List (RaftLogEntry δ)) : Nat → List (RaftLogEntry δ) → Option Nat
  | _, [] => none
  | insertIdx, entry :: rest =>
    match log[insertIdx]? with
    | none => none
    | some existing =>
      if existing.term ≠ entry.term then some 0
      else (firstConflict log (insertIdx + 1) rest).map (· + 1)

/-- A message numbered from its `prev_log_index`, whose failing storage calls leave
    the store alone and whose first conflict is not cut off without a replacement. -/
structure CleanAppend (args : AppendEntriesArgs δ) (faults : StorageFaults)
    (node : RaftNode σ δ) : Prop where
  numbered : ∀ (k : Nat) (e : RaftLogEntry δ), args.entries[k]? = some e →
    e.index = args.prevLogIndex + 1 + k
  append : ∀ k, faults.append k ≠ .after
  truncate : ∀ k, faults.truncate k ≠ .after
  replace : ∀ k, firstConflict node.log (args.prevLogIndex + 1) args.entries = some k →
    faults.truncate k = .none → faults.append k = .none

/-- What a call must meet in the state before it. -/
def Clean (node : RaftNode σ δ) : Call δ → Prop
  | .handleAppendEntries args faults => CleanAppend args faults node
  | .proposeBatch _ faults => faults.append 0 ≠ .after
  | _ => True

def CleanThroughout [ReplicatedStateMachine σ δ] (node : RaftNode σ δ) : List (Call δ) → Prop
  | [] => True
  | call :: rest => node.Clean call ∧ CleanThroughout (node.perform call).1 rest

/-- The invariant of a clean run. -/
structure InStep (node : RaftNode σ δ) : Prop where
  same : node.storage.log = node.log
  indexed : Indexed node.log

theorem InStep.mirrors (h : InStep node) (failed : Bool) : node.Mirrors failed := by
  refine ⟨.inl ?_, ?_⟩
  · rw [loadLogEntries_zero, h.same]
  · rw [loadLogEntries_zero, h.same]
    exact h.indexed

theorem InStep.of_logs {node' : RaftNode σ δ} (h : InStep node) (log : node'.log = node.log)
    (stored : node'.storage.log = node.storage.log) : InStep node' :=
  ⟨by rw [stored, log, h.same], by rw [log]; exact h.indexed⟩

theorem InStep.new (id : NodeId) (peers : List NodeId) : InStep (new id peers : RaftNode σ δ) :=
  ⟨rfl, .sentinel⟩

theorem firstConflict_end {log : List (RaftLogEntry δ)} (beyond : log.length ≤ insertIdx) :
    firstConflict log insertIdx ents = none := by
  cases ents with
  | nil => rfl
  | cons entry rest => simp [firstConflict, List.getElem?_eq_none beyond]

/-- An entry numbered by the end of the stored log is stored there, or nothing is. -/
theorem appendEntries_next (sound : fault ≠ .after) {entry : RaftLogEntry δ}
    {sto : MemoryRaftStorage δ} (next : entry.index = sto.log.length) :
    ((sto.appendEntries fault [entry]).2 = true ∧
        (sto.appendEntries fault [entry]).1.log = sto.log ++ [entry]) ∨
      ((sto.appendEntries fault [entry]).2 = false ∧
        (sto.appendEntries fault [entry]).1 = sto) := by
  cases fault with
  | none => exact .inl ⟨rfl, putEntry_end next.ge⟩
  | before => exact .inr ⟨rfl, rfl⟩
  | after => exact absurd rfl sound

theorem repairLog_inStep (append : ∀ k, faults.append k ≠ .after)
    (truncate : ∀ k, faults.truncate k ≠ .after) :
    ∀ (k insertIdx : Nat) (sto : MemoryRaftStorage δ) (log : List (RaftLogEntry δ)),
      sto.log = log → Indexed log → insertIdx ≤ log.length →
      (∀ (j : Nat) (e : RaftLogEntry δ), ents[j]? = some e → e.index = insertIdx + j) →
      (∀ j, firstConflict log insertIdx ents = some j →
        faults.truncate (k + j) = .none → faults.append (k + j) = .none) →
      (repairLog faults k insertIdx sto log ents).storage.log =
          (repairLog faults k insertIdx sto log ents).log ∧
        Indexed (repairLog faults k insertIdx sto log ents).log := by
  induction ents with
  | nil => exact fun _ _ _ _ same indexed _ _ _ => ⟨same, indexed⟩
  | cons entry rest ih =>
    intro k insertIdx sto log same indexed bound numbered replace
    have here : entry.index = insertIdx := numbered 0 entry rfl
    have later : ∀ (j : Nat) (e : RaftLogEntry δ), rest[j]? = some e →
        e.index = insertIdx + 1 + j := by
      intro j e found
      rw [numbered (j + 1) e found]
      omega
    have step (sto : MemoryRaftStorage δ) (part : List (RaftLogEntry δ))
        (stored : sto.log = part ++ [entry]) (old : Indexed part)
        (size : part.length = insertIdx) :=
      ih (k + 1) (insertIdx + 1) sto _ stored (old.snoc (here.trans size.symm)) (by simp [size])
        later (by rw [firstConflict_end (by simp [size])]; nofun)
    unfold repairLog
    cases found : log[insertIdx]? with
    | none =>
      have short : log.length ≤ insertIdx := List.getElem?_eq_none_iff.mp found
      have next : entry.index = sto.log.length := by
        rw [same]
        omega
      rcases appendEntries_next (append k) next with ⟨ok, stored⟩ | ⟨failed, stored⟩
      · simp only [ok, if_true]
        exact step _ log (by rw [stored, same]) indexed (by omega)
      · simp only [failed, Bool.false_eq_true, if_false, stored]
        exact ⟨same, indexed⟩
    | some existing =>
      obtain ⟨hin, -⟩ := List.getElem?_eq_some_iff.mp found
      by_cases conflict : existing.term ≠ entry.term
      · have fst : firstConflict log insertIdx (entry :: rest) = some 0 := by
          simp [firstConflict, found, conflict]
        have size : (log.take insertIdx).length = insertIdx := by
          rw [List.length_take]
          omega
        simp only [if_pos conflict]
        cases cut : faults.truncate k with
        | after => exact absurd cut (truncate k)
        | before =>
          exact ⟨same, indexed⟩
        | none =>
          have written : faults.append k = .none := replace 0 fst cut
          have next : putEntry (log.take insertIdx) entry = log.take insertIdx ++ [entry] :=
            putEntry_end (by omega)
          simp only [truncateSuffix, appendEntries,
            written, Fault.run_none, if_true, same, hin, List.foldl_cons, List.foldl_nil,
            next]
          exact step _ _ rfl (indexed.of_isPrefix (List.take_prefix _ _)) size
      · simp only [if_neg conflict]
        refine ih _ _ _ _ same indexed hin later ?_
        intro j further
        have shifted := replace (j + 1) (by simp [firstConflict, found, conflict, further])
        rwa [show k + (j + 1) = k + 1 + j by omega] at shifted

section
variable [ReplicatedStateMachine σ δ] {node : RaftNode σ δ}

theorem InStep.handleAppendEntries (h : InStep node)
    {args : AppendEntriesArgs δ} {faults : StorageFaults} (clean : CleanAppend args faults node) :
    InStep (node.handleAppendEntries faults args).1 := by
  cases handleAppendEntries_effect faults args node with
  | refused moved same failed => exact h.of_logs same.log same.storedLog
  | accepted eff =>
    obtain ⟨sto, stored, log, storedLog, -⟩ := eff.repair
    have hin : args.prevLogIndex + 1 ≤ node.log.length := by
      obtain ⟨e, here, -⟩ := Option.map_eq_some_iff.mp eff.prev
      exact (List.getElem?_eq_some_iff.mp here).1
    have repaired := repairLog_inStep clean.append clean.truncate 0
      (args.prevLogIndex + 1) sto node.log (stored.trans h.same) h.indexed hin
      clean.numbered (by simpa using clean.replace)
    exact ⟨by rw [storedLog, log, repaired.1], by rw [log]; exact repaired.2⟩

omit [ReplicatedStateMachine σ δ] in
theorem InStep.proposeBatch (h : InStep node) {faults : StorageFaults}
    (clean : faults.append 0 ≠ .after) : InStep (node.proposeBatch faults cmds).1 := by
  have grown : (node.newEntries cmds).foldl putEntry node.storage.log =
      node.log ++ node.newEntries cmds := by
    rw [h.same]
    refine foldl_putEntry_end _ _ ?_
    intro k hin
    obtain ⟨cmd, -, val⟩ := node.newEntries_get (List.getElem?_eq_getElem hin)
    rw [val]
  unfold RaftNode.proposeBatch
  split
  case isFalse => exact h
  case isTrue leads =>
    cases fault : faults.append 0 with
    | after => exact absurd fault clean
    | before => exact ⟨h.same, h.indexed⟩
    | none =>
      simp only [appendEntries, Fault.run_none, if_true, grown]
      split
      case h_1 empty =>
        rw [List.getLast?_eq_none_iff.mp empty, List.append_nil]
        exact ⟨rfl, h.indexed⟩
      case h_2 => exact ⟨rfl, h.indexed.newEntries cmds⟩

theorem InStep.perform (h : InStep node) {call : Call δ}
    (clean : node.Clean call) : InStep (node.perform call).1 := by
  cases call with
  | handleRequestVote args faults =>
    have same := (node.handleRequestVote_effect faults args).sameLog
    exact h.of_logs same.log same.storedLog
  | handleAppendEntries args faults => exact h.handleAppendEntries clean
  | takeOver keys fault =>
    cases stood : node.stand fault node.id with
    | mk cand ok =>
      have same := RaftCluster.stand_sameLog stood
      have kept : InStep cand := h.of_logs same.log same.storedLog
      cases ok with
      | true =>
        simp only [RaftNode.perform, stood]
        exact ⟨kept.same, kept.indexed⟩
      | false =>
        simp only [RaftNode.perform, stood]
        exact kept
  | proposeBatch cmds faults =>
    have grown : InStep (node.proposeBatch faults cmds).1 := h.proposeBatch clean
    simp only [RaftNode.perform]
    split
    case h_1 updated indices proposed =>
      rw [proposed] at grown
      exact grown
    case h_2 updated failure proposed =>
      rw [proposed] at grown
      exact grown
  | checkQuorumCommit faults =>
    cases node.checkQuorumCommit_effect faults with
    | nothing same =>
      simp only [RaftNode.perform, same]
      exact h
    | committed n leads found applied => exact h.of_logs applied.log applied.storedLog

theorem InStep.mirrorsThroughout (h : InStep node)
    (clean : node.CleanThroughout calls) : node.MirrorsThroughout calls := by
  induction calls generalizing node with
  | nil => trivial
  | cons call rest ih =>
    have next := h.perform clean.1
    exact ⟨fun _ => next.mirrors _, ih next clean.2⟩

/-- In a run of clean calls the store holds the live log after every call. -/
theorem clean_runs_mirror (id : NodeId) (peers : List NodeId) (calls : List (Call δ))
    (clean : (new id peers : RaftNode σ δ).CleanThroughout calls) :
    (new id peers : RaftNode σ δ).MirrorsThroughout calls :=
  (InStep.new id peers).mirrorsThroughout clean

end

/-- A message of one entry after the sentinel. -/
def oneEntry (term leader : Nat) (cmd : RaftCommand Nat) : AppendEntriesArgs Nat :=
  ⟨term, leader, 0, 0, [⟨term, 1, cmd⟩], 0, false⟩

/-- An uncommitted entry gives way to one of a newer leader, whose first attempt
    the store refused; the replica then leads and proposes. -/
def replacedCalls : List (Call Nat) :=
  [.handleAppendEntries (oneEntry 1 2 (.data 5)) {},
    .handleAppendEntries (oneEntry 2 3 (.data 6)) { truncate := fun _ => .before },
    .handleAppendEntries (oneEntry 2 3 (.data 6)) {},
    .takeOver [1, 2, 3] .none,
    .proposeBatch [.data 7, .noOp] {}]

theorem cleanAppend_oneEntry {faults : StorageFaults} (append : ∀ k, faults.append k = .none)
    (truncate : ∀ k, faults.truncate k ≠ .after) :
    CleanAppend (oneEntry term leader cmd) faults node where
  numbered k e here := by
    obtain ⟨hin, rfl⟩ := List.getElem?_eq_some_iff.mp here
    have fst : k = 0 := by simpa [oneEntry] using hin
    subst fst
    rfl
  append k := by simp [append k]
  truncate := truncate
  replace k _ _ := append k

theorem replaced_entry_is_mirrored :
    (new 1 [1, 2, 3] : RaftNode Nat Nat).CleanThroughout replacedCalls ∧
      (new 1 [1, 2, 3] : RaftNode Nat Nat).MirrorsThroughout replacedCalls := by
  have clean : (new 1 [1, 2, 3] : RaftNode Nat Nat).CleanThroughout replacedCalls := by
    refine ⟨?_, ?_, ?_, trivial, ?_, trivial⟩
    · exact cleanAppend_oneEntry (fun _ => rfl) (fun _ => by simp)
    · exact cleanAppend_oneEntry (fun _ => rfl) (fun _ => by simp)
    · exact cleanAppend_oneEntry (fun _ => rfl) (fun _ => by simp)
    · show Fault.none ≠ Fault.after
      decide
  exact ⟨clean, clean_runs_mirror 1 [1, 2, 3] replacedCalls clean⟩

/-- The conflicting entries are cut off in the store and their replacement is then
    refused.  Memory keeps the old entries, so the next proposal is numbered past
    the end of the stored log. -/
def unreplacedCalls : List (Call Nat) :=
  [.handleAppendEntries ⟨1, 2, 0, 0, [⟨1, 1, .data 5⟩, ⟨1, 2, .data 6⟩], 0, false⟩ {},
    .handleAppendEntries (oneEntry 2 3 (.data 7)) { append := fun _ => .before },
    .takeOver [1, 2, 3] .none,
    .proposeBatch [.data 8] {}]

theorem unreplaced_conflict_leaves_gap :
    ¬ (new 1 [1, 2, 3] : RaftNode Nat Nat).MirrorsThroughout unreplacedCalls := by
  intro mirrors
  have last := mirrors.2.2.2.1 rfl
  have shifted : (3 : Nat) = 1 := last.restart 1 ⟨3, 3, .data 8⟩ (by decide)
  cases shifted

end RaftNode
end HoloSphere.Consensus
