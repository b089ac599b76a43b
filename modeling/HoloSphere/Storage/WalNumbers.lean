import HoloSphere.Storage.WalTruncation

/-! # Record numbers over many sessions

A session takes its first number from `open`, which starts at zero, or from a `replay`, which
goes on behind the highest number in the directory.  Sessions that replay before they append
never use a number twice; a session that appends at once starts again at one.
-/

namespace HoloSphere.Storage
open Consensus Program
variable {σ : Type}

/-- The directory and the session on it, if one is open, with the numbers of all records ever
    written.  `recovered` says that the session has replayed the log, or that there was nothing
    to replay. -/
structure WalHistory where
  segments : List WalSegment
  session : Option WalManager
  recovered : Bool
  written : List Nat

inductive HistoryAction (σ : Type) where
  | openDir (maxSeg : Nat)
  | replay (snapLsn : Nat)
      (applyFn : Nat → WalMutation → σ → σ × Except HNSQRError Unit) (st : σ)
  | append (call : AppendCall)
  | close

namespace WalHistory

def empty : WalHistory := ⟨[], none, false, []⟩

def openDir (walDir : String) (maxSeg : Nat) (hist : WalHistory) : WalHistory :=
  { hist with
    session := some (.openDir walDir maxSeg hist.segments)
    recovered := hist.written.isEmpty }

def replay (serde : Serde WalMutation) (snapLsn : Nat)
    (applyFn : Nat → WalMutation → σ → σ × Except HNSQRError Unit) (st : σ)
    (hist : WalHistory) (wal : WalManager) : WalHistory :=
  let ans := wal.replay serde snapLsn applyFn st
  { hist with
    session := some ans.1.1
    recovered := hist.recovered || ans.2.toBool }

/-- The number of a record is stored as soon as the record is in the file. -/
def append (serde : Serde WalMutation) (call : AppendCall) (hist : WalHistory)
    (wal : WalManager) : WalHistory :=
  let after := (wal.append serde call.mutation call.policy call.disk).1
  { hist with
    session := some after
    written :=
      if call.policy = .memory ∨ after.currentLsn = wal.currentLsn then hist.written
      else hist.written ++ [after.currentLsn] }

def act (serde : Serde WalMutation) (walDir : String) (hist : WalHistory) :
    HistoryAction σ → Option WalHistory
  | .openDir maxSeg =>
    match hist.session with
    | none => some (hist.openDir walDir maxSeg)
    | some _ => none
  | .replay snapLsn applyFn st =>
    hist.session.map (hist.replay serde snapLsn applyFn st)
  | .append call => hist.session.map (hist.append serde call)
  | .close => hist.session.map fun wal => { hist with segments := wal.segments, session := none }

/-- The session has replayed the log before it writes to it.  The file it writes to ends with a
    whole record, and the length of the payload fits the header. -/
def ReplaysFirst (serde : Serde WalMutation) (hist : WalHistory) : HistoryAction σ → Prop
  | .append call => ∀ wal, hist.session = some wal → call.policy ≠ .memory →
      hist.recovered = true ∧ (WholeRecords wal.activeBytes ∨ wal.RotationDue) ∧
        ∀ payload, serde.serialize call.mutation = .ok payload → payload.length < 2 ^ 32
  | _ => True

/-- No number is used twice. -/
def Increasing (hist : WalHistory) : Prop := hist.written.Pairwise (· < ·)

/-- The directory holds the records whose numbers were written, and a session that has recovered
    counts on behind them. -/
structure Sound (serde : Serde WalMutation) (hist : WalHistory) : Prop where
  increasing : hist.Increasing
  closed : hist.session = none → ∃ recs, Stored serde hist.segments recs ∧
      hist.written = recs.map WalRecord.lsn
  opened : ∀ wal, hist.session = some wal → (∃ recs, Stored serde wal.segments recs ∧
      hist.written = recs.map WalRecord.lsn) ∧
    (∃ front last, wal.Writing front last) ∧
    (hist.recovered = true → ∀ lsn ∈ hist.written, lsn ≤ wal.currentLsn)

variable {hist : WalHistory}

theorem sound_empty : empty.Sound serde where
  increasing := .nil
  closed _ := ⟨[], .empty, rfl⟩
  opened _ running := nomatch running

section
variable (sound : hist.Sound serde)
include sound

theorem Sound.openDir (idle : hist.session = none)
    (maxSeg : Nat) : (hist.openDir walDir maxSeg).Sound serde := by
  obtain ⟨recs, stored, written⟩ := sound.closed idle
  obtain ⟨storedOpen, writing⟩ := WalManager.openDir_stored stored walDir maxSeg
  refine ⟨sound.increasing, fun closed => (by cases closed), ?_⟩
  rintro wal ⟨⟩
  refine ⟨⟨recs, storedOpen, written⟩, writing, fun recovered lsn mem => ?_⟩
  have none : hist.written = [] := List.isEmpty_iff.mp recovered
  have here : lsn ∈ hist.written := mem
  rw [none] at here
  cases here

/-- A replay leaves the files alone, and one that succeeds takes up the count behind them. -/
theorem Sound.replay (running : hist.session = some wal)
    (snapLsn : Nat) (applyFn : Nat → WalMutation → σ → σ × Except HNSQRError Unit) (st : σ) :
    (hist.replay serde snapLsn applyFn st wal).Sound serde := by
  obtain ⟨⟨recs, stored, written⟩, ⟨front, last, writing⟩, counted⟩ := sound.opened wal running
  refine ⟨sound.increasing, fun closed => (by cases closed), ?_⟩
  rintro after ⟨⟩
  obtain ⟨summary, read⟩ := WalManager.replay_stored stored snapLsn applyFn st
  rcases ran : Program.run (Replay.deliver applyFn)
    ((recs.map WalRecord.entry).filter fun entry => snapLsn < entry.1) (st, snapLsn) with
    ⟨⟨delivered, top⟩, e | _⟩ <;> rw [ran] at read
  · simp only [WalHistory.replay, read, Except.toBool, Bool.or_false]
    exact ⟨⟨recs, stored, written⟩, ⟨front, last, writing⟩, counted⟩
  · simp only [WalHistory.replay, read]
    refine ⟨⟨recs, stored, written⟩, ⟨front, last, writing.transfer rfl rfl⟩, ?_⟩
    intro _ lsn mem
    rw [written] at mem
    obtain ⟨rec, present, rfl⟩ := List.mem_map.mp mem
    obtain ⟨above, bounded⟩ := Replay.run_deliver_highest ran
    by_cases later : snapLsn < rec.lsn
    · exact bounded rec.entry
        (List.mem_filter.mpr ⟨List.mem_map_of_mem present, decide_eq_true later⟩)
    · exact Nat.le_trans (Nat.not_lt.mp later) above

theorem Sound.append (running : hist.session = some wal)
    (roundTrip : serde.Faithful) (allowed : @ReplaysFirst σ serde hist (.append call)) :
    (hist.append serde call wal).Sound serde := by
  obtain ⟨⟨recs, stored, written⟩, ⟨front, last, writing⟩, counted⟩ := sound.opened wal running
  by_cases memory : call.policy = .memory
  · -- only the counter moves
    have after : (wal.append serde call.mutation call.policy call.disk).1 =
        { wal with currentLsn := wal.currentLsn + 1 } := by
      simp [WalManager.append, memory]
    simp only [WalHistory.append, memory, true_or, if_true]
    refine ⟨sound.increasing, fun closed => (by cases closed), ?_⟩
    rintro later ⟨⟩
    refine ⟨⟨recs, stored, written⟩, ⟨front, last, writing.transfer rfl rfl⟩, ?_⟩
    intro recovered lsn mem
    exact Nat.le_succ_of_le (counted recovered lsn mem)
  · obtain ⟨recovered, whole, short⟩ := allowed wal running memory
    have below := counted recovered
    unfold WalHistory.append
    rcases (WalManager.append_appended serde call.mutation memory call.disk wal).stored stored
      writing whole fun payload ser => ⟨short payload ser, roundTrip _ _ ser⟩ with
      ⟨-, same, holds, writes⟩ | ⟨payload, -, count, holds⟩
    · simp only [same, or_true, if_true]
      refine ⟨sound.increasing, fun closed => (by cases closed), ?_⟩
      rintro after ⟨⟩
      exact ⟨⟨recs, holds, written⟩, writes, fun _ => by rw [same]; exact below⟩
    · have grown : ¬ (call.policy = .memory ∨ wal.currentLsn + 1 = wal.currentLsn) := by
        simp [memory]
      simp only [count, if_neg grown]
      refine ⟨?_, fun closed => (by cases closed), ?_⟩
      · refine List.pairwise_append.mpr ⟨sound.increasing, List.pairwise_singleton _ _, ?_⟩
        intro lsn mem new fresh
        cases List.mem_singleton.mp fresh
        exact Nat.lt_succ_of_le (below lsn mem)
      · rintro after ⟨⟩
        obtain ⟨stored, front, last, writing, -⟩ := holds
        refine ⟨⟨_, stored, by simp [written, WalRecord.lsn]⟩, ⟨front, last, writing⟩, ?_⟩
        intro _ number mem
        rw [count]
        rcases List.mem_append.mp mem with earlier | fresh
        · exact Nat.le_succ_of_le (below number earlier)
        · exact Nat.le_of_eq (List.mem_singleton.mp fresh)

theorem Sound.act (roundTrip : serde.Faithful) (allowed : hist.ReplaysFirst serde action)
    (done : hist.act serde walDir action = some next) : next.Sound serde := by
  cases action with
  | openDir maxSeg =>
    cases idle : hist.session with
    | some => simp [WalHistory.act, idle] at done
    | none =>
      simp only [WalHistory.act, idle, Option.some.injEq] at done
      rw [← done]
      exact sound.openDir idle maxSeg
  | replay snapLsn applyFn st =>
    obtain ⟨wal, running, rfl⟩ := Option.map_eq_some_iff.mp done
    exact sound.replay running snapLsn applyFn st
  | append call =>
    obtain ⟨wal, running, rfl⟩ := Option.map_eq_some_iff.mp done
    exact sound.append running roundTrip allowed
  | close =>
    obtain ⟨wal, running, rfl⟩ := Option.map_eq_some_iff.mp done
    exact ⟨sound.increasing, fun _ => (sound.opened wal running).1, fun _ => nofun⟩

end

/-- In every history whose sessions replay the log before they write to it, the numbers of the
    records increase in the order of writing. -/
theorem numbers_increase (serde : Serde WalMutation)
    (roundTrip : ∀ op payload, serde.serialize op = .ok payload →
      serde.deserialize payload = .ok op)
    (walDir : String) (actions : List (HistoryAction σ))
    (replaysFirst : Throughout (act serde walDir) (ReplaysFirst serde) empty actions) :
    Always (act serde walDir) Increasing empty actions := by
  intro count st ran
  have sound : Always (act serde walDir) (Sound serde) empty actions :=
    replaysFirst.always sound_empty fun hist action next sound allowed done =>
      sound.act roundTrip allowed done
  exact (sound count st ran).increasing

open WalMachine (deletionSerde deletionSerde_roundTrip)

/-- A session that writes one record, with or without reading the log first. -/
def shortSession (replays : Bool) : List (HistoryAction Unit) :=
  [.openDir 0] ++ (if replays then [.replay 0 (fun _ _ st => (st, .ok ())) ()] else []) ++
    [.append ⟨.delete "a", .walSync, .done⟩, .close]

def writtenBy (actions : List (HistoryAction Unit)) : Option (List Nat) :=
  (actions.foldlM (act deletionSerde "wal") empty).map written

theorem replaying_sessions_count_on :
    Always (act deletionSerde "wal") Increasing empty (shortSession true) ∧
      writtenBy (shortSession true ++ shortSession true) = some [1, 2] := by
  constructor
  · refine numbers_increase deletionSerde deletionSerde_roundTrip "wal" (shortSession true)
      (.cons rfl trivial (.cons rfl trivial (.cons rfl ?_ (.cons rfl trivial trivial))))
    intro wal running _
    cases running
    refine ⟨rfl, .inl wholeRecords_nil, fun payload ser => ?_⟩
    cases ser
    decide
  · decide +kernel

/-- A second session that does not replay the log starts again at one. -/
theorem second_session_repeats_numbers :
    ∃ hist, (shortSession false ++ shortSession false).foldlM (act deletionSerde "wal") empty =
        some hist ∧ hist.written = [1, 1] ∧ ¬ hist.Increasing := by
  have numbers : writtenBy (shortSession false ++ shortSession false) = some [1, 1] := by
    decide +kernel
  obtain ⟨hist, ran, written⟩ := Option.map_eq_some_iff.mp numbers
  refine ⟨hist, ran, written, ?_⟩
  rw [Increasing, written]
  decide

end WalHistory
end HoloSphere.Storage
