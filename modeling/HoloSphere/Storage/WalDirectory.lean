import HoloSphere.Storage.WalRecords

/-! # The directory of the log

Which records the files of a log hold, what opening the directory and replaying it finds
there, and what an append does to the file that is being written.
-/

namespace HoloSphere.Storage
open Format Consensus Program
open List hiding after rec
variable {σ : Type} {serde : Serde WalMutation}

/-- The bytes are these records and perhaps less than one more. -/
def FileHolds (serde : Serde WalMutation) (bytes : Bytes) (recs : List WalRecord) : Prop :=
  ∃ tail, Torn tail ∧ bytes = recs.flatMap WalRecord.frame ++ tail ∧
    ∀ rec ∈ recs, rec.Fits ∧ rec.Reads serde

/-- The files in the order of their ids, and the records in them. -/
inductive Stored (serde : Serde WalMutation) : List WalSegment → List WalRecord → Prop
  | empty : Stored serde [] []
  | snoc {front : List WalSegment} {last : WalSegment} {old more : List WalRecord}
      (pre : Stored serde front old) (holds : FileHolds serde last.bytes more)
      (below : ∀ seg ∈ front, seg.id < last.id) (pos : 0 < last.id) :
      Stored serde (front ++ [last]) (old ++ more)

theorem fileHolds_nil : FileHolds serde [] [] :=
  ⟨[], .inl rfl, rfl, fun _ mem => absurd mem not_mem_nil⟩

theorem wholeRecords_nil : WholeRecords [] := ⟨[], fun _ mem => absurd mem not_mem_nil, rfl⟩

theorem WholeRecords.write_frame {rec : WalRecord} (whole : WholeRecords bytes)
    (fits : rec.Fits) : WholeRecords (bytes ++ rec.frame) := by
  obtain ⟨recs, allFit, rfl⟩ := whole
  refine ⟨recs ++ [rec], ?_, by simp⟩
  intro other mem
  rcases mem_append.mp mem with earlier | new
  · exact allFit other earlier
  · cases mem_singleton.mp new
    exact fits

namespace FileHolds

section
variable (holds : FileHolds serde bytes recs)
include holds

theorem eq_of_whole (whole : WholeRecords bytes) : bytes = recs.flatMap WalRecord.frame := by
  obtain ⟨tail, torn, rfl, sound⟩ := holds
  rw [tail_eq_nil_of_whole (fun rec mem => (sound rec mem).1) torn whole, append_nil]

theorem write_torn (whole : WholeRecords bytes)
    (torn : Torn piece) : FileHolds serde (bytes ++ piece) recs := by
  refine ⟨piece, torn, by rw [holds.eq_of_whole whole], ?_⟩
  obtain ⟨-, -, -, sound⟩ := holds
  exact sound

theorem write_frame (whole : WholeRecords bytes) (fits : rec.Fits) (reads : rec.Reads serde) :
    FileHolds serde (bytes ++ rec.frame) (recs ++ [rec]) := by
  refine ⟨[], .inl rfl, by simp [holds.eq_of_whole whole], ?_⟩
  obtain ⟨-, -, -, sound⟩ := holds
  intro other mem
  rcases mem_append.mp mem with earlier | new
  · exact sound other earlier
  · cases mem_singleton.mp new
    exact ⟨fits, reads⟩

theorem length_le : recs.length ≤ bytes.length := by
  obtain ⟨tail, -, rfl, -⟩ := holds
  rw [length_append]
  exact Nat.le_trans (length_le_frames recs) (Nat.le_add_right _ _)

end
end FileHolds

namespace Stored

section
variable (stored : Stored serde (front ++ [last]) recs)
include stored

theorem snoc_inv : ∃ old more, recs = old ++ more ∧ Stored serde front old ∧
      FileHolds serde last.bytes more ∧ (∀ seg ∈ front, seg.id < last.id) ∧
      0 < last.id := by
  generalize files : front ++ [last] = all at stored
  cases stored with
  | empty => simp at files
  | snoc pre holds below pos =>
    obtain ⟨rfl, same⟩ := append_inj' files rfl
    cases same
    exact ⟨_, _, rfl, pre, holds, below, pos⟩

theorem write_torn (whole : WholeRecords last.bytes) (torn : Torn piece) :
    Stored serde (front ++ [{ last with bytes := last.bytes ++ piece }]) recs := by
  obtain ⟨old, more, rfl, pre, holds, below, pos⟩ := stored.snoc_inv
  exact .snoc pre (holds.write_torn whole torn) below pos

theorem write_frame {rec : WalRecord}
    (whole : WholeRecords last.bytes) (fits : rec.Fits) (reads : rec.Reads serde) :
    Stored serde (front ++ [{ last with bytes := last.bytes ++ rec.frame }])
      (recs ++ [rec]) := by
  obtain ⟨old, more, rfl, pre, holds, below, pos⟩ := stored.snoc_inv
  rw [append_assoc]
  exact .snoc pre (holds.write_frame whole fits reads) below pos

end
end Stored

namespace WalSegment

/-- The frames of the file up to the first that is not whole or has a wrong checksum. -/
def frames (seg : WalSegment) : List (Nat × Bytes) := (wholeFrames seg.bytes.length seg.bytes).1

def behind (seg : WalSegment) : Bytes := (wholeFrames seg.bytes.length seg.bytes).2

end WalSegment

theorem FileHolds.frames {seg : WalSegment} (holds : FileHolds serde seg.bytes recs) :
    seg.frames = recs.map (fun rec => (rec.lsn, rec.payload)) ∧ ¬ Corrupt seg.behind := by
  have enough := holds.length_le
  obtain ⟨tail, torn, bytes, sound⟩ := holds
  have read := wholeFrames_records (fun rec mem => (sound rec mem).1) torn enough
  rw [← bytes] at read
  unfold WalSegment.frames WalSegment.behind
  rw [read]
  exact ⟨rfl, torn.nextFrame.2⟩

theorem Stored.frames (stored : Stored serde segs recs) : segs.flatMap WalSegment.frames =
        recs.map (fun rec => (rec.lsn, rec.payload)) ∧
      (∀ seg ∈ segs, ¬ Corrupt seg.behind) ∧
      ∀ rec ∈ recs, rec.Reads serde := by
  induction stored with
  | empty => simp
  | @snoc front last old more pre holds below pos ih =>
    obtain ⟨frames, sound, reads⟩ := ih
    obtain ⟨lastFrames, lastSound⟩ := holds.frames
    obtain ⟨-, -, -, lastReads⟩ := holds
    refine ⟨by simp [frames, lastFrames], ?_, ?_⟩
    · intro seg mem
      rcases mem_append.mp mem with earlier | newest
      · exact sound seg earlier
      · cases mem_singleton.mp newest
        exact lastSound
    · intro rec mem
      rcases mem_append.mp mem with earlier | new
      · exact reads rec earlier
      · exact (lastReads rec new).2

namespace Replay
variable {applyFn : Nat → WalMutation → σ → σ × Except HNSQRError Unit}
variable (serde applyFn snapLsn) in
/-- A directory is read file by file; what is torn at the end of a file is passed over, and
    corrupt bytes fail the reading. -/
theorem readSegments_bytes (walDir : String) (segs : List WalSegment) (replay : Replay σ) :
    ∃ after outc, readSegments serde snapLsn applyFn walDir segs replay = (after, outc) ∧
      ((∀ seg ∈ segs, ¬ Corrupt seg.behind) → Program.run (deliverFrame serde applyFn)
          ((segs.flatMap WalSegment.frames).filter fun frame => snapLsn < frame.1)
          replay.view = (after.view, outc)) ∧
      ((∃ seg ∈ segs, Corrupt seg.behind) → ∃ e, outc = .error e) := by
  induction segs generalizing replay with
  | nil => exact ⟨replay, .ok (), rfl, fun _ => rfl, by simp⟩
  | cons seg rest ih =>
    obtain ⟨middle, outc, read, ran, stops⟩ := readSegment_bytes serde applyFn
      snapLsn (segmentPath walDir seg.id)
      (Nat.le_refl seg.bytes.length) 0 replay
    simp only [mem_cons, forall_eq_or_imp, exists_eq_or_imp, flatMap_cons, filter_append]
    cases outc with
    | error e =>
      refine ⟨middle, .error e, by simp [readSegments, read], ?_, fun _ => ⟨e, rfl⟩⟩
      rintro ⟨sound, -⟩
      unfold WalSegment.frames
      rw [run_append, ran sound]
      rfl
    | ok off =>
      have same : (if off < seg.bytes.length then middle.torn else middle).view = middle.view := by
        split
        · exact view_torn middle
        · rfl
      obtain ⟨after, outc, later, ranLater, stopsLater⟩ :=
        ih (if off < seg.bytes.length then middle.torn else middle)
      refine ⟨after, outc, by simp [readSegments, read, later], ?_, ?_⟩
      · rintro ⟨sound, others⟩
        unfold WalSegment.frames
        rw [run_append, ran sound, ← same]
        exact ranLater others
      · rintro (corrupt | others)
        · obtain ⟨e, impossible⟩ := stops corrupt
          cases impossible
        · exact stopsLater others

variable (serde applyFn) in
theorem readSegments_stored (stored : Stored serde segs recs) (snapLsn : Nat)
    (walDir : String) (replay : Replay σ) :
    ∃ after outc, readSegments serde snapLsn applyFn walDir segs replay = (after, outc) ∧
      Program.run (deliver applyFn)
        ((recs.map WalRecord.entry).filter fun entry => snapLsn < entry.1) replay.view =
          (after.view, outc) := by
  obtain ⟨frames, sound, reads⟩ := stored.frames
  obtain ⟨after, outc, read, ran, -⟩ := readSegments_bytes serde applyFn snapLsn walDir segs replay
  refine ⟨after, outc, read, ?_⟩
  rw [← ran sound, frames, run_deliverFrame reads]
  rfl

end Replay

namespace WalManager

/-- A replay delivers the records above the snapshot one after the other. -/
theorem replay_stored {wal : WalManager} (stored : Stored serde wal.segments recs)
    (snapLsn : Nat) (applyFn : Nat → WalMutation → σ → σ × Except HNSQRError Unit) (st : σ) :
    ∃ summary, wal.replay serde snapLsn applyFn st = match Program.run (Replay.deliver applyFn)
        ((recs.map WalRecord.entry).filter fun entry => snapLsn < entry.1) (st, snapLsn) with
      | ((after, _), .error e) => ((wal, after), .error e)
      | ((after, top), .ok ()) =>
        (({ wal with currentLsn := top, lastSyncedLsn := top }, after), .ok summary) := by
  obtain ⟨after, outc, read, ran⟩ := Replay.readSegments_stored serde applyFn stored snapLsn
    wal.walDir { state := st
                 summary := ⟨snapLsn, snapLsn, 0, 0, wal.segments.length⟩
                 highestLsn := snapLsn }
  refine ⟨after.summary, ?_⟩
  rw [Replay.view] at ran
  simp only [replay, read, ran]
  cases outc with
  | error | ok => rfl

theorem filter_lsn_pos (recs : List WalRecord) :
    ((recs.map WalRecord.entry).filter fun entry => 0 < entry.1) = recs.map WalRecord.entry := by
  simp [WalRecord.entry, WalRecord.lsn]

/-- `last` is the file the manager writes, the newest of the directory. -/
structure Writing (wal : WalManager) (front : List WalSegment) (last : WalSegment) : Prop where
  segments : wal.segments = front ++ [last]
  active : last.id = wal.segmentId
  below : ∀ seg ∈ front, seg.id < last.id
  positive : 0 < last.id

def activeBytes (wal : WalManager) : Bytes :=
  ((wal.segments.find? fun seg => seg.id = wal.segmentId).map WalSegment.bytes).getD []

/-- What a crash leaves of the directory when it cuts the file being written. -/
def cutActive (kept : Nat) (wal : WalManager) : List WalSegment :=
  wal.segments.map fun seg =>
    if seg.id = wal.segmentId then { seg with bytes := seg.bytes.take kept }
    else seg

variable {wal : WalManager}

namespace Writing

section
variable (writing : wal.Writing front last)
include writing

theorem transfer {other : WalManager}
    (files : other.segments = wal.segments) (same : other.segmentId = wal.segmentId) :
    other.Writing front last :=
  ⟨files.trans writing.segments, writing.active.trans same.symm, writing.below, writing.positive⟩

theorem find : (wal.segments.find? fun seg => seg.id = wal.segmentId) = some last := by
  rw [writing.segments, find?_append, ← writing.active]
  have others : (front.find? fun seg => seg.id = last.id) = none := by
    rw [find?_eq_none]
    intro seg mem
    simpa using Nat.ne_of_lt (writing.below seg mem)
  rw [others]
  simp

theorem activeBytes_eq : wal.activeBytes = last.bytes := by
  rw [activeBytes, writing.find]
  rfl

/-- Only the newest file is touched. -/
theorem map_active (change : WalSegment → WalSegment) : (wal.segments.map fun seg =>
      if seg.id = wal.segmentId then change seg else seg) = front ++ [change last] := by
  have untouched : (front.map fun seg =>
      if seg.id = wal.segmentId then change seg else seg) = front.map id := by
    apply map_congr_left
    intro seg mem
    rw [if_neg, id]
    rw [← writing.active]
    exact Nat.ne_of_lt (writing.below seg mem)
  rw [writing.segments, map_append, map_singleton, if_pos writing.active, untouched, map_id]

theorem cutActive_eq (kept : Nat) :
    wal.cutActive kept = front ++ [{ last with bytes := last.bytes.take kept }] :=
  writing.map_active fun seg => { seg with bytes := seg.bytes.take kept }

theorem writeAll (bytes : Bytes) :
    (wal.writeAll bytes).Writing front { last with bytes := last.bytes ++ bytes } where
  __ := writing
  segments := writing.map_active fun seg => { seg with bytes := seg.bytes ++ bytes }

theorem nextSegment : wal.nextSegment.Writing (front ++ [last]) ⟨wal.segmentId + 1, []⟩ := by
  have older : ∀ seg ∈ front ++ [last], seg.id < wal.segmentId + 1 := by
    intro seg mem
    rcases mem_append.mp mem with earlier | newest
    · have less := writing.below seg earlier
      rw [writing.active] at less
      omega
    · cases mem_singleton.mp newest
      rw [writing.active]
      exact Nat.lt_succ_self _
  refine ⟨?_, rfl, older, Nat.succ_pos _⟩
  rw [WalManager.nextSegment, ensureSegment, if_neg, writing.segments]
  rw [writing.segments, any_eq_true]
  rintro ⟨seg, mem, same⟩
  exact Nat.ne_of_lt (older seg mem) (of_decide_eq_true same)

end
end Writing

theorem highestId_le {segs : List WalSegment} {bound top : Nat} (start : top ≤ bound)
    (all : ∀ seg ∈ segs, seg.id ≤ bound) :
    segs.foldl (fun top seg => max top seg.id) top ≤ bound := by
  induction segs generalizing top with
  | nil => exact start
  | cons fst rest ih =>
    apply ih
    · exact max_le start (all fst mem_cons_self)
    · exact (forall_mem_cons.mp all).2

/-- Opening a directory goes on with its newest file. -/
theorem openDir_stored {segs : List WalSegment} {recs : List WalRecord}
    (stored : Stored serde segs recs) (walDir : String) (maxSeg : Nat) :
    Stored serde (openDir walDir maxSeg segs).segments recs ∧
      ∃ front last, (openDir walDir maxSeg segs).Writing front last := by
  cases stored with
  | empty =>
    refine ⟨?_, [], ⟨1, []⟩, rfl, rfl, fun _ mem => absurd mem not_mem_nil, Nat.one_pos⟩
    exact @Stored.snoc serde [] ⟨1, []⟩ [] [] .empty fileHolds_nil
      (fun _ mem => absurd mem not_mem_nil) Nat.one_pos
  | @snoc front last old more pre holds below pos =>
    have top : max ((front ++ [last]).foldl (fun top seg => max top seg.id) 0)
        1 = last.id := by
      have others : front.foldl (fun top seg => max top seg.id) 0 ≤ last.id :=
        highestId_le (Nat.zero_le _) fun seg mem => Nat.le_of_lt (below seg mem)
      rw [foldl_append, foldl_cons, foldl_nil]
      omega
    have present : ensureSegment last.id (front ++ [last]) = front ++ [last] := by
      rw [ensureSegment, if_pos]
      simp
    have files : (openDir walDir maxSeg (front ++ [last])).segments = front ++ [last] := by
      simp only [openDir, top, present]
    refine ⟨?_, front, last, files, ?_, below, pos⟩
    · rw [files]
      exact .snoc pre holds below pos
    · simp only [openDir, top]

/-- The manager after the rotation, if one is due. -/
def writable (wal : WalManager) : WalManager := if wal.RotationDue then wal.nextSegment else wal

@[simp] theorem writable_currentLsn (wal : WalManager) :
    wal.writable.currentLsn = wal.currentLsn := by
  unfold writable
  split <;> rfl

def logged (rec : WalRecord) (wal : WalManager) : WalManager :=
  { wal.writeAll rec.frame with
    bytesWritten := wal.bytesWritten + (walHeaderSize + rec.payload.length)
    currentLsn := rec.lsn }

/-- The file that an append writes to ends with a whole record if the rotation makes it new. -/
theorem Writing.target (writing : wal.Writing front last) (stored : Stored serde wal.segments recs)
    (whole : WholeRecords wal.activeBytes ∨ wal.RotationDue) :
    ∃ front last, wal.writable.Writing front last ∧ WholeRecords last.bytes ∧
      Stored serde (front ++ [last]) recs := by
  unfold WalManager.writable
  by_cases due : wal.RotationDue
  · rw [if_pos due]
    refine ⟨_, _, writing.nextSegment, wholeRecords_nil, ?_⟩
    rw [writing.segments] at stored
    rw [← append_nil recs]
    exact .snoc stored fileHolds_nil writing.nextSegment.below (Nat.succ_pos _)
  · rw [if_neg due]
    refine ⟨front, last, writing, ?_, writing.segments ▸ stored⟩
    rw [← writing.activeBytes_eq]
    exact whole.resolve_right due

/-- The record that an append is about to write. -/
abbrev nextRecord (op : WalMutation) (payload : Bytes) (wal : WalManager) : WalRecord :=
  ⟨wal.currentLsn, op, payload⟩

/-- Nothing torn stands in the file being written. -/
structure LogHolds (serde : Serde WalMutation) (wal : WalManager) (recs : List WalRecord) :
    Prop where
  stored : Stored serde wal.segments recs
  writing : ∃ front last, wal.Writing front last ∧ WholeRecords last.bytes

/-- What the part of `append` that holds the writer can do. -/
inductive Written (op : WalMutation) (payload : Bytes) (disk : DiskOutcome) (wal : WalManager) :
    WalManager → Except HNSQRError Nat → Prop
  | refused (e : HNSQRError) (fault : disk ≠ .done) : Written op payload disk wal wal (.error e)
  | exhausted (e : HNSQRError) (full : 2 ^ 64 ≤ wal.currentLsn + 1) :
      Written op payload disk wal wal.writable (.error e)
  | torn {piece : Bytes} (e : HNSQRError) (fault : disk ≠ .done)
      (numbered : wal.currentLsn + 1 < 2 ^ 64)
      (begins : piece <+: (wal.nextRecord op payload).frame)
      (shorter : piece.length < (wal.nextRecord op payload).frame.length) :
      Written op payload disk wal (wal.writable.writeAll piece) (.error e)
  | logged (numbered : wal.currentLsn + 1 < 2 ^ 64) :
      Written op payload disk wal (wal.writable.logged (wal.nextRecord op payload))
        (.ok (wal.currentLsn + 1))

theorem Written.ok_inv (written : Written op payload disk wal after (.ok lsn)) :
    wal.currentLsn + 1 < 2 ^ 64 ∧ after = wal.writable.logged (wal.nextRecord op payload) ∧
      lsn = wal.currentLsn + 1 := by
  cases written with
  | logged numbered => exact ⟨numbered, rfl, rfl⟩

@[simp] theorem writable_lastSyncedLsn : wal.writable.lastSyncedLsn = wal.lastSyncedLsn := by
  unfold writable
  split <;> rfl

theorem writable_segmentId : wal.writable.segmentId = wal.segmentId ∨ wal.RotationDue := by
  by_cases due : wal.RotationDue
  · exact .inr due
  · exact .inl (by rw [writable, if_neg due])

/-- What becomes of the manager's numbers; the record's own is in `Written.ok_inv`. -/
theorem Written.numbers (written : Written op payload disk wal after res) :
    after.lastSyncedLsn = wal.lastSyncedLsn ∧ (after.segmentId = wal.segmentId ∨ wal.RotationDue) ∧
      (∀ e, res = .error e → after.currentLsn = wal.currentLsn) := by
  cases written with
  | refused => exact ⟨rfl, .inl rfl, fun _ _ => rfl⟩
  | exhausted | torn =>
    exact ⟨writable_lastSyncedLsn, writable_segmentId, fun _ _ => writable_currentLsn wal⟩
  | logged =>
    exact ⟨writable_lastSyncedLsn, writable_segmentId, fun _ failed => nomatch failed⟩

/-- What a call of `append` can do that is not meant to stay in memory. -/
inductive Appended (serde : Serde WalMutation) (op : WalMutation) (disk : DiskOutcome)
    (wal : WalManager) : WalManager → Except HNSQRError Nat → Prop
  | refused (e : HNSQRError) (unwritable : ∀ payload, serde.serialize op ≠ .ok payload) :
      Appended serde op disk wal wal (.error e)
  | failed {payload : Bytes} {after : WalManager} {e : HNSQRError}
      (ser : serde.serialize op = .ok payload)
      (written : Written op payload disk wal after (.error e)) :
      Appended serde op disk wal after (.error e)
  | logged {payload : Bytes} {ans : Except HNSQRError Nat} (synced : Nat)
      (ser : serde.serialize op = .ok payload) (numbered : wal.currentLsn + 1 < 2 ^ 64)
      (answer : ans = .ok (wal.currentLsn + 1) ∨ disk ≠ .done ∧ ∃ e, ans = .error e) :
      Appended serde op disk wal
        { wal.writable.logged (wal.nextRecord op payload) with lastSyncedLsn := synced } ans

theorem rotate_cases : (disk ≠ .done ∧ ∃ e, wal.rotate disk = .error e) ∨
    wal.rotate disk = .ok wal.writable := by
  unfold rotate writable
  by_cases due : wal.RotationDue
  · rw [if_pos due, if_pos due]
    cases disk with
    | openFails reason => exact .inl ⟨nofun, _, rfl⟩
    | done | writeFails | syncFails => exact .inr rfl
  · rw [if_neg due, if_neg due]
    exact .inr rfl

theorem syncTargetLsn_cases (tgtLsn : Nat) (disk : DiskOutcome) (wal : WalManager) :
    ∃ synced outc, wal.syncTargetLsn tgtLsn disk = ({ wal with lastSyncedLsn := synced }, outc) ∧
      (outc = .ok () ∨ disk ≠ .done ∧ ∃ e, outc = .error e) := by
  unfold syncTargetLsn
  by_cases already : tgtLsn ≤ wal.lastSyncedLsn
  · rw [if_pos already]
    exact ⟨wal.lastSyncedLsn, _, rfl, .inl rfl⟩
  · rw [if_neg already]
    cases disk with
    | syncFails reason => exact ⟨wal.lastSyncedLsn, _, rfl, .inr ⟨nofun, _, rfl⟩⟩
    | done | openFails | writeFails => exact ⟨wal.currentLsn, _, rfl, .inl rfl⟩

theorem dropLast_take_begins (bytes : Bytes) (some : 0 < bytes.length) (kept : Nat) :
    bytes.dropLast.take kept <+: bytes ∧ (bytes.dropLast.take kept).length < bytes.length := by
  refine ⟨(List.take_prefix _ _).trans (List.dropLast_prefix _), ?_⟩
  rw [length_take, length_dropLast]
  omega

theorem writeRecord_written (op : WalMutation) (payload : Bytes) (disk : DiskOutcome)
    (wal : WalManager) :
    Written op payload disk wal (wal.writeRecord op payload disk).1
      (wal.writeRecord op payload disk).2 := by
  unfold writeRecord
  rcases rotate_cases with ⟨fault, e, failed⟩ | opened
  · rw [failed]
    exact .refused e fault
  rw [opened]
  simp only [writable_currentLsn]
  by_cases overflow : 2 ^ 64 ≤ wal.currentLsn + 1
  · rw [if_pos overflow]
    exact .exhausted _ overflow
  rw [if_neg overflow]
  have numbered := Nat.lt_of_not_le overflow
  cases disk with
  | writeFails reason kept =>
    have begins := dropLast_take_begins (wal.nextRecord op payload).frame
      (by rw [WalRecord.length_frame, walHeaderSize]; omega) kept
    exact .torn _ (by simp) numbered begins.1 begins.2
  | done | openFails | syncFails => exact .logged numbered

theorem append_appended (serde : Serde WalMutation) (op : WalMutation)
    (kept : policy ≠ .memory) (disk : DiskOutcome) (wal : WalManager) :
    Appended serde op disk wal (wal.append serde op policy disk).1
      (wal.append serde op policy disk).2 := by
  rw [append, if_neg kept]
  cases ser : serde.serialize op with
  | error e => exact .refused _ (by simp [ser])
  | ok payload =>
    have written := writeRecord_written op payload disk wal
    dsimp only
    generalize wal.writeRecord op payload disk = ans at written ⊢
    obtain ⟨after, outc⟩ := ans
    cases outc with
    | error e => exact .failed ser written
    | ok tgtLsn =>
      obtain ⟨numbered, rfl, rfl⟩ := written.ok_inv
      obtain ⟨synced, outc, done, answer⟩ := syncTargetLsn_cases (wal.currentLsn + 1) disk
        (wal.writable.logged (wal.nextRecord op payload))
      simp only [done]
      rcases answer with rfl | ⟨fault, e, rfl⟩
      · exact .logged synced ser numbered (.inl rfl)
      · exact .logged synced ser numbered (.inr ⟨fault, e, rfl⟩)

theorem Appended.done (appended : Appended serde op .done wal after ans)
    (ser : serde.serialize op = .ok payload) (numbered : wal.currentLsn + 1 < 2 ^ 64) :
    ans = .ok (wal.currentLsn + 1) := by
  cases appended with
  | refused _ unwritable => exact absurd ser (unwritable payload)
  | failed _ written =>
    cases written with
    | exhausted _ full => omega
    | refused _ fault | torn _ fault => exact absurd rfl fault
  | logged _ _ _ answer => exact answer.resolve_right fun failed => failed.1 rfl

/-- What an append adds to the records of the directory: nothing, or the record that takes the
    next number. -/
theorem Appended.stored (appended : Appended serde op disk wal after ans)
    (stored : Stored serde wal.segments recs) (writing : wal.Writing front last)
    (whole : WholeRecords wal.activeBytes ∨ wal.RotationDue)
    (carried : ∀ payload, serde.serialize op = .ok payload →
      payload.length < 2 ^ 32 ∧ serde.deserialize payload = .ok op) :
    ((∃ e, ans = .error e) ∧ after.currentLsn = wal.currentLsn ∧
        Stored serde after.segments recs ∧ ∃ front last, after.Writing front last) ∨
      ∃ payload, (∀ lsn, ans = .ok lsn → lsn = wal.currentLsn + 1) ∧
        after.currentLsn = wal.currentLsn + 1 ∧
        after.LogHolds serde (recs ++ [wal.nextRecord op payload]) := by
  obtain ⟨newFront, tgt, opened, wholeTarget, kept⟩ := writing.target stored whole
  cases appended with
  | refused e => exact .inl ⟨⟨e, rfl⟩, rfl, stored, _, _, writing⟩
  | @failed payload _ e ser written =>
    refine .inl ⟨⟨e, rfl⟩, ?_⟩
    cases written with
    | refused => exact ⟨rfl, stored, _, _, writing⟩
    | exhausted => exact ⟨writable_currentLsn wal, opened.segments ▸ kept, _, _, opened⟩
    | @torn piece _ _ numbered begins shorter =>
      have torn : Torn piece := .inr ⟨wal.nextRecord op payload,
        ⟨numbered, (carried payload ser).1⟩, begins, shorter⟩
      have written := opened.writeAll piece
      refine ⟨writable_currentLsn wal, ?_, _, _, written⟩
      rw [written.segments]
      exact kept.write_torn wholeTarget torn
  | @logged payload _ synced ser numbered answer =>
    obtain ⟨short, reads⟩ := carried payload ser
    have fits : (wal.nextRecord op payload).Fits := ⟨numbered, short⟩
    have written := opened.writeAll (wal.nextRecord op payload).frame
    refine .inr ⟨payload, ?_, rfl, ?_, _, _, written.transfer rfl rfl, wholeTarget.write_frame fits⟩
    · rintro lsn rfl
      simpa using answer
    · show Stored serde (wal.writable.writeAll _).segments _
      rw [written.segments]
      exact kept.write_frame wholeTarget fits reads

/-- An append that the disk lets through. -/
theorem LogHolds.append_done (holds : wal.LogHolds serde recs)
    (roundTrips : serde.RoundTrips op) (kept : policy ≠ .memory)
    (numbered : wal.currentLsn + 1 < 2 ^ 64) :
    ∃ after rec, wal.append serde op policy .done = (after, .ok (wal.currentLsn + 1)) ∧
      rec.mutation = op ∧ rec.lsn = wal.currentLsn + 1 ∧
      after.currentLsn = wal.currentLsn + 1 ∧ after.LogHolds serde (recs ++ [rec]) := by
  obtain ⟨payload, ser, short, reads⟩ := roundTrips
  obtain ⟨stored, front, last, writing, whole⟩ := holds
  rw [← writing.activeBytes_eq] at whole
  have appended := append_appended serde op kept .done wal
  have answer := appended.done ser numbered
  have carried : ∀ other, serde.serialize op = .ok other →
      other.length < 2 ^ 32 ∧ serde.deserialize other = .ok op := by
    intro other same
    cases ser.symm.trans same
    exact ⟨short, reads⟩
  rcases appended.stored stored writing (.inl whole) carried with
    ⟨⟨e, failed⟩, -⟩ | ⟨payload, -, count, holds⟩
  · cases failed.symm.trans answer
  · exact ⟨_, _, Prod.ext rfl answer, rfl, rfl, count, holds⟩

end WalManager
end HoloSphere.Storage
