import HoloSphere.Storage.WalRecovery

/-! # Truncating the log

`truncate_before` deletes the files in front of the active one in which every header it can
read carries a number up to a bound.  A replay from a snapshot at or above the bound passes
over all records of such a file, so it delivers the same with and without it, also after
more records have been appended to the files that are left.
-/

namespace HoloSphere.Storage
open Format Consensus Program List
variable {σ : Type} {serde : Serde WalMutation}

/-- What the disk does when a file is examined. -/
inductive ExamineOutcome where
  | done
  | openFails
  | metadataFails (reason : String)
  | removeFails
  deriving DecidableEq

/-- The scan of the headers of a file for their highest number; the payloads are skipped. -/
def maxSegmentLsn : Nat → Nat → Bytes → Nat
  | 0, top, _ => top
  | fuel + 1, top, rest =>
    if rest.length < walHeaderSize then top
    else
      match WalFrameHeader.decode (rest.take walHeaderSize) with
      | .error _ => top
      | .ok hdr =>
        maxSegmentLsn fuel (max top hdr.lsn)
          (rest.drop (walHeaderSize + hdr.payloadLen))

namespace WalSegment

def maxLsn (segment : WalSegment) : Nat := maxSegmentLsn segment.bytes.length 0 segment.bytes

/-- The loop over the files. -/
def truncate (activeSegId safeLsn : Nat) (disk : Nat → ExamineOutcome) :
    List WalSegment → Nat → List WalSegment × Except HNSQRError Nat
  | [], deletedCount => ([], .ok deletedCount)
  | segment :: rest, deletedCount =>
    let keep := fun deletedCount =>
      let (kept, outc) := truncate activeSegId safeLsn disk rest deletedCount
      (segment :: kept, outc)
    if activeSegId ≤ segment.id then keep deletedCount
    else
      match disk segment.id with
      | .openFails => keep deletedCount
      | .metadataFails reason => (segment :: rest, .error (.ioError reason))
      | .removeFails =>
        if 0 < segment.maxLsn ∧ segment.maxLsn ≤ safeLsn then keep (deletedCount + 1)
        else keep deletedCount
      | .done =>
        if 0 < segment.maxLsn ∧ segment.maxLsn ≤ safeLsn then
          truncate activeSegId safeLsn disk rest (deletedCount + 1)
        else keep deletedCount

end WalSegment

namespace WalManager

def truncateBefore (safeLsn : Nat) (disk : Nat → ExamineOutcome) (wal : WalManager) :
    WalManager × Except HNSQRError Nat :=
  let (segs, outc) := WalSegment.truncate wal.segmentId safeLsn disk wal.segments 0
  ({ wal with segments := segs }, outc)

end WalManager

/-- An append with its policy and what the disk does to it. -/
structure AppendCall where
  mutation : WalMutation
  policy : DurabilityPolicy
  disk : DiskOutcome

/-- The call writes a record that can be read back. -/
structure AppendCall.Through (serde : Serde WalMutation) (call : AppendCall) : Prop where
  kept : call.policy ≠ .memory
  written : call.disk = .done
  roundTrips : serde.RoundTrips call.mutation

def WalManager.appendAll (serde : Serde WalMutation) :
    List AppendCall → WalManager → WalManager × List (Except HNSQRError Nat)
  | [], wal => (wal, [])
  | call :: rest, wal =>
    let (wal, ans) := wal.append serde call.mutation call.policy call.disk
    let (wal, answers) := wal.appendAll serde rest
    (wal, ans :: answers)

def numberedFrom (lsn : Nat) : List WalMutation → List (Nat × WalMutation)
  | [] => []
  | mutation :: rest => (lsn + 1, mutation) :: numberedFrom (lsn + 1) rest

/-- What a replay makes of the caller's state, whether it succeeds, and the number it leaves. -/
def WalManager.replayed (serde : Serde WalMutation) (snapLsn : Nat)
    (applyFn : Nat → WalMutation → σ → σ × Except HNSQRError Unit) (st : σ)
    (wal : WalManager) : σ × Except HNSQRError Unit × Nat :=
  let ans := wal.replay serde snapLsn applyFn st
  (ans.1.2, ans.2.map fun _ => (), ans.1.1.currentLsn)

theorem le_maxSegmentLsn (fuel top : Nat) (bytes : Bytes) : top ≤ maxSegmentLsn fuel top bytes := by
  induction fuel generalizing top bytes with
  | zero => exact Nat.le_refl _
  | succ fuel ih =>
    unfold maxSegmentLsn
    split
    · exact Nat.le_refl _
    · split
      · exact Nat.le_refl _
      · exact Nat.le_trans (Nat.le_max_left _ _) (ih _ _)

/-- The headers of the frames that a replay reads are among those that are scanned. -/
theorem frame_le_maxSegmentLsn {fuel top : Nat} {bytes : Bytes} {frame : Nat × Bytes}
    (mem : frame ∈ (wholeFrames fuel bytes).1) :
    frame.1 ≤ maxSegmentLsn fuel top bytes := by
  induction fuel generalizing top bytes with
  | zero => simp [wholeFrames] at mem
  | succ fuel ih =>
    cases found : nextFrame bytes with
    | none => simp [wholeFrames_none found] at mem
    | some fst =>
      obtain ⟨lsn, payload⟩ := fst
      simp only [wholeFrames, found, mem_cons] at mem
      obtain ⟨hdr, decoded, rfl, rfl, length, long, -⟩ := nextFrame_some found
      have notShort : ¬ bytes.length < walHeaderSize := by omega
      unfold maxSegmentLsn
      rw [if_neg notShort, decoded]
      rcases mem with rfl | later
      · exact Nat.le_trans (Nat.le_max_right _ _) (le_maxSegmentLsn _ _ _)
      · rw [length] at later
        exact ih later

/-- A file that a replay from the snapshot passes over. -/
structure WalSegment.Silent (snapLsn : Nat) (segment : WalSegment) : Prop where
  sound : ¬ Corrupt segment.behind
  old : ∀ frame ∈ segment.frames, frame.1 ≤ snapLsn

/-- The second list is the first without some of the files that may go. -/
inductive Trims (gone : WalSegment → Prop) : List WalSegment → List WalSegment → Prop
  | nil : Trims gone [] []
  | keep {segs kept : List WalSegment} (segment : WalSegment) (rest : Trims gone segs kept) :
      Trims gone (segment :: segs) (segment :: kept)
  | drop {segs kept : List WalSegment} {segment : WalSegment} (may : gone segment)
      (rest : Trims gone segs kept) : Trims gone (segment :: segs) kept

namespace Trims
variable {gone : WalSegment → Prop}

theorem refl (segs : List WalSegment) : Trims gone segs segs := by
  induction segs with
  | nil => exact .nil
  | cons segment rest ih => exact .keep segment ih

section
variable (trims : Trims gone segs kept)
include trims

theorem mono {more : WalSegment → Prop}
    (weaker : ∀ segment, gone segment → more segment) : Trims more segs kept := by
  induction trims with
  | nil => exact .nil
  | keep segment _ ih => exact .keep segment ih
  | drop may _ ih => exact .drop (weaker _ may) ih

theorem snoc (last : WalSegment) : Trims gone (segs ++ [last]) (kept ++ [last]) := by
  induction trims with
  | nil => exact .keep last .nil
  | keep segment _ ih => exact .keep segment ih
  | drop may _ ih => exact .drop may ih

theorem map (untouched : ∀ segment, gone segment → change segment = segment) :
    Trims gone (segs.map change) (kept.map change) := by
  induction trims with
  | nil => exact .nil
  | keep segment _ ih => exact .keep (change segment) ih
  | drop may _ ih =>
    rw [map_cons, untouched _ may]
    exact .drop may ih

theorem any_eq (absent : ∀ segment, gone segment → test segment = false) :
    kept.any test = segs.any test := by
  induction trims with
  | nil => rfl
  | keep segment _ ih => simp [ih]
  | drop may _ ih => simp [ih, absent _ may]

end
end Trims

/-- The files that go are in front of the active one and are passed over. -/
theorem WalSegment.truncate_trims (disk : Nat → ExamineOutcome)
    (sound : ∀ segment ∈ segs, ¬ Corrupt segment.behind) (deletedCount : Nat) :
    Trims (fun segment => segment.id < activeSegId ∧ segment.Silent safeLsn) segs
      (WalSegment.truncate activeSegId safeLsn disk segs deletedCount).1 := by
  induction segs generalizing deletedCount with
  | nil => exact .nil
  | cons segment rest ih =>
    have later := ih (forall_mem_cons.mp sound).2
    unfold WalSegment.truncate
    by_cases active : activeSegId ≤ segment.id
    · rw [if_pos active]
      exact .keep segment (later _)
    rw [if_neg active]
    cases disk segment.id with
    | openFails => exact .keep segment (later _)
    | metadataFails reason => exact .refl _
    | removeFails =>
      dsimp only
      split
      · exact .keep segment (later _)
      · exact .keep segment (later _)
    | done =>
      dsimp only
      split
      case isTrue old =>
        refine .drop ⟨by omega, sound segment mem_cons_self, ?_⟩ (later _)
        intro frame mem
        exact Nat.le_trans (frame_le_maxSegmentLsn mem) old.2
      case isFalse => exact .keep segment (later _)

namespace Replay
variable {applyFn : Nat → WalMutation → σ → σ × Except HNSQRError Unit}

/-- The same answer and the same effect on the caller. -/
def Alike {α : Type} (fst snd : Replay σ × Except HNSQRError α) : Prop :=
  fst.1.view = snd.1.view ∧ fst.2 = snd.2

theorem readSegment_alike {fst snd : Replay σ} (same : fst.view = snd.view)
    (path : String) (fuel off : Nat) (bytes : Bytes) :
    Alike (readSegment serde snapLsn applyFn path fuel off bytes fst)
      (readSegment serde snapLsn applyFn path fuel off bytes snd) := by
  induction fuel generalizing off bytes fst snd with
  | zero => exact ⟨same, rfl⟩
  | succ fuel ih =>
    obtain ⟨st, top⟩ := Prod.mk.inj same
    unfold readSegment
    by_cases short : bytes.length < walHeaderSize
    · rw [if_pos short, if_pos short]
      exact ⟨same, rfl⟩
    simp only [if_neg short, st]
    cases WalFrameHeader.decode (bytes.take walHeaderSize) with
    | error =>
      dsimp only
      split_ifs <;> exact ⟨same, rfl⟩
    | ok header =>
      dsimp only
      split_ifs
      · exact ⟨same, rfl⟩
      · exact ⟨same, rfl⟩
      · exact ⟨same, rfl⟩
      · cases serde.deserialize ((bytes.drop walHeaderSize).take header.payloadLen) with
        | error e => exact ⟨same, rfl⟩
        | ok mutation =>
          dsimp only
          rcases applyFn header.lsn mutation snd.state with ⟨st, e | _⟩
          · exact ⟨Prod.ext rfl top, rfl⟩
          · refine ih ?_ _ _
            exact Prod.ext rfl (congrArg (max · header.lsn) top)
      · exact ih same _ _

/-- Files that may go make no difference. -/
theorem readSegments_alike {gone : WalSegment → Prop}
    (silent : ∀ segment, gone segment → segment.Silent snapLsn) {segs kept : List WalSegment}
    (trims : Trims gone segs kept) {fst snd : Replay σ}
    (same : fst.view = snd.view) (walDir : String) :
    Alike (readSegments serde snapLsn applyFn walDir segs fst)
      (readSegments serde snapLsn applyFn walDir kept snd) := by
  induction trims generalizing fst snd with
  | nil => exact ⟨same, rfl⟩
  | keep segment rest ih =>
    have head := @readSegment_alike σ serde applyFn snapLsn fst snd same
      (segmentPath walDir segment.id) segment.bytes.length 0 segment.bytes
    unfold readSegments
    revert head
    rcases readSegment serde snapLsn applyFn (segmentPath walDir segment.id)
      segment.bytes.length 0 segment.bytes fst with ⟨after, e | off⟩ <;>
    rcases readSegment serde snapLsn applyFn (segmentPath walDir segment.id)
      segment.bytes.length 0 segment.bytes snd with ⟨after', e' | offset'⟩ <;>
    rintro ⟨view, outc⟩ <;> cases outc
    · exact ⟨view, rfl⟩
    · refine ih ?_
      split
      · exact view
      · exact view
  | @drop _ _ segment may rest ih =>
    obtain ⟨sound, old⟩ := silent _ may
    obtain ⟨after, outc, read, ran, -⟩ := readSegment_bytes serde applyFn snapLsn
      (segmentPath walDir segment.id) (Nat.le_refl segment.bytes.length) 0 fst
    have none : ((wholeFrames segment.bytes.length segment.bytes).1.filter
        fun frame => snapLsn < frame.1) = [] := by
      rw [filter_eq_nil_iff]
      intro frame mem
      have bounded := old frame mem
      simp only [decide_eq_true_eq]
      omega
    have passed := ran sound
    rw [none, run_nil] at passed
    obtain ⟨view, done⟩ := Prod.mk.inj passed
    cases outc with
    | error e => cases done
    | ok off =>
      simp only [readSegments, read]
      refine ih ?_
      split
      · rw [view_torn, ← view, same]
      · rw [← view, same]

end Replay

namespace WalManager

/-- The second manager is the first without some files that are older than the active one and
    that a replay from the snapshot passes over. -/
def Trimmed (snapLsn : Nat) (wal trimmed : WalManager) : Prop :=
  ∃ kept, trimmed = { wal with segments := kept } ∧
    Trims (fun segment => segment.id < wal.segmentId ∧ segment.Silent snapLsn) wal.segments kept

namespace Trimmed
variable {wal : WalManager}

theorem writeAll
    (trims : Trims (fun segment => segment.id < wal.segmentId ∧ segment.Silent snapLsn)
      wal.segments kept) (bytes : Bytes) :
    Trims (fun segment => segment.id < wal.segmentId ∧ segment.Silent snapLsn)
      (wal.writeAll bytes).segments ({ wal with segments := kept }.writeAll bytes).segments := by
  refine trims.map fun segment gone => if_neg ?_
  omega

section
variable (alike : wal.Trimmed snapLsn trimmed)
include alike

theorem nextSegment : wal.nextSegment.Trimmed snapLsn trimmed.nextSegment := by
  obtain ⟨kept, rfl, trims⟩ := alike
  have present : (kept.any fun segment => segment.id = wal.segmentId + 1) =
      wal.segments.any fun segment => segment.id = wal.segmentId + 1 := by
    refine trims.any_eq fun segment gone => ?_
    simp only [decide_eq_false_iff_not]
    omega
  have wider := trims.mono fun segment (gone : _ ∧ _) =>
    (⟨Nat.lt_succ_of_lt gone.1, gone.2⟩ : segment.id < wal.segmentId + 1 ∧ segment.Silent snapLsn)
  refine ⟨_, rfl, ?_⟩
  simp only [WalManager.nextSegment, ensureSegment, present]
  split
  · exact wider
  · exact wider.snoc _

theorem rotate (disk : DiskOutcome) :
    (∃ e, wal.rotate disk = .error e ∧ trimmed.rotate disk = .error e) ∨
      ∃ after trimmedAfter, wal.rotate disk = .ok after ∧ trimmed.rotate disk = .ok trimmedAfter ∧
        after.Trimmed snapLsn trimmedAfter := by
  have due : trimmed.RotationDue ↔ wal.RotationDue := by
    obtain ⟨kept, rfl, -⟩ := alike
    rfl
  unfold WalManager.rotate
  by_cases rotates : wal.RotationDue
  · rw [if_pos rotates, if_pos (due.mpr rotates)]
    cases disk with
    | openFails reason => exact .inl ⟨_, rfl, rfl⟩
    | done | writeFails | syncFails => exact .inr ⟨_, _, rfl, rfl, alike.nextSegment⟩
  · rw [if_neg rotates, if_neg fun rotated => rotates (due.mp rotated)]
    exact .inr ⟨_, _, rfl, rfl, alike⟩

theorem writeRecord (mutation : WalMutation) (payload : Bytes) (disk : DiskOutcome) :
    (trimmed.writeRecord mutation payload disk).2 = (wal.writeRecord mutation payload disk).2 ∧
      (wal.writeRecord mutation payload disk).1.Trimmed snapLsn
        (trimmed.writeRecord mutation payload disk).1 := by
  unfold WalManager.writeRecord
  rcases alike.rotate disk with ⟨e, failed, trimmedFailed⟩ | ⟨after, kept, opened, keptOpened, next⟩
  · rw [failed, trimmedFailed]
    exact ⟨rfl, alike⟩
  rw [opened, keptOpened]
  obtain ⟨files, rfl, trims⟩ := next
  dsimp only
  split
  · exact ⟨rfl, files, rfl, trims⟩
  · cases disk with
    | done | openFails | writeFails | syncFails => exact ⟨rfl, _, rfl, writeAll trims _⟩

theorem syncTargetLsn (tgtLsn : Nat) (disk : DiskOutcome) :
    (trimmed.syncTargetLsn tgtLsn disk).2 = (wal.syncTargetLsn tgtLsn disk).2 ∧
      (wal.syncTargetLsn tgtLsn disk).1.Trimmed snapLsn (trimmed.syncTargetLsn tgtLsn disk).1 := by
  obtain ⟨kept, rfl, trims⟩ := alike
  unfold WalManager.syncTargetLsn
  dsimp only
  split
  · exact ⟨rfl, kept, rfl, trims⟩
  · cases disk with
    | done | openFails | writeFails | syncFails => exact ⟨rfl, kept, rfl, trims⟩

/-- An append answers the same on both and keeps them alike, whatever the disk does to it. -/
theorem append (call : AppendCall) : (trimmed.append serde call.mutation call.policy call.disk).2 =
        (wal.append serde call.mutation call.policy call.disk).2 ∧
      (wal.append serde call.mutation call.policy call.disk).1.Trimmed snapLsn
        (trimmed.append serde call.mutation call.policy call.disk).1 := by
  unfold WalManager.append
  by_cases memory : call.policy = .memory
  · rw [if_pos memory, if_pos memory]
    obtain ⟨kept, rfl, trims⟩ := alike
    exact ⟨rfl, kept, rfl, trims⟩
  rw [if_neg memory, if_neg memory]
  cases serde.serialize call.mutation with
  | error e => exact ⟨rfl, alike⟩
  | ok payload =>
    have written := alike.writeRecord call.mutation payload call.disk
    dsimp only
    revert written
    rcases wal.writeRecord call.mutation payload call.disk with ⟨after, e | tgtLsn⟩ <;>
    rcases trimmed.writeRecord call.mutation payload call.disk with ⟨kept, e' | targetLsn'⟩ <;>
    rintro ⟨ans, next⟩ <;> cases ans
    · exact ⟨rfl, next⟩
    · have synced := next.syncTargetLsn tgtLsn call.disk
      dsimp only
      revert synced
      rcases after.syncTargetLsn tgtLsn call.disk with ⟨final, e | _⟩ <;>
      rcases kept.syncTargetLsn tgtLsn call.disk with ⟨final', e' | _⟩ <;>
      rintro ⟨ans, last⟩ <;> cases ans
      · exact ⟨rfl, last⟩
      · exact ⟨rfl, last⟩

theorem appendAll (calls : List AppendCall) :
    (trimmed.appendAll serde calls).2 = (wal.appendAll serde calls).2 ∧
      (wal.appendAll serde calls).1.Trimmed snapLsn (trimmed.appendAll serde calls).1 := by
  induction calls generalizing wal trimmed with
  | nil => exact ⟨rfl, alike⟩
  | cons call rest ih =>
    obtain ⟨ans, next⟩ := @append _ _ serde _ alike call
    obtain ⟨answers, last⟩ := ih next
    simp only [WalManager.appendAll, ans, answers]
    exact ⟨trivial, last⟩

theorem replayed (applyFn : Nat → WalMutation → σ → σ × Except HNSQRError Unit) (st : σ) :
    trimmed.replayed serde snapLsn applyFn st = wal.replayed serde snapLsn applyFn st := by
  obtain ⟨kept, rfl, trims⟩ := alike
  have read := @Replay.readSegments_alike σ serde applyFn snapLsn _ (fun _ gone => gone.2) _ _
    trims ⟨st, ⟨snapLsn, snapLsn, 0, 0, wal.segments.length⟩, snapLsn⟩
    ⟨st, ⟨snapLsn, snapLsn, 0, 0, kept.length⟩, snapLsn⟩ rfl wal.walDir
  unfold WalManager.replayed WalManager.replay
  dsimp only
  revert read
  rcases Replay.readSegments serde snapLsn applyFn wal.walDir wal.segments
    ⟨st, ⟨snapLsn, snapLsn, 0, 0, wal.segments.length⟩, snapLsn⟩ with
    ⟨after, e | _⟩ <;>
  rcases Replay.readSegments serde snapLsn applyFn wal.walDir kept
    ⟨st, ⟨snapLsn, snapLsn, 0, 0, kept.length⟩, snapLsn⟩ with
    ⟨after', e' | _⟩ <;>
  rintro ⟨view, outc⟩ <;> cases outc <;> obtain ⟨states, numbers⟩ := Prod.mk.inj view
  · exact Prod.ext states.symm rfl
  · exact Prod.ext states.symm (Prod.ext rfl numbers.symm)

end

/-- Truncating an undamaged log trims it. -/
theorem truncateBefore (stored : Stored serde wal.segments recs) (safe : safeLsn ≤ snapLsn)
    (disk : Nat → ExamineOutcome) :
    wal.Trimmed snapLsn (wal.truncateBefore safeLsn disk).1 := by
  obtain ⟨-, sound, -⟩ := stored.frames
  refine ⟨_, rfl, (WalSegment.truncate_trims disk sound 0).mono ?_⟩
  rintro segment ⟨older, whole, old⟩
  exact ⟨older, whole, fun frame mem => Nat.le_trans (old frame mem) safe⟩

end Trimmed

/-- Appends that go through add their records behind those of the log. -/
theorem LogHolds.appendAll {wal : WalManager} (holds : wal.LogHolds serde recs)
    (through : ∀ call ∈ calls, call.Through serde)
    (numbered : wal.currentLsn + calls.length < 2 ^ 64) :
    ∃ more, (wal.appendAll serde calls).1.LogHolds serde (recs ++ more) ∧ more.map WalRecord.entry =
        numberedFrom wal.currentLsn (calls.map AppendCall.mutation) ∧
      (wal.appendAll serde calls).2 =
        (numberedFrom wal.currentLsn (calls.map AppendCall.mutation)).map fun entry =>
          .ok entry.1 := by
  induction calls generalizing wal recs with
  | nil => exact ⟨[], by rw [append_nil]; exact holds, rfl, rfl⟩
  | cons call rest ih =>
    obtain ⟨kept, written, roundTrips⟩ := through call mem_cons_self
    rw [length_cons] at numbered
    obtain ⟨after, rec, appended, mutation, lsn, cur, next⟩ :=
      holds.append_done roundTrips kept (by omega)
    obtain ⟨more, last, ents, answers⟩ := ih next
      (forall_mem_cons.mp through).2 (by omega)
    refine ⟨rec :: more, ?_, ?_, ?_⟩
    · simp only [WalManager.appendAll, written, appended]
      rw [append_assoc] at last
      exact last
    · rw [map_cons, map_cons, numberedFrom, ents, cur, WalRecord.entry, lsn, mutation]
    · simp [WalManager.appendAll, written, appended, answers, cur, numberedFrom]

theorem LogHolds.replayed_collect {wal : WalManager} (holds : wal.LogHolds serde recs) :
    ∃ top, wal.replayed serde snapLsn collect [] =
      ((recs.map WalRecord.entry).filter (fun entry => snapLsn < entry.1), .ok (), top) := by
  obtain ⟨summary, read⟩ := replay_stored holds.stored snapLsn collect []
  obtain ⟨top, ran⟩ := run_collect
    ((recs.map WalRecord.entry).filter fun entry => snapLsn < entry.1) [] snapLsn
  refine ⟨top, ?_⟩
  rw [ran] at read
  simp only [WalManager.replayed, read, nil_append]
  rfl

/-- Truncation is invisible to a replay from the safe number on, also after further appends: the
    appends answer as they would without it, a replay has the same effect, and the appended
    records are delivered behind those of the log. -/
theorem truncation_is_invisible {wal : WalManager} {recs : List WalRecord}
    (undamaged : wal.LogHolds serde recs) {safeLsn snapLsn : Nat}
    (safe : safeLsn ≤ snapLsn) (disk : Nat → ExamineOutcome) (calls : List AppendCall)
    (applyFn : Nat → WalMutation → σ → σ × Except HNSQRError Unit) (st : σ) :
    ((wal.truncateBefore safeLsn disk).1.appendAll serde calls).2 = (wal.appendAll serde calls).2 ∧
      ((wal.truncateBefore safeLsn disk).1.appendAll serde calls).1.replayed serde snapLsn
          applyFn st =
        (wal.appendAll serde calls).1.replayed serde snapLsn applyFn st ∧
      ((∀ call ∈ calls, call.Through serde) → wal.currentLsn + calls.length < 2 ^ 64 →
        ∃ top, ((wal.truncateBefore safeLsn disk).1.appendAll serde calls).1.replayed serde
            snapLsn collect [] =
          ((recs.map WalRecord.entry ++
              numberedFrom wal.currentLsn (calls.map AppendCall.mutation)).filter
            (fun entry => snapLsn < entry.1), .ok (), top)) := by
  have trimmed := Trimmed.truncateBefore undamaged.stored safe disk
  obtain ⟨answers, after⟩ := @Trimmed.appendAll _ _ serde _ trimmed calls
  refine ⟨answers, after.replayed applyFn st, fun through numbered => ?_⟩
  obtain ⟨more, holds, ents, -⟩ := undamaged.appendAll through numbered
  obtain ⟨top, delivered⟩ := holds.replayed_collect
  refine ⟨top, ?_⟩
  rw [after.replayed collect [], delivered, map_append, ents]

end WalManager

open WalMachine (deletionOf deletionSerde deletionSerde_roundTrip)

/-- Two records, as a new log writes them. -/
def twoDeletions : List WalRecord :=
  [⟨0, .delete "a", deletionOf 97⟩, ⟨1, .delete "b", deletionOf 98⟩]

theorem twoDeletions_sound (mem : record ∈ twoDeletions) :
    record.Fits ∧ record.Reads deletionSerde := by
  simp only [twoDeletions, mem_cons, not_mem_nil, or_false] at mem
  rcases mem with rfl | rfl
  · exact ⟨⟨by decide, by decide⟩, deletionSerde_roundTrip _ _ rfl⟩
  · exact ⟨⟨by decide, by decide⟩, deletionSerde_roundTrip _ _ rfl⟩

theorem fileHolds_frame {record : WalRecord} (mem : record ∈ twoDeletions) :
    FileHolds deletionSerde record.frame [record] ∧ WholeRecords record.frame := by
  refine ⟨⟨[], .inl rfl, by simp, fun other same => ?_⟩, [record], fun other same => ?_, by simp⟩
  · rw [mem_singleton.mp same]
    exact twoDeletions_sound mem
  · rw [mem_singleton.mp same]
    exact (twoDeletions_sound mem).1

/-- The two records in a file each, once a session has replayed them. -/
def twoFiles : WalManager :=
  { WalManager.openDir "wal" 0 (twoDeletions.map fun record => ⟨record.lsn, record.frame⟩) with
    currentLsn := 2 }

theorem twoFiles_holds : twoFiles.LogHolds deletionSerde twoDeletions := by
  obtain ⟨fst, -⟩ := fileHolds_frame (mem_cons_self : _ ∈ twoDeletions)
  obtain ⟨snd, whole⟩ := fileHolds_frame (mem_cons_of_mem _ mem_cons_self : _ ∈ twoDeletions)
  have below (bytes : Bytes) : ∀ seg ∈ [(⟨1, bytes⟩ : WalSegment)], seg.id < 2 := by simp
  have front := @Stored.snoc _ [] ⟨1, _⟩ _ _ .empty fst (by simp) Nat.one_pos
  have stored := @Stored.snoc _ [⟨1, _⟩] ⟨2, _⟩ _ _ front snd (below _) Nat.two_pos
  exact ⟨stored, [_], ⟨2, _⟩, ⟨rfl, rfl, below _, Nat.two_pos⟩, whole⟩

/-- The first file is deleted; the second one and a later append are delivered. -/
theorem appends_survive_truncation :
    (twoFiles.truncateBefore 1 fun _ => .done).2 = .ok 1 ∧
      (twoFiles.truncateBefore 1 fun _ => .done).1.segments.map WalSegment.id = [2] ∧
      ∃ top, ((twoFiles.truncateBefore 1 fun _ => .done).1.appendAll deletionSerde
        [⟨.delete "a", .walSync, .done⟩]).1.replayed deletionSerde 1 collect [] =
          ([(2, .delete "b"), (3, .delete "a")], .ok (), top) := by
  refine ⟨by decide +kernel, by decide +kernel, ?_⟩
  refine (WalManager.truncation_is_invisible twoFiles_holds (Nat.le_refl 1) (fun _ => .done)
    [⟨.delete "a", .walSync, .done⟩] collect []).2.2 ?_ (by decide)
  intro call mem
  cases mem_singleton.mp mem
  exact ⟨by simp, rfl, deletionOf 97, rfl, by simp [deletionOf], deletionSerde_roundTrip _ _ rfl⟩

end HoloSphere.Storage
