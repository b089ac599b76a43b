import HoloSphere.Storage.WalTruncation

/-! # Replaying a damaged log

Each file of the log may have been altered and cut.  The checksum of a frame covers its
payload only, and each file is read up to its first unreadable frame, whatever follows in
the next file.  So a replay that succeeds delivers the legible frames of every file with the
numbers that now stand in their headers.  They are the first of the written records exactly
if no number was altered to effect and nothing legible follows a loss.
-/

namespace HoloSphere.Storage
open Format Consensus List WalRecord

/-- A file with the records that were written to it and the bytes it has now.  Where a record
    was written, a frame with a right checksum has the payload of the record. -/
structure DamagedSegment (serde : Serde WalMutation) where
  id : Nat
  records : List WalRecord
  bytes : Bytes
  fits : ∀ record ∈ records, record.Fits
  reads : ∀ record ∈ records, record.Reads serde
  shorter : bytes.length ≤ (records.flatMap WalRecord.frame).length
  detected : ∀ front record back, records = front ++ record :: back →
    ∀ lsn payload, nextFrame (bytes.drop (front.flatMap WalRecord.frame).length) =
      some (lsn, payload) → payload = record.payload

namespace DamagedSegment

def file (segment : DamagedSegment serde) : WalSegment := ⟨segment.id, segment.bytes⟩

/-- The records as they were appended. -/
def entries (segment : DamagedSegment serde) : List (Nat × WalMutation) := segment.records.map entry

/-- The frames that can still be read, up to the first that cannot, with their records. -/
def paired (segment : DamagedSegment serde) : List ((Nat × Bytes) × WalRecord) :=
  segment.file.frames.zip segment.records

/-- The records of these frames with the numbers that the headers carry now. -/
def legible (segment : DamagedSegment serde) : List (Nat × WalMutation) :=
  segment.paired.map fun pair => (pair.1.1, pair.2.mutation)

def lost (segment : DamagedSegment serde) : List WalRecord :=
  segment.records.drop segment.file.frames.length

/-- The headers that can be read carry the numbers of the records. -/
def KeepsNumbers (segment : DamagedSegment serde) : Prop :=
  segment.file.frames.map Prod.fst <+: segment.records.map lsn

end DamagedSegment

/-- No file that has lost a record above the snapshot is followed by a file that begins with a
    legible frame. -/
def NothingAfterLoss (snapLsn : Nat) : List (DamagedSegment serde) → Prop
  | [] => True
  | segment :: rest =>
    ((∃ record ∈ segment.lost, snapLsn < record.lsn) →
      ∀ later ∈ rest, later.file.frames = []) ∧ NothingAfterLoss snapLsn rest

def above (snapLsn : Nat) (entries : List (Nat × WalMutation)) : List (Nat × WalMutation) :=
  entries.filter fun entry => snapLsn < entry.1

open DamagedSegment

/-- A replay that succeeds has delivered the first of the written records above the snapshot. -/
def ReplaysPrefix (snapLsn : Nat) (dir : List (DamagedSegment serde)) (wal : WalManager) : Prop :=
  ∀ after delivered summary, ({ wal with segments := dir.map file } : WalManager).replay serde
      snapLsn collect [] = ((after, delivered), .ok summary) →
    ∃ count, delivered = (above snapLsn (dir.flatMap entries)).take count

variable {records : List WalRecord}

theorem wholeFrames_damaged {bytes : Bytes} (fuel : Nat)
    (shorter : bytes.length ≤ (records.flatMap WalRecord.frame).length)
    (detected : ∀ front record back, records = front ++ record :: back →
      ∀ lsn payload, nextFrame (bytes.drop (front.flatMap WalRecord.frame).length) =
        some (lsn, payload) → payload = record.payload) :
    (wholeFrames fuel bytes).1.map Prod.snd <+: records.map payload := by
  induction records generalizing bytes fuel with
  | nil =>
    have empty : bytes = [] := eq_nil_of_length_eq_zero (Nat.le_zero.mp shorter)
    subst empty
    rw [wholeFrames_none (by decide)]
    exact nil_prefix
  | cons record rest ih =>
    cases fuel with
    | zero => exact nil_prefix
    | succ fuel =>
      cases found : nextFrame bytes with
      | none =>
        rw [wholeFrames_none found]
        exact nil_prefix
      | some frame =>
        obtain ⟨lsn, payload⟩ := frame
        have same : payload = record.payload := detected [] record rest rfl lsn payload found
        subst same
        simp only [wholeFrames, found, map_cons]
        rw [cons_prefix_cons]
        refine ⟨rfl, ih fuel ?_ ?_⟩
        · rw [flatMap_cons, length_append, WalRecord.length_frame] at shorter
          rw [length_drop]
          omega
        · intro front other back split lsn payload next
          rw [drop_drop, ← WalRecord.length_frame] at next
          refine detected (record :: front) other back (by rw [split]; rfl) lsn payload ?_
          rw [flatMap_cons, length_append]
          exact next

namespace DamagedSegment

section
variable (segment : DamagedSegment serde)
include segment

theorem frames_prefix : segment.file.frames.map Prod.snd <+: segment.records.map payload :=
  wholeFrames_damaged _ segment.shorter segment.detected

theorem length_frames_le : segment.file.frames.length ≤ segment.records.length := by
  simpa using segment.frames_prefix.length_le

theorem map_fst_paired : segment.paired.map Prod.fst = segment.file.frames :=
  map_fst_zip segment.length_frames_le

theorem length_legible : segment.legible.length = segment.file.frames.length := by
  rw [legible, length_map, ← segment.map_fst_paired, length_map]

end
end DamagedSegment

theorem payload_of_zip {frames : List (Nat × Bytes)}
    (begins : frames.map Prod.snd <+: records.map payload)
    (mem : pair ∈ frames.zip records) :
    pair.1.2 = pair.2.payload := by
  induction frames generalizing records with
  | nil => simp at mem
  | cons frame frames ih =>
    cases records with
    | nil => simp at mem
    | cons record records =>
      rw [map_cons, map_cons, cons_prefix_cons] at begins
      rw [zip_cons_cons, mem_cons] at mem
      rcases mem with rfl | later
      · exact begins.1
      · exact ih begins.2 later

theorem entries_of_zip {frames : List (Nat × Bytes)}
    (numbers : frames.map Prod.fst <+: records.map lsn) :
    (frames.zip records).map (fun pair => (pair.1.1, pair.2.mutation)) =
      (records.map entry).take frames.length := by
  induction frames generalizing records with
  | nil => simp
  | cons frame frames ih =>
    cases records with
    | nil => simp at numbers
    | cons record records =>
      rw [map_cons, map_cons, cons_prefix_cons] at numbers
      simp [ih numbers.2, numbers.1, entry]

variable {dir : List (DamagedSegment serde)}

theorem paired_reads (mem : pair ∈ dir.flatMap paired) :
    serde.deserialize pair.1.2 = .ok pair.2.mutation := by
  obtain ⟨segment, -, hin⟩ := mem_flatMap.mp mem
  have record : pair.2 ∈ segment.records := (of_mem_zip hin).2
  rw [payload_of_zip segment.frames_prefix hin]
  exact segment.reads pair.2 record

theorem replay_damaged (dir : List (DamagedSegment serde)) (wal : WalManager) :
    ((∃ segment ∈ dir, Corrupt segment.file.behind) →
      ∃ e, (({ wal with segments := dir.map file } : WalManager).replay serde
        snapLsn collect []).2 = .error e) ∧
    ((∀ segment ∈ dir, ¬ Corrupt segment.file.behind) →
      ∃ after summary, ({ wal with segments := dir.map file } :
          WalManager).replay serde snapLsn collect [] =
        ((after, above snapLsn (dir.flatMap legible)), .ok summary)) := by
  obtain ⟨after, outcome, read, ran, stops⟩ := Replay.readSegments_bytes serde collect snapLsn
    wal.walDir (dir.map file)
    { state := []
      summary := ⟨snapLsn, snapLsn, 0, 0, (dir.map file).length⟩
      highestLsn := snapLsn }
  constructor
  · rintro ⟨segment, mem, corrupt⟩
    obtain ⟨e, failed⟩ := stops ⟨segment.file, mem_map_of_mem mem, corrupt⟩
    exact ⟨e, by simp only [WalManager.replay, read, failed]⟩
  · intro sound
    have frames : (dir.map file).flatMap WalSegment.frames = (dir.flatMap paired).map Prod.fst := by
      simp only [flatMap_map, map_flatMap, map_fst_paired]
    have all : dir.flatMap legible =
        (dir.flatMap paired).map fun pair => (pair.1.1, pair.2.mutation) := by
      rw [map_flatMap]
      rfl
    have clean : ∀ segment ∈ dir.map file, ¬ Corrupt segment.behind := by
      intro segment mem
      obtain ⟨damaged, hin, rfl⟩ := mem_map.mp mem
      exact sound damaged hin
    obtain ⟨bound, delivered⟩ := run_collect (above snapLsn (dir.flatMap legible)) [] snapLsn
    have res := ran clean
    rw [frames, Replay.run_deliverFrame fun _ mem => paired_reads mem, ← all, Replay.view] at res
    rw [above] at delivered
    rw [delivered, nil_append] at res
    obtain ⟨view, done⟩ := Prod.mk.inj res
    obtain ⟨st, top⟩ := Prod.mk.inj view
    refine ⟨{ wal with
      segments := dir.map file
      currentLsn := after.highestLsn
      lastSyncedLsn := after.highestLsn }, after.summary, ?_⟩
    simp only [WalManager.replay, read, ← done, ← st, above]

theorem replaysPrefix_iff :
    ReplaysPrefix snapLsn dir wal ↔ (∃ segment ∈ dir, Corrupt segment.file.behind) ∨
        above snapLsn (dir.flatMap legible) <+: above snapLsn (dir.flatMap entries) := by
  obtain ⟨fails, succeeds⟩ := replay_damaged dir wal
  by_cases corrupt : ∃ segment ∈ dir, Corrupt segment.file.behind
  · refine iff_of_true ?_ (.inl corrupt)
    intro after delivered summary replayed
    obtain ⟨e, failed⟩ := fails corrupt
    rw [replayed] at failed
    cases failed
  · simp only [corrupt, false_or]
    have sound : ∀ segment ∈ dir, ¬ Corrupt segment.file.behind :=
      fun segment mem found => corrupt ⟨segment, mem, found⟩
    obtain ⟨after, summary, replayed⟩ := succeeds sound
    constructor
    · intro holds
      obtain ⟨count, same⟩ := holds after _ summary replayed
      rw [same]
      exact take_prefix _ _
    · intro begins after' delivered summary' again
      rw [replayed] at again
      cases again
      exact ⟨_, prefix_iff_eq_take.mp begins⟩

theorem above_append : above snapLsn (fst ++ snd) = above snapLsn fst ++ above snapLsn snd :=
  filter_append _ _

theorem legible_subset (keeps : ∀ segment ∈ dir, segment.KeepsNumbers) :
    dir.flatMap legible ⊆ dir.flatMap entries := by
  intro entry mem
  obtain ⟨segment, hin, here⟩ := mem_flatMap.mp mem
  refine mem_flatMap.mpr ⟨segment, hin, ?_⟩
  rw [legible, paired, entries_of_zip (keeps segment hin)] at here
  exact mem_of_mem_take here

/-- With intact and ascending numbers, the legible records are the first ones exactly if nothing
    legible follows a loss. -/
theorem legible_prefix_iff (keeps : ∀ segment ∈ dir, segment.KeepsNumbers)
    (ascending : ((dir.flatMap entries).map Prod.fst).Pairwise (· < ·)) :
    above snapLsn (dir.flatMap legible) <+: above snapLsn (dir.flatMap entries) ↔
      NothingAfterLoss snapLsn dir := by
  induction dir with
  | nil => simp [above, NothingAfterLoss]
  | cons segment rest ih =>
    obtain ⟨own, others⟩ := forall_mem_cons.mp keeps
    rw [flatMap_cons, map_append, pairwise_append] at ascending
    obtain ⟨-, ascendingRest, across⟩ := ascending
    have legible : segment.legible = segment.entries.take segment.file.frames.length := by
      rw [legible, paired, entries_of_zip own, entries]
    have entries : segment.legible ++ segment.lost.map entry = segment.entries := by
      rw [legible, lost, entries, map_drop, take_append_drop]
    rw [flatMap_cons, flatMap_cons, ← entries, append_assoc, above_append,
      above_append, above_append, prefix_append_right_inj, NothingAfterLoss,
      ← ih others ascendingRest]
    cases gone : above snapLsn (segment.lost.map entry) with
    | nil =>
      have kept : ¬ ∃ record ∈ segment.lost, snapLsn < record.lsn := by
        rintro ⟨record, mem, later⟩
        have none := filter_eq_nil_iff.mp gone record.entry (mem_map_of_mem mem)
        exact none (decide_eq_true later)
      simp [kept]
    | cons entry more =>
      have missing : entry ∈ above snapLsn (segment.lost.map WalRecord.entry) := by
        rw [gone]
        exact mem_cons_self
      obtain ⟨hin, later⟩ := mem_filter.mp missing
      obtain ⟨record, mem, rfl⟩ := mem_map.mp hin
      have lost : ∃ record ∈ segment.lost, snapLsn < record.lsn :=
        ⟨record, mem, of_decide_eq_true later⟩
      -- what is legible behind the loss has a larger number than what was lost
      have larger : ∀ other ∈ rest.flatMap DamagedSegment.legible, record.lsn < other.1 := by
        intro other present
        refine across record.lsn ?_ other.1 (mem_map_of_mem (legible_subset others present))
        rw [← entries, map_append]
        exact mem_append_right _ (mem_map.mpr ⟨_, hin, rfl⟩)
      have all : above snapLsn (rest.flatMap DamagedSegment.legible) = _ :=
        filter_eq_self.mpr fun other present =>
          decide_eq_true ((of_decide_eq_true later).trans (larger other present))
      have nothing : (∀ segment ∈ rest, segment.file.frames = []) ↔
          rest.flatMap DamagedSegment.legible = [] := by
        rw [flatMap_eq_nil_iff]
        simp only [← length_eq_zero_iff, length_legible]
      simp only [lost, true_imp_iff, nothing, all]
      constructor
      · intro begins
        cases fst : rest.flatMap DamagedSegment.legible with
        | nil => exact ⟨rfl, nil_prefix⟩
        | cons other _ =>
          rw [fst, cons_append, cons_prefix_cons] at begins
          have bigger := larger other (by rw [fst]; exact mem_cons_self)
          rw [begins.1] at bigger
          exact absurd bigger (Nat.lt_irrefl _)
      · rintro ⟨none, -⟩
        rw [none]
        exact nil_prefix

/-- A replay of a damaged log never skips exactly if it fails, or the legible records above the
    snapshot are the first of the written ones.  With intact and ascending numbers that means
    that nothing legible follows a file that has lost a record above the snapshot. -/
theorem replay_never_skips_iff (snapLsn : Nat) (dir : List (DamagedSegment serde))
    (wal : WalManager) :
    (ReplaysPrefix snapLsn dir wal ↔ (∃ segment ∈ dir, Corrupt segment.file.behind) ∨
        above snapLsn (dir.flatMap legible) <+: above snapLsn (dir.flatMap entries)) ∧
    ((∀ segment ∈ dir, segment.KeepsNumbers) →
      ((dir.flatMap entries).map Prod.fst).Pairwise (· < ·) →
      (ReplaysPrefix snapLsn dir wal ↔ (∃ segment ∈ dir, Corrupt segment.file.behind) ∨
          NothingAfterLoss snapLsn dir)) := by
  refine ⟨replaysPrefix_iff, fun keeps ascending => ?_⟩
  rw [replaysPrefix_iff, legible_prefix_iff keeps ascending]

open WalMachine (deletionOf deletionSerde deletionSerde_roundTrip)

/-- Bytes of that file that have changed in some way. -/
def changedDeletions (bytes : Bytes)
    (shorter : bytes.length ≤ (twoDeletions.flatMap WalRecord.frame).length)
    (fst : ∀ frame ∈ nextFrame bytes, frame.2 = deletionOf 97)
    (snd : ∀ frame ∈ nextFrame (bytes.drop 49), frame.2 = deletionOf 98) :
    DamagedSegment deletionSerde where
  id := 1
  records := twoDeletions
  bytes := bytes
  fits record mem := (twoDeletions_sound mem).1
  reads record mem := (twoDeletions_sound mem).2
  shorter := shorter
  detected := by
    intro front record back split lsn payload found
    match front with
    | [] =>
      cases split
      exact fst _ found
    | [_] =>
      cases split
      exact snd _ found
    | _ :: _ :: front => simp [twoDeletions] at split

/-- The file is cut in its second record. -/
def cutDeletions : DamagedSegment deletionSerde :=
  changedDeletions ((twoDeletions.flatMap WalRecord.frame).take 60) (by decide +kernel)
    (by decide +kernel) (by decide +kernel)

theorem cut_file_replays_prefix : cutDeletions.file.frames.length = 1 ∧
      ReplaysPrefix 0 [cutDeletions] (.openDir "wal" 0 []) := by
  refine ⟨by decide +kernel, ?_⟩
  refine ((replay_never_skips_iff 0 [cutDeletions] (.openDir "wal" 0 [])).2 ?_ ?_).mpr
    (.inr ⟨fun _ _ later => (nomatch later), trivial⟩)
  · intro segment mem
    cases mem_singleton.mp mem
    show cutDeletions.file.frames.map Prod.fst <+: [1, 2]
    decide +kernel
  · decide

/-- The number in the header of the first record is overwritten with zero. -/
def renumberedDeletions : DamagedSegment deletionSerde :=
  changedDeletions ((twoDeletions.flatMap WalRecord.frame).set 8 0) (by decide +kernel)
    (by decide +kernel) (by decide +kernel)

/-- One altered byte makes a replay of two appends skip the first and deliver the second. -/
theorem altered_number_skips_a_record : (((WalManager.openDir "wal" 0 []).appendAll deletionSerde
        [⟨.delete "a", .walSync, .done⟩, ⟨.delete "b", .walSync, .done⟩]).1.segments =
      [⟨1, twoDeletions.flatMap WalRecord.frame⟩]) ∧
    ¬ ReplaysPrefix 0 [renumberedDeletions] (.openDir "wal" 0 []) := by
  constructor
  · decide +kernel
  · rw [replaysPrefix_iff]
    rintro (⟨segment, mem, corrupt⟩ | begins)
    · cases mem_singleton.mp mem
      revert corrupt
      decide +kernel
    · have numbers := begins.map Prod.fst
      revert numbers
      decide +kernel

end HoloSphere.Storage
