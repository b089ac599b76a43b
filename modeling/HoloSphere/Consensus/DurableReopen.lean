import HoloSphere.Consensus.DurableInvariant

/-! # Reopening the durable store

The files never hold the sentinel which the cache of a fresh store starts with.
The log that a reopened store reads back is therefore at most as long as the last
index, every entry stands at least one position too low, and a read by index only
agrees with the one before where both are empty.
-/

namespace HoloSphere.Consensus.DurableRaftStorage
open Format List
variable {δ : Type}

/-- The calls that change the log. -/
inductive Op (δ : Type) where
  | appendEntries (ents : List (RaftLogEntry δ))
  | truncateSuffix (fromIndex : Nat)
  | compactPrefix (snapshotIndex : Nat)

def step (codec : RaftCodec δ) (sto : DurableRaftStorage δ) :
    Op δ → Except HNSQRError (DurableRaftStorage δ)
  | .appendEntries ents => sto.appendEntries codec ents
  | .truncateSuffix fromIndex => sto.truncateSuffix codec fromIndex
  | .compactPrefix snapshotIndex => .ok (sto.compactPrefix snapshotIndex)

/-- A sequence of calls that all succeed. -/
def run (codec : RaftCodec δ) (sto : DurableRaftStorage δ) :
    List (Op δ) → Except HNSQRError (DurableRaftStorage δ)
  | [] => .ok sto
  | op :: rest =>
    match sto.step codec op with
    | .error e => .error e
    | .ok next => next.run codec rest

def Op.next (last : Nat) : Op δ → Nat
  | .appendEntries ents => last + ents.length
  | .truncateSuffix fromIndex => min last (fromIndex - 1)
  | .compactPrefix _ => last

def lastIndex (ops : List (Op δ)) : Nat := ops.foldl Op.next 0

def Op.snapshotIndex : Op δ → Nat
  | .compactPrefix snapshotIndex => snapshotIndex
  | _ => 0

def compactedIndex (ops : List (Op δ)) : Nat :=
  ops.foldl (fun compacted op => max compacted op.snapshotIndex) 0

/-- Appended entries continue the log and round-trip; the entry before the first is
    never cut off. -/
def Op.Valid (codec : RaftCodec δ) (last : Nat) : Op δ → Prop
  | .appendEntries ents =>
    Consecutive last ents ∧ ∀ e ∈ ents, codec.entry.RoundTrips e
  | .truncateSuffix fromIndex => 1 ≤ fromIndex
  | .compactPrefix _ => True

def ValidFrom (codec : RaftCodec δ) : Nat → List (Op δ) → Prop
  | _, [] => True
  | last, op :: rest => op.Valid codec last ∧ ValidFrom codec (op.next last) rest

/-- The store is opened on an empty directory and then used. -/
def session (codec : RaftCodec δ) (ops : List (Op δ)) : Except HNSQRError (DurableRaftStorage δ) :=
  match openDir codec {} with
  | .error e => .error e
  | .ok fresh => fresh.run codec ops

/-- Opening the same directory again succeeds, and every read above the compacted
    index answers as before. -/
def Reopens (codec : RaftCodec δ) (compacted : Nat) (sto : DurableRaftStorage δ) : Prop :=
  ∃ reopened, openDir codec sto.disk = .ok reopened ∧
    ∀ i, compacted < i → reopened.loadLogEntries i = sto.loadLogEntries i

theorem Mirrored.step (h : Mirrored codec last sto) {op : Op δ} (valid : op.Valid codec last)
    (done : sto.step codec op = .ok post) :
    Mirrored codec (op.next last) post := by
  cases op with
  | appendEntries ents => exact h.appendEntries valid.1 valid.2 done
  | truncateSuffix fromIndex => exact h.truncateSuffix valid done
  | compactPrefix snapshotIndex =>
    cases done
    exact h.compactPrefix snapshotIndex

theorem Mirrored.run (ops : List (Op δ)) (h : Mirrored codec last sto)
    (valid : ValidFrom codec last ops) (done : sto.run codec ops = .ok final) :
    Mirrored codec (ops.foldl Op.next last) final := by
  induction ops generalizing last sto with
  | nil =>
    cases done
    exact h
  | cons op rest ih =>
    unfold DurableRaftStorage.run at done
    cases stepped : sto.step codec op with
    | error e => simp [stepped] at done
    | ok post =>
      simp only [stepped] at done
      exact ih (h.step valid.1 stepped) valid.2 done

theorem session_mirrored (valid : ValidFrom codec 0 ops) (ran : session codec ops = .ok sto) :
    Mirrored codec (lastIndex ops) sto :=
  (Mirrored.fresh codec).run ops valid ran

section

/-- The scan passes over frames, whatever follows them. -/
theorem scanSegment_past (name : String) (isLast : Bool)
    (carried : ∀ e ∈ ents, codec.entry.RoundTrips e) (after : Bytes) (fuel : Nat) :
    ∀ {bytes : Bytes} (pre : Bytes) (acc : List (RaftLogEntry δ)),
      encodeAll codec.entry ents = .ok bytes →
      scanSegment codec name isLast (pre ++ (bytes ++ after)) (fuel + ents.length) pre.length acc =
        scanSegment codec name isLast (pre ++ (bytes ++ after)) fuel (pre ++ bytes).length
          (acc ++ ents) := by
  induction ents with
  | nil =>
    intro bytes pre acc encoded
    cases encoded
    simp
  | cons entry rest ih =>
    intro bytes pre acc encoded
    obtain ⟨payload, framed, ser, tail, rfl⟩ := encodeAll_cons encoded
    obtain ⟨payload', serialized', fits, read⟩ := carried entry mem_cons_self
    rw [ser] at serialized'
    cases serialized'
    have hin : pre.length < (pre ++ (frame payload ++ (framed ++ after))).length := by
      simp only [length_append, length_frame, raftFrameHeaderSize]
      omega
    have later := ih (forall_mem_cons.mp carried).2
      (pre ++ frame payload) (acc ++ [entry]) tail
    simp only [append_assoc, singleton_append] at later
    rw [length_append] at later
    simp only [append_assoc, length_cons, ← Nat.add_assoc, scanSegment, if_pos hin,
      drop_left, decodeFramedRecord_frame fits read, later]

/-- A file of frames is scanned to its end. -/
theorem scanSegment_frames (name : String) (isLast : Bool) (ents : List (RaftLogEntry δ))
    (carried : ∀ e ∈ ents, codec.entry.RoundTrips e) (fuel : Nat)
    (encoded : encodeAll codec.entry ents = .ok bytes) (enough : bytes.length ≤ fuel) :
    scanSegment codec name isLast bytes fuel 0 [] = .ok ⟨ents, bytes.length, false⟩ := by
  have count := length_le_of_encodeAll encoded
  have past := scanSegment_past name isLast carried [] (fuel - ents.length) [] [] encoded
  rw [Nat.sub_add_cancel (by omega)] at past
  simp only [nil_append, append_nil, length_nil] at past
  rw [past]
  cases fuel - ents.length with
  | zero => rfl
  | succ rest => simp [scanSegment]

variable {codec : RaftCodec δ} {recovery : Recovery δ} {sto : DurableRaftStorage δ}

/-- The file frames the entries that `content` gives; a file that does not exist has none. -/
def Framed (codec : RaftCodec δ) (dir : Directory) (content : String → List (RaftLogEntry δ))
    (path : String) : Prop :=
  (∀ e ∈ content path, codec.entry.RoundTrips e) ∧
    encodeAll codec.entry (content path) = .ok ((dir.lookup path).getD [])

/-- What the metadata of segments says of each file: its name and its number of entries. -/
def summaries (segs : List LogSegmentMeta) : List (String × Nat) :=
  segs.map fun seg => (seg.filePath, seg.entryCount)

/-- The files of these names that are not empty, with their numbers of entries. -/
def found (content : String → List (RaftLogEntry δ)) (paths : List String) : List (String × Nat) :=
  (paths.filter fun path => !(content path).isEmpty).map fun path => (path, (content path).length)

theorem recoverSegment_scanned
    (scanned : scanSegment codec path (decide (lastPath = some path))
      ((recovery.logDir.lookup path).getD []) ((recovery.logDir.lookup path).getD []).length 0 [] =
        .ok scan) :
    ∃ next, recoverSegment codec lastPath recovery path = .ok next ∧
      next.logDir = (if scan.torn then recovery.logDir.insert path
        (((recovery.logDir.lookup path).getD []).take scan.lastValidOffset) else recovery.logDir) ∧
      next.entries = recovery.entries ++ scan.entries ∧
      summaries next.segments =
        summaries recovery.segments ++ found (fun _ => scan.entries) [path] := by
  unfold recoverSegment
  simp only [scanned]
  cases ents : scan.entries with
  | nil => exact ⟨_, rfl, rfl, by simp, by simp [found]⟩
  | cons fst rest =>
    obtain ⟨last, tail⟩ : ∃ last, (fst :: rest).getLast? = some last :=
      ⟨_, getLast?_eq_some_getLast (cons_ne_nil fst rest)⟩
    exact ⟨_, rfl, rfl, rfl, by simp [summaries, found]⟩

theorem recoverSegments_framed (h : ∀ path ∈ paths, Framed codec recovery.logDir content path) :
    ∃ final, recoverSegments codec lastPath recovery paths = .ok final ∧
      final.logDir = recovery.logDir ∧
      final.entries = recovery.entries ++ paths.flatMap content ∧
      summaries final.segments = summaries recovery.segments ++ found content paths := by
  induction paths generalizing recovery with
  | nil => exact ⟨recovery, rfl, rfl, by simp, by simp [found]⟩
  | cons path rest ih =>
    obtain ⟨carried, encoded⟩ := h path mem_cons_self
    obtain ⟨next, stepped, dir, ents, segs⟩ := recoverSegment_scanned
      (scanSegment_frames path (decide (lastPath = some path)) (content path) carried _ encoded
        (le_refl _))
    have later : ∀ other ∈ rest, Framed codec next.logDir content other := by
      intro other mem
      rw [dir]
      exact h other (mem_cons_of_mem path mem)
    obtain ⟨final, done, sameDir, all, allSegments⟩ := ih later
    refine ⟨final, by simp [recoverSegments, stepped, done], sameDir.trans dir, ?_, ?_⟩
    · rw [all, ents, flatMap_cons, append_assoc]
    · rw [allSegments, segs, append_assoc]
      congr 1
      cases here : content path with
      | nil | cons => simp [found, here]

/-- What the file of a segment holds, found by its name. -/
def contentOf (sto : DurableRaftStorage δ) (path : String) : List (RaftLogEntry δ) :=
  match sto.segments.find? (fun seg => seg.filePath = path) with
  | none => []
  | some seg => slice sto.memoryCache.log seg.startIndex seg.entryCount

theorem Mirrored.contentOf (h : Mirrored codec last sto) (mem : seg ∈ sto.segments) :
    sto.contentOf seg.filePath = slice sto.memoryCache.log seg.startIndex seg.entryCount := by
  obtain ⟨lo, -, tiles⟩ := h.tiles
  unfold DurableRaftStorage.contentOf
  cases found : sto.segments.find? (fun other => other.filePath = seg.filePath) with
  | none =>
    have absent := find?_eq_none.mp found seg mem
    simp at absent
  | some other =>
    have hin := mem_of_find?_eq_some found
    have same : other.filePath = seg.filePath := by simpa using find?_some found
    rw [(h.backed other hin).path, (h.backed seg mem).path] at same
    rw [tiles.start_inj hin mem (segmentFileName_injective same)]

theorem Mirrored.framed (h : Mirrored codec last sto) (mem : seg ∈ sto.segments) :
    Framed codec sto.disk.logDir sto.contentOf seg.filePath := by
  obtain ⟨lo, pos, tiles⟩ := h.tiles
  have place := tiles.mem mem
  obtain ⟨bytes, found, encoded⟩ := (h.backed seg mem).content
  unfold Framed
  rw [h.contentOf mem, found]
  refine ⟨fun e hin => ?_, encoded⟩
  have later : e ∈ sto.memoryCache.log.drop seg.startIndex := mem_of_mem_take hin
  refine h.carried e ?_
  rw [show seg.startIndex = 1 + (seg.startIndex - 1) by omega, ← drop_drop] at later
  exact mem_of_mem_drop later

theorem segmentPaths_nodup : (segmentPaths dir).Nodup :=
  (perm_insertionSort _ _).nodup_iff.mpr (dir.keys_nodup.filter _)

theorem mem_segmentPaths : name ∈ segmentPaths dir ↔ name ∈ dir ∧ hasRlogExtension name = true := by
  rw [segmentPaths, mem_insertionSort, mem_filter]
  rfl

/-- The files found by the scan are those of the segments, in some order. -/
theorem Mirrored.segmentPaths_perm (h : Mirrored codec last sto) :
    (segmentPaths sto.disk.logDir).Perm (sto.segments.map LogSegmentMeta.filePath) := by
  obtain ⟨lo, -, tiles⟩ := h.tiles
  have uniq : (sto.segments.map LogSegmentMeta.filePath).Nodup := by
    refine List.Nodup.map_on ?_ (List.Nodup.of_map _ tiles.nodup)
    intro seg mem seg' member' same
    rw [(h.backed seg mem).path, (h.backed seg' member').path] at same
    exact tiles.start_inj mem member' (segmentFileName_injective same)
  refine (perm_ext_iff_of_nodup segmentPaths_nodup uniq).mpr fun name => ?_
  rw [mem_segmentPaths, mem_map]
  constructor
  · rintro ⟨key, -⟩
    obtain ⟨seg, mem, rfl⟩ := h.named name key
    exact ⟨seg, mem, rfl⟩
  · rintro ⟨seg, mem, rfl⟩
    obtain ⟨path, bytes, found, -⟩ := h.backed seg mem
    refine ⟨AList.lookup_isSome.mp (by rw [found]; rfl), ?_⟩
    rw [path]
    exact hasRlogExtension_segmentFileName

/-- Opening a directory that holds nothing but segment files. -/
theorem openDir_bare {disk : Disk} (bare : Bare disk) :
    openDir codec disk = (recoverSegments codec (segmentPaths disk.logDir).getLast?
      { logDir := disk.logDir } (segmentPaths disk.logDir)).map fun recovery =>
        { disk := { disk with logDir := recovery.logDir }
          segments := recovery.segments
          memoryCache := { log := recoveredLog recovery.entries } } := by
  obtain ⟨st, prog, snap, legacy⟩ := bare
  simp only [openDir, migrateLegacyLog, recoverRecord, st, prog, snap, legacy, bind, Except.bind]
  cases recoverSegments codec (segmentPaths disk.logDir).getLast? { logDir := disk.logDir }
    (segmentPaths disk.logDir) with
  | error | ok => rfl

/-- The entries that the recovery scan of a mirrored store collects. -/
theorem Mirrored.recovered (h : Mirrored codec last sto) :
    ∃ final, recoverSegments codec (segmentPaths sto.disk.logDir).getLast?
        { logDir := sto.disk.logDir } (segmentPaths sto.disk.logDir) = .ok final ∧
      final.entries.length ≤ last := by
  obtain ⟨lo, pos, tiles⟩ := h.tiles
  have files : ∀ path ∈ segmentPaths sto.disk.logDir,
      Framed codec (Recovery.logDir (δ := δ) { logDir := sto.disk.logDir }) sto.contentOf
        path := by
    intro path mem
    obtain ⟨seg, hin, rfl⟩ := mem_map.mp (h.segmentPaths_perm.mem_iff.mp mem)
    exact h.framed hin
  obtain ⟨final, recovered, -, ents, -⟩ := recoverSegments_framed files
  refine ⟨final, recovered, ?_⟩
  have all : (sto.segments.map LogSegmentMeta.filePath).flatMap sto.contentOf =
      sto.memoryCache.log.drop lo := by
    rw [← h.size] at tiles
    rw [← tiles.flatMap_slice, flatMap_map]
    exact flatMap_congr fun seg mem => h.contentOf mem
  rw [ents, nil_append, (h.segmentPaths_perm.flatMap_right _).length_eq, all, length_drop, h.size]
  omega

/-- A store can be reopened, and its log is then no longer than the last index. -/
theorem Mirrored.reopen (h : Mirrored codec last sto) :
    ∃ reopened, openDir codec sto.disk = .ok reopened ∧
      reopened.memoryCache.log.length ≤ max last 1 := by
  obtain ⟨final, recovered, short⟩ := h.recovered
  refine ⟨_, by rw [openDir_bare h.bare, recovered]; rfl, ?_⟩
  simp only [recoveredLog]
  split
  · simp
  · omega

theorem Mirrored.reopens_iff (h : Mirrored codec last sto) :
    Reopens codec compacted sto ↔ last ≤ compacted := by
  obtain ⟨reopened, opened, short⟩ := h.reopen
  have size := h.size
  constructor
  · rintro ⟨other, opened', agrees⟩
    rw [opened] at opened'
    cases opened'
    by_contra above
    have lengths := congrArg length (agrees last (by omega))
    simp only [loadLogEntries, MemoryRaftStorage.loadLogEntries_eq_drop, length_drop] at lengths
    omega
  · intro bound
    refine ⟨reopened, opened, ?_⟩
    intro i above
    simp only [loadLogEntries, MemoryRaftStorage.loadLogEntries_eq_drop]
    rw [drop_eq_nil_of_le (by omega), drop_eq_nil_of_le (by omega)]

end

/-- After any calls on a store that was opened on an empty directory, reopening it
    preserves the reads above the compacted index exactly when no entry is left there. -/
theorem reopen_preserves_reads_iff (codec : RaftCodec δ) (ops : List (Op δ))
    (valid : ValidFrom codec 0 ops) (sto : DurableRaftStorage δ)
    (ran : session codec ops = .ok sto) :
    Reopens codec (compactedIndex ops) sto ↔ lastIndex ops ≤ compactedIndex ops :=
  (session_mirrored valid ran).reopens_iff

/-- The byte layout of an entry without payload: term, index and the tag of `NoOp`. -/
def bareEntrySerde : Serde (RaftLogEntry Empty) where
  serialize entry :=
    match entry.command with
    | .noOp => .ok (toLe 8 entry.term ++ toLe 8 entry.index ++ toLe 4 3)
    | _ => .error "unsupported command"
  deserialize bytes :=
    if bytes.length = 20 ∧ bytes.drop 16 = toLe 4 3 then
      .ok ⟨fromLe (bytes.take 8), fromLe ((bytes.drop 8).take 8), .noOp⟩
    else .error "unexpected bytes"

/-- A codec for logs of `NoOp` entries; no metadata file is written. -/
def bareCodec : RaftCodec Empty where
  entry := bareEntrySerde
  hardState := ⟨fun _ => .error "unsupported", fun _ => .error "unsupported"⟩
  progress := ⟨fun _ => .error "unsupported", fun _ => .error "unsupported"⟩
  snapshotMeta := ⟨fun _ => .error "unsupported", fun _ => .error "unsupported"⟩

theorem bareCodec_roundTrips (terms : term < 256 ^ 8)
    (indices : idx < 256 ^ 8) : bareCodec.entry.RoundTrips ⟨term, idx, .noOp⟩ := by
  refine ⟨toLe 8 term ++ toLe 8 idx ++ toLe 4 3, rfl, by simp, ?_⟩
  have size : (toLe 8 term ++ toLe 8 idx ++ toLe 4 3).length = 20 := by simp
  have tag : (toLe 8 term ++ toLe 8 idx ++ toLe 4 3).drop 16 = toLe 4 3 := drop_left' (by simp)
  have fst : (toLe 8 term ++ toLe 8 idx ++ toLe 4 3).take 8 = toLe 8 term := by
    exact take_left' (length_toLe)
  have snd : ((toLe 8 term ++ toLe 8 idx ++ toLe 4 3).drop 8).take 8 = toLe 8 idx := by
    exact take_left' (length_toLe)
  simp only [bareCodec, bareEntrySerde, size, tag, fst, snd, and_self, if_true,
    fromLe_toLe_of_lt terms, fromLe_toLe_of_lt indices]

/-- One entry is appended and then compacted away. -/
def compactedOps : List (Op Empty) := [.appendEntries [⟨1, 1, .noOp⟩], .compactPrefix 1]

theorem consecutive_first : Consecutive 0 [(⟨term, 1, .noOp⟩ : RaftLogEntry Empty)] := by
  intro k e here
  obtain ⟨hin, rfl⟩ := List.getElem?_eq_some_iff.mp here
  have fst : k = 0 := by simpa using hin
  subst fst
  rfl

theorem compacted_log_reopens : ∃ sto, session bareCodec compactedOps = .ok sto ∧
      Reopens bareCodec (compactedIndex compactedOps) sto := by
  have valid : ValidFrom bareCodec 0 compactedOps := by
    refine ⟨⟨consecutive_first, ?_⟩, trivial, trivial⟩
    intro e mem
    obtain rfl := mem_singleton.mp mem
    exact bareCodec_roundTrips (by decide) (by decide)
  exact ⟨_, rfl, (reopen_preserves_reads_iff bareCodec compactedOps valid _ rfl).mpr (by decide)⟩

/-- A single append: the entry of index 1 stands at position 0 after the reopen. -/
theorem reopened_log_is_shifted :
    ∃ sto, session bareCodec [.appendEntries [⟨1, 1, .noOp⟩]] = .ok sto ∧
      ¬ Reopens bareCodec 0 sto := by
  have valid : ValidFrom bareCodec 0 [.appendEntries [⟨1, 1, .noOp⟩]] := by
    refine ⟨⟨consecutive_first, ?_⟩, trivial⟩
    intro e mem
    obtain rfl := mem_singleton.mp mem
    exact bareCodec_roundTrips (by decide) (by decide)
  refine ⟨_, rfl, ?_⟩
  rw [(session_mirrored valid rfl).reopens_iff]
  decide

end HoloSphere.Consensus.DurableRaftStorage
