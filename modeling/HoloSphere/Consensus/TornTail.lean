import HoloSphere.Consensus.SegmentFiles

/-! # A torn tail of the durable log

A crash leaves only some bytes of the last record in the last segment file.  The scan of
`open` forgives fewer bytes than a frame header has, and only in the file whose name sorts
last.  A record that was cut inside its payload makes the store fail to open.
-/

namespace HoloSphere.Consensus.DurableRaftStorage
open Format List
variable {δ : Type} {codec : RaftCodec δ}

/-- The directory after the crash: of the last record, which has `size` bytes, the first
    `kept` have reached the last segment file. -/
def cutLast (size kept : Nat) (sto : DurableRaftStorage δ) : Disk :=
  match sto.segments.getLast? with
  | none => sto.disk
  | some seg =>
    let content := (sto.disk.logDir.lookup seg.filePath).getD []
    { sto.disk with
      logDir := sto.disk.logDir.insert seg.filePath
        (content.take (content.length - size + kept)) }

/-- The segments that still hold bytes after the crash. -/
def leftSegments (kept : Nat) (sto : DurableRaftStorage δ) : List LogSegmentMeta :=
  if kept = 0 ∧ sto.segments.getLast?.map LogSegmentMeta.entryCount = some 1 then
    sto.segments.dropLast
  else sto.segments

/-- The names of the segments sort in the order in which they were started. -/
def NamesSorted (segs : List LogSegmentMeta) : Prop :=
  (segs.map LogSegmentMeta.filePath).Pairwise (· ≤ ·)

theorem Written.paths (h : Written codec files sto) :
    sto.segments.map LogSegmentMeta.filePath = files.map SegmentFile.path := by
  have names := congrArg (map Prod.fst) h.segments
  simpa [summaries, Function.comp_def] using names

theorem Written.namesSorted_iff (h : Written codec files sto) :
    NamesSorted sto.segments ↔ InOrder files := by
  rw [NamesSorted, h.paths]
  rfl

theorem Laid.inOrder_of_lt (h : Laid codec loose files dir)
    (small : ∀ e ∈ files.flatMap SegmentFile.entries, e.index < 10 ^ 16) : InOrder files := by
  refine pairwise_map.mpr (h.ordered.imp_of_mem ?_)
  intro file later mem member' below
  obtain ⟨fst, head, path⟩ := h.named file mem
  obtain ⟨other, head', path'⟩ := h.named later member'
  have inside' := mem_of_mem_head? head'
  rw [path, path']
  exact segmentFileName_le (below fst (mem_of_mem_head? head) other inside').le
    (small other (mem_flatMap.mpr ⟨later, member', inside'⟩))

theorem leftSegments_sublist (sto : DurableRaftStorage δ) :
    (sto.leftSegments kept).Sublist sto.segments := by
  unfold leftSegments
  split
  · exact dropLast_sublist _
  · exact List.Sublist.refl _

theorem scanSegment_torn (carried : ∀ e ∈ ents, codec.entry.RoundTrips e)
    (encoded : encodeAll codec.entry ents = .ok pre) (nonempty : piece ≠ [])
    (refused : decodeFramedRecord codec.entry piece = .error reason) :
    (isLast = true ∧ piece.length < raftFrameHeaderSize →
      scanSegment codec name isLast (pre ++ piece) (pre ++ piece).length 0 [] =
        .ok ⟨ents, pre.length, true⟩) ∧
    (¬ (isLast = true ∧ piece.length < raftFrameHeaderSize) →
      ∃ e, scanSegment codec name isLast (pre ++ piece) (pre ++ piece).length 0 [] = .error e) := by
  have count := length_le_of_encodeAll encoded
  have some_bytes := length_pos_iff.mpr nonempty
  obtain ⟨fuel, enough⟩ : ∃ fuel, (pre ++ piece).length = fuel + 1 + ents.length :=
    ⟨(pre ++ piece).length - 1 - ents.length, by
      rw [length_append]
      omega⟩
  have past := scanSegment_past name isLast carried piece (fuel + 1) [] [] encoded
  simp only [nil_append, length_nil] at past
  have hin : pre.length < (pre ++ piece).length := by
    rw [length_append]
    omega
  rw [enough, past]
  simp only [scanSegment, if_pos hin, drop_left, refused]
  have short : pre.length + raftFrameHeaderSize > (pre ++ piece).length ↔
      piece.length < raftFrameHeaderSize := by
    rw [length_append]
    omega
  constructor
  · rintro ⟨last, forgiven⟩
    rw [if_pos ⟨last, short.mpr forgiven⟩]
  · intro strict
    rw [if_neg fun both => strict ⟨both.1, short.mp both.2⟩]
    exact ⟨_, rfl⟩

/-- The directory of a log whose last file ends in a piece of a frame. -/
structure Torn (codec : RaftCodec δ) (front : List (SegmentFile δ)) (path : String)
    (held : List (RaftLogEntry δ)) (pre piece : Bytes) (dir : Directory) : Prop where
  laid : Laid codec (some path) front dir
  absent : ∀ file ∈ front, file.path ≠ path
  complete : ∀ name ∈ dir, name ≠ path → ∃ file ∈ front, file.path = name
  listed : path ∈ segmentPaths dir
  content : dir.lookup path = some (pre ++ piece)
  carried : ∀ e ∈ held, codec.entry.RoundTrips e
  encoded : encodeAll codec.entry held = .ok pre
  nonempty : piece ≠ []
  refused : ∃ reason, decodeFramedRecord codec.entry piece = .error reason

theorem Torn.split (h : Torn codec front path held pre piece dir) :
    ∃ earlier later, segmentPaths dir = earlier ++ path :: later ∧ path ∉ earlier ∧
      path ∉ later := by
  obtain ⟨earlier, later, paths⟩ := append_of_mem h.listed
  have uniq : (segmentPaths dir).Nodup := segmentPaths_nodup
  rw [paths, nodup_append] at uniq
  obtain ⟨-, rest, apart⟩ := uniq
  exact ⟨earlier, later, paths, fun hin => apart path hin path (by simp) rfl,
    (nodup_cons.mp rest).1⟩

/-- The torn file is scanned last exactly if no other name sorts after it. -/
theorem Torn.later_eq_nil_iff (h : Torn codec front path held pre piece dir)
    (paths : segmentPaths dir = earlier ++ path :: later) (unique : path ∉ later) :
    later = [] ↔ ∀ file ∈ front, file.path ≤ path := by
  have sorted := segmentPaths_sorted dir
  rw [paths, pairwise_append, pairwise_cons] at sorted
  constructor
  · rintro rfl file mem
    have listed := h.laid.mem_segmentPaths_of_mem mem
    rw [paths, mem_append, mem_singleton] at listed
    rcases listed with hin | same
    · exact sorted.2.2 file.path hin path (by simp)
    · exact absurd same (h.absent file mem)
  · intro below
    refine eq_nil_iff_forall_not_mem.mpr fun name mem => ?_
    have differs : name ≠ path := fun same => unique (same ▸ mem)
    have listed : name ∈ segmentPaths dir := by
      rw [paths]
      simp [mem]
    obtain ⟨file, hin, rfl⟩ := h.complete name (mem_segmentPaths.mp listed).1 differs
    exact differs (String.le_antisymm (below file hin) (sorted.2.1.1 file.path mem))

/-- What the recovery loop makes of the torn file. -/
theorem Torn.recoverSegments (h : Torn codec front path held pre piece dir)
    (paths : segmentPaths dir = earlier ++ path :: later) (fst : path ∉ earlier)
    (unique : path ∉ later) :
    (later = [] ∧ piece.length < raftFrameHeaderSize →
      ∃ final, DurableRaftStorage.recoverSegments codec (segmentPaths dir).getLast?
          { logDir := dir } (segmentPaths dir) = .ok final ∧
        final.logDir = dir.insert path pre ∧
        final.entries = earlier.flatMap (entriesIn front) ++ held ∧
        summaries final.segments =
          found (entriesIn front) earlier ++ found (fun _ => held) [path]) ∧
    (¬ (later = [] ∧ piece.length < raftFrameHeaderSize) →
      ∃ e, DurableRaftStorage.recoverSegments (δ := δ) codec (segmentPaths dir).getLast?
        { logDir := dir } (segmentPaths dir) = .error e) := by
  have readable : ∀ name ∈ earlier, Framed codec
      (Recovery.logDir (δ := δ) { logDir := dir }) (entriesIn front) name := by
    intro name mem
    refine h.laid.reads fun same => fst ?_
    rw [← Option.some.inj same]
    exact mem
  obtain ⟨mid, reached, midDir, midEntries, midSegments⟩ := recoverSegments_framed readable
  have onward := recoverSegments_append (path :: later) reached
  rw [← paths] at onward
  have isLast : (segmentPaths dir).getLast? = some path ↔ later = [] := by
    rw [paths, getLast?_append_cons]
    cases later with
    | nil => simp
    | cons name rest =>
      simp only [getLast?_cons_cons, reduceCtorEq, iff_false]
      intro found
      exact unique (mem_of_getLast? found)
  obtain ⟨reason, refused⟩ := h.refused
  obtain ⟨forgiven, strict⟩ := scanSegment_torn h.carried h.encoded h.nonempty refused
  have buffer : (mid.logDir.lookup path).getD [] = pre ++ piece := by
    rw [midDir, h.content]
    rfl
  rw [← buffer] at forgiven strict
  rw [onward]
  constructor
  · intro tail
    obtain ⟨next, stepped, nextDir, nextEntries, nextSegments⟩ :=
      recoverSegment_scanned (forgiven ⟨decide_eq_true (isLast.mpr tail.1), tail.2⟩)
    refine ⟨next, ?_, ?_, ?_, ?_⟩
    · rw [tail.1]
      simp [DurableRaftStorage.recoverSegments, stepped]
    · rw [nextDir, buffer, midDir]
      simp
    · rw [nextEntries, midEntries]
      simp
    · rw [nextSegments, midSegments]
      simp [summaries]
  · intro tail
    obtain ⟨e, failed⟩ := strict fun both => tail ⟨isLast.mp (of_decide_eq_true both.1), both.2⟩
    refine ⟨e, ?_⟩
    simp [DurableRaftStorage.recoverSegments, recoverSegment, failed]

section
variable {front : List (SegmentFile δ)}

def leftFiles (front : List (SegmentFile δ)) (path : String) (held : List (RaftLogEntry δ)) :
    List (SegmentFile δ) :=
  if held.isEmpty then front else front ++ [⟨path, held⟩]

theorem leftFiles_entries : (leftFiles front path held).flatMap SegmentFile.entries =
      front.flatMap SegmentFile.entries ++ held := by
  cases held with
  | nil => simp [leftFiles]
  | cons fst rest => simp [leftFiles, flatMap_append]

theorem leftFiles_summaries :
    (leftFiles front path held).map (fun file => (file.path, file.entries.length)) =
      front.map (fun file => (file.path, file.entries.length)) ++ found (fun _ => held) [path] := by
  cases held with
  | nil | cons => simp [leftFiles, found]

theorem Laid.truncate (h : Laid codec (some path) front dir)
    (absent : ∀ file ∈ front, file.path ≠ path)
    (named : ∀ fst, held.head? = some fst → path = segmentFileName fst.index)
    (rising : Rising (front.flatMap SegmentFile.entries ++ held))
    (carried : ∀ e ∈ held, codec.entry.RoundTrips e)
    (encoded : encodeAll codec.entry held = .ok pre) :
    Laid codec none (leftFiles front path held) (dir.insert path pre) := by
  cases held with
  | nil =>
    cases encoded
    exact h.clear absent
  | cons fst rest => exact h.write absent rfl (named fst rfl) rising carried encoded

theorem inOrder_concat :
    InOrder (front ++ [last]) ↔ InOrder front ∧ ∀ file ∈ front, file.path ≤ last.path := by
  simp [InOrder, pairwise_append]

theorem Torn.scanned (h : Torn codec front path held pre piece dir)
    (paths : segmentPaths dir = earlier ++ [path]) :
    earlier.flatMap (entriesIn front) = (segmentPaths dir).flatMap (entriesIn front) ∧
      found (entriesIn front) earlier = found (entriesIn front) (segmentPaths dir) := by
  rw [paths]
  simp [found, entriesIn_eq_nil h.absent]

/-- A torn file is forgiven if it is scanned last and little of the record is there. -/
theorem Torn.opened {disk : Disk} (h : Torn codec front path held pre piece disk.logDir)
    (bare : Bare disk)
    (named : ∀ fst, held.head? = some fst → path = segmentFileName fst.index)
    (rising : Rising (front.flatMap SegmentFile.entries ++ held))
    (short : piece.length < raftFrameHeaderSize) (sorted : InOrder front)
    (final : ∀ file ∈ front, file.path ≤ path) :
    ∃ reopened, openDir codec disk = .ok reopened ∧
      reopened.memoryCache.log = recoveredLog (front.flatMap SegmentFile.entries ++ held) ∧
      Written codec (leftFiles front path held) reopened := by
  obtain ⟨earlier, later, paths, fst, unique⟩ := h.split
  obtain rfl := (h.later_eq_nil_iff paths unique).mpr final
  obtain ⟨recovery, recovered, dir, ents, segs⟩ :=
    (h.recoverSegments paths fst unique).1 ⟨rfl, short⟩
  obtain ⟨scanned, listed⟩ := h.scanned paths
  refine ⟨_, by rw [openDir_bare bare, recovered]; rfl, ?_, ?_, ?_, bare⟩
  · show recoveredLog recovery.entries = _
    rw [ents, scanned, h.laid.scanned_iff.mpr sorted]
  · show Laid codec none _ recovery.logDir
    rw [dir]
    exact h.laid.truncate h.absent named rising h.carried h.encoded
  · show summaries recovery.segments = _
    rw [segs, listed, h.laid.found_eq sorted, leftFiles_summaries]

theorem Torn.forgiven {disk : Disk} (h : Torn codec front path held pre piece disk.logDir)
    (bare : Bare disk)
    (recovers : Recovers codec disk (front.flatMap SegmentFile.entries ++ held)) :
    piece.length < raftFrameHeaderSize ∧ InOrder front ∧ ∀ file ∈ front, file.path ≤ path := by
  obtain ⟨earlier, later, paths, fst, unique⟩ := h.split
  obtain ⟨reopened, opened, log⟩ := recovers
  obtain ⟨forgiven, strict⟩ := h.recoverSegments paths fst unique
  by_cases tail : later = [] ∧ piece.length < raftFrameHeaderSize
  · obtain ⟨rfl, short⟩ := tail
    obtain ⟨recovery, recovered, -, ents, -⟩ := forgiven ⟨rfl, short⟩
    rw [openDir_bare bare, recovered] at opened
    cases opened
    obtain ⟨scanned, -⟩ := h.scanned paths
    rw [scanned] at ents
    have lengths := h.laid.scanned_perm.length_eq
    have same := recoveredLog_injective (by rw [ents]; simp [lengths]) log
    rw [ents] at same
    exact ⟨short, h.laid.scanned_iff.mp (append_cancel_right same),
      (h.later_eq_nil_iff paths unique).mp rfl⟩
  · obtain ⟨reason, refused⟩ := strict tail
    rw [openDir_bare bare, refused] at opened
    cases opened

end

/-- The last file of a log that ends in `last`, taken apart. -/
theorem Written.last_file (h : Written codec files sto)
    (all : files.flatMap SegmentFile.entries = front ++ [last])
    (framed : encodeFramedRecord codec.entry last = .ok lastFrame) :
    ∃ (init : List (SegmentFile δ)) (path : String) (held : List (RaftLogEntry δ))
      (pre : Bytes), files = init ++ [⟨path, held ++ [last]⟩] ∧
      init.flatMap SegmentFile.entries ++ held = front ∧
      encodeAll codec.entry held = .ok pre ∧
      sto.disk.logDir.lookup path = some (pre ++ lastFrame) := by
  obtain ⟨init, file, rfl⟩ : ∃ init file, files = init ++ [file] := by
    rcases eq_nil_or_concat files with rfl | ⟨init, file, rfl⟩
    · simp at all
    · exact ⟨init, file, by simp⟩
  have filled := h.laid.filled (show file ∈ init ++ [file] by simp)
  obtain ⟨held, final, ents⟩ : ∃ held final, file.entries = held ++ [final] :=
    ⟨_, _, (dropLast_concat_getLast filled).symm⟩
  rw [flatMap_append, flatMap_singleton, ents, ← append_assoc] at all
  obtain ⟨earlier, single⟩ := append_inj' all rfl
  obtain rfl : final = last := by simpa using single
  obtain ⟨bytes, found, encoded⟩ := h.laid.framed file (by simp)
  rw [ents] at encoded
  obtain ⟨pre, payload, heldEncoded, ser, rfl⟩ := encodeAll_concat encoded
  have lastFramed : lastFrame = frame payload := by
    simpa [encodeFramedRecord, ser] using framed.symm
  refine ⟨init, file.path, held, pre, ?_, earlier, heldEncoded, ?_⟩
  · rw [← ents]
  · rw [found, lastFramed]

section
variable {sto : DurableRaftStorage δ} {init : List (SegmentFile δ)} {path : String}
  {held : List (RaftLogEntry δ)} {last : RaftLogEntry δ}
  (h : Written codec (init ++ [⟨path, held ++ [last]⟩]) sto)

include h

theorem Written.last_segment : ∃ seg, sto.segments.getLast? = some seg ∧ seg.filePath = path ∧
      seg.entryCount = held.length + 1 := by
  have summary := congrArg getLast? h.segments
  simp only [summaries, map_append, map_cons, map_nil, getLast?_map,
    getLast?_concat, length_append, length_singleton] at summary
  obtain ⟨seg, found, pair⟩ := Option.map_eq_some_iff.mp summary
  exact ⟨seg, found, (Prod.mk.inj pair).1, (Prod.mk.inj pair).2⟩

theorem Written.cutLast
    (content : sto.disk.logDir.lookup path = some (pre ++ lastFrame)) (kept : Nat) :
    sto.cutLast lastFrame.length kept = { sto.disk with
      logDir := sto.disk.logDir.insert path (pre ++ lastFrame.take kept) } := by
  obtain ⟨seg, found, rfl, -⟩ := h.last_segment
  simp [DurableRaftStorage.cutLast, found, content, take_length_add_append]

/-- The segments left are those of the files left, as long as no byte of the record is. -/
theorem Written.leftSegments_iff :
    NamesSorted (sto.leftSegments kept) ↔ if kept = 0 then InOrder (leftFiles init path held)
      else InOrder init ∧ ∀ file ∈ init, file.path ≤ path := by
  obtain ⟨seg, found, -, count⟩ := h.last_segment
  have whole := h.namesSorted_iff
  rw [inOrder_concat] at whole
  by_cases none : kept = 0
  · rw [if_pos none]
    cases held with
    | nil =>
      have names := congrArg dropLast h.paths
      rw [map_append, map_singleton, dropLast_concat, ← map_dropLast] at names
      have gone : sto.leftSegments kept = sto.segments.dropLast := by
        rw [leftSegments, if_pos ⟨none, by rw [found, Option.map_some, count]; rfl⟩]
      rw [gone, NamesSorted, names]
      rfl
    | cons fst rest =>
      have stays : sto.leftSegments kept = sto.segments := by
        rw [leftSegments, if_neg]
        rintro ⟨-, single⟩
        rw [found, Option.map_some, count] at single
        simp at single
      rw [stays, whole, leftFiles, if_neg (by simp), inOrder_concat]
  · have stays : sto.leftSegments kept = sto.segments := if_neg fun both => none both.1
    rw [if_neg none, stays, whole]

theorem Written.held_rising : Rising (init.flatMap SegmentFile.entries ++ held) := by
  have all : Rising (init.flatMap SegmentFile.entries ++ (held ++ [last])) := by
    simpa [flatMap_append] using h.laid.rising
  rw [← append_assoc] at all
  exact (pairwise_append.mp all).1

theorem Written.held_named : ∀ fst, held.head? = some fst → path = segmentFileName fst.index := by
  intro fst head
  obtain ⟨start, startHead, name⟩ := h.laid.named ⟨path, held ++ [last]⟩ (by simp)
  rw [head?_append, head] at startHead
  rw [Option.some.inj startHead]
  exact name

theorem Written.held_carried : ∀ e ∈ held, codec.entry.RoundTrips e :=
  fun e mem => h.laid.carried e (by simp [mem])

/-- A cut inside the record leaves a piece that does not decode. -/
theorem Written.torn (complete : Complete (init ++ [⟨path, held ++ [last]⟩]) sto.disk.logDir)
    (encoded : encodeAll codec.entry held = .ok pre)
    (framed : encodeFramedRecord codec.entry last = .ok lastFrame)
    (hin : kept < lastFrame.length) (some_bytes : 0 < kept) :
    Torn codec init path held pre (lastFrame.take kept)
      (sto.disk.logDir.insert path (pre ++ lastFrame.take kept)) := by
  have absent : ∀ file ∈ init, file.path ≠ path := not_mem_paths_of_nodup h.laid.distinct
  obtain ⟨payload, ser, fits, -⟩ := h.laid.carried last (by simp)
  obtain rfl : frame payload = lastFrame := by
    simpa [encodeFramedRecord, ser] using framed
  refine ⟨h.laid.release.overwrite absent _, absent, ?_, ?_, AList.lookup_insert _,
    h.held_carried, encoded, ?_, decodeFramedRecord_torn fits hin⟩
  · intro name mem differs
    obtain ⟨file, present, here⟩ := complete name (by simpa [differs] using mem)
    rcases mem_append.mp present with old | new
    · exact ⟨file, old, here⟩
    · rw [mem_singleton.mp new] at here
      exact absurd here.symm differs
  · obtain ⟨start, -, name⟩ := h.laid.named ⟨path, held ++ [last]⟩ (by simp)
    refine mem_segmentPaths.mpr ⟨by simp, ?_⟩
    rw [show path = segmentFileName start.index from name]
    exact hasRlogExtension_segmentFileName
  · rw [← length_pos_iff, length_take]
    omega

/-- What `open` makes of the cut, and the files it goes on with. -/
theorem Written.crash (complete : Complete (init ++ [⟨path, held ++ [last]⟩]) sto.disk.logDir)
    (encoded : encodeAll codec.entry held = .ok pre)
    (framed : encodeFramedRecord codec.entry last = .ok lastFrame)
    (content : sto.disk.logDir.lookup path = some (pre ++ lastFrame))
    (hin : kept < lastFrame.length) :
    (Recovers codec (sto.cutLast lastFrame.length kept) (init.flatMap SegmentFile.entries ++ held) ↔
      kept < raftFrameHeaderSize ∧ NamesSorted (sto.leftSegments kept)) ∧
    (kept < raftFrameHeaderSize ∧ NamesSorted (sto.leftSegments kept) →
      ∃ reopened, openDir codec (sto.cutLast lastFrame.length kept) = .ok reopened ∧
        Written codec (leftFiles init path held) reopened) := by
  rw [h.cutLast content, h.leftSegments_iff]
  by_cases start : kept = 0
  · subst start
    have laid := h.laid.release.truncate (not_mem_paths_of_nodup h.laid.distinct) h.held_named
      h.held_rising h.held_carried encoded
    have bare : Bare { sto.disk with logDir := sto.disk.logDir.insert path pre } := h.bare
    have hdr : 0 < raftFrameHeaderSize := by decide
    rw [take_zero, append_nil, if_pos rfl, ← leftFiles_entries, laid.recovers_iff bare]
    refine ⟨⟨fun sorted => ⟨hdr, sorted⟩, And.right⟩, ?_⟩
    rintro ⟨-, sorted⟩
    obtain ⟨reopened, opened, -, written⟩ := laid.opened bare
    exact ⟨reopened, opened, written sorted⟩
  · have torn := h.torn complete encoded framed hin (Nat.pos_of_ne_zero start)
    have size : (lastFrame.take kept).length = kept := by
      rw [length_take]
      omega
    have bare : Bare { sto.disk with
        logDir := sto.disk.logDir.insert path (pre ++ lastFrame.take kept) } := h.bare
    rw [if_neg start]
    have opens : kept < raftFrameHeaderSize ∧ InOrder init ∧ (∀ file ∈ init, file.path ≤ path) →
        ∃ reopened, openDir codec { sto.disk with
            logDir := sto.disk.logDir.insert path (pre ++ lastFrame.take kept) } = .ok reopened ∧
          reopened.memoryCache.log = recoveredLog (init.flatMap SegmentFile.entries ++ held) ∧
          Written codec (leftFiles init path held) reopened := by
      rintro ⟨short, sorted, final⟩
      rw [← size] at short
      exact torn.opened bare h.held_named h.held_rising short sorted final
    refine ⟨⟨fun recovers => ?_, fun short => ?_⟩, fun short => ?_⟩
    · have forgiven := torn.forgiven bare recovers
      rwa [size] at forgiven
    · obtain ⟨reopened, opened, log, -⟩ := opens short
      exact ⟨reopened, opened, log⟩
    · obtain ⟨reopened, opened, -, written⟩ := opens short
      exact ⟨reopened, opened, written⟩

end

/-- A log is written by appends and a crash keeps `kept` bytes of its last record.  Opening
    the store gives exactly the earlier entries if fewer bytes are left than a frame header
    has and the names of the files sort as the files were started.  What is then appended is
    read back by the next open if the names still sort.  They do below index `10 ^ 16`. -/
theorem torn_tail_recovered_iff (codec : RaftCodec δ) (batches : List (List (RaftLogEntry δ)))
    (front : List (RaftLogEntry δ)) (last : RaftLogEntry δ)
    (ents : batches.flatten = front ++ [last]) (rising : Rising (front ++ [last]))
    (carried : ∀ e ∈ front ++ [last], codec.entry.RoundTrips e) (lastFrame : Bytes)
    (framed : encodeFramedRecord codec.entry last = .ok lastFrame) (kept : Nat)
    (hin : kept < lastFrame.length) :
    ∃ sto, session codec (batches.map .appendEntries) = .ok sto ∧
      (Recovers codec (sto.cutLast lastFrame.length kept) front ↔
        kept < raftFrameHeaderSize ∧ NamesSorted (sto.leftSegments kept)) ∧
      ((∀ e ∈ front ++ [last], e.index < 10 ^ 16) → NamesSorted (sto.leftSegments kept)) ∧
      ∀ reopened, openDir codec (sto.cutLast lastFrame.length kept) = .ok reopened →
        reopened.memoryCache.log = recoveredLog front →
        ∀ later : List (List (RaftLogEntry δ)), Rising (front ++ later.flatten) →
          (∀ e ∈ later.flatten, codec.entry.RoundTrips e) →
          ∃ final, reopened.run codec (later.map .appendEntries) = .ok final ∧
            (Recovers codec final.disk (front ++ later.flatten) ↔ NamesSorted final.segments) ∧
            ((∀ e ∈ front ++ later.flatten, e.index < 10 ^ 16) → NamesSorted final.segments) := by
  rw [← ents] at rising carried
  obtain ⟨sto, files, ran, written, all, complete⟩ := session_written batches rising carried
  obtain ⟨init, path, held, pre, rfl, rfl, encoded, content⟩ :=
    written.last_file (all.trans ents) framed
  obtain ⟨recovers, reopens⟩ := written.crash complete encoded framed content hin
  refine ⟨sto, ran, recovers, ?_, ?_⟩
  · intro small
    rw [← ents, ← all] at small
    have sorted := written.namesSorted_iff.mpr (written.laid.inOrder_of_lt small)
    exact sorted.sublist ((leftSegments_sublist sto).map LogSegmentMeta.filePath)
  · intro reopened opened log later risingLater carriedLater
    obtain ⟨other, opened', left⟩ := reopens (recovers.mp ⟨reopened, opened, log⟩)
    rw [opened] at opened'
    cases opened'
    rw [← leftFiles_entries] at risingLater ⊢
    obtain ⟨final, files', done, grown, total, -⟩ := left.run later risingLater carriedLater
    rw [← total]
    refine ⟨final, done, ?_, ?_⟩
    · rw [grown.laid.recovers_iff grown.bare, grown.namesSorted_iff]
    · intro small
      exact grown.namesSorted_iff.mpr (grown.laid.inOrder_of_lt small)

/-- The log of a single entry, and the frame that it is written as. -/
def singleEntry : RaftLogEntry Empty := ⟨1, 1, .noOp⟩

def singleFrame : Bytes := frame (toLe 8 1 ++ toLe 8 1 ++ toLe 4 3)

theorem singleEntry_carried : ∀ e ∈ [singleEntry], bareCodec.entry.RoundTrips e := by
  intro e mem
  obtain rfl := mem_singleton.mp mem
  exact bareCodec_roundTrips (by decide) (by decide)

theorem length_singleFrame : singleFrame.length = 34 := by
  simp [singleFrame, raftFrameHeaderSize]

/-- Six bytes of the only record: the store opens without it. -/
theorem torn_header_recovered : ∃ sto, session bareCodec [.appendEntries [singleEntry]] = .ok sto ∧
      Recovers bareCodec (sto.cutLast singleFrame.length 6) [] := by
  obtain ⟨sto, ran, recovers, sorted, -⟩ := torn_tail_recovered_iff bareCodec [[singleEntry]]
    [] singleEntry rfl (pairwise_singleton _ _) singleEntry_carried singleFrame rfl 6
    (by rw [length_singleFrame]; decide)
  refine ⟨sto, ran, recovers.mpr ⟨by decide, sorted ?_⟩⟩
  intro e mem
  obtain rfl := mem_singleton.mp mem
  decide

/-- Twenty bytes of the only record, its header and a part of the payload. -/
theorem torn_payload_is_not_recovered :
    ∃ sto, session bareCodec [.appendEntries [singleEntry]] = .ok sto ∧
      ¬ Recovers bareCodec (sto.cutLast singleFrame.length 20) [] := by
  obtain ⟨sto, files, ran, written, all, complete⟩ := session_written [[singleEntry]]
    (pairwise_singleton _ _) singleEntry_carried
  have framed : encodeFramedRecord bareCodec.entry singleEntry = .ok singleFrame := rfl
  have single : files.flatMap SegmentFile.entries = [] ++ [singleEntry] := all
  obtain ⟨init, path, held, pre, rfl, none, encoded, content⟩ := written.last_file single framed
  have crashed := (written.crash complete encoded framed content
    (by rw [length_singleFrame]; decide : 20 < singleFrame.length)).1
  refine ⟨sto, ran, fun recovers => ?_⟩
  rw [← none] at recovers
  exact absurd (crashed.mp recovers).1 (by decide)

end HoloSphere.Consensus.DurableRaftStorage
