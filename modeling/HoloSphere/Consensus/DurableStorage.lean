import HoloSphere.Consensus.Frame
import HoloSphere.Consensus.MemoryStorage
import Mathlib.Data.List.AList
import Mathlib.Data.List.Sort

/-! # The durable Raft store

`DurableRaftStorage` of `consensus/storage.rs`: log segments in `.rlog` files, the
metadata kept of them, and a `MemoryRaftStorage` that answers every read.  The
file system returns what was written and carries out every call, so the only
errors left are those of the serialiser and of the recovery scan.
-/

namespace HoloSphere.Consensus
open Format
variable {δ : Type}

structure LogSegmentMeta where
  startIndex : Nat
  endIndex : Nat
  entryCount : Nat
  byteSize : Nat
  filePath : String
  deriving DecidableEq

/-- The files of a directory by name. -/
abbrev Directory := AList (fun _ : String => Bytes)

/-- The directory a store is opened on: the metadata files, the single-file log of
    older versions and the content of `log/`. -/
structure Disk where
  stateFile : Option Bytes := none
  progressFile : Option Bytes := none
  snapshotFile : Option Bytes := none
  legacyLogFile : Option Bytes := none
  logDir : Directory := ∅

/-- The serialisers of everything the store keeps in files. -/
structure RaftCodec (δ : Type) where
  entry : Serde (RaftLogEntry δ)
  hardState : Serde RaftHardState
  progress : Serde RaftPersistentProgress
  snapshotMeta : Serde RaftSnapshotMeta

structure DurableRaftStorage (δ : Type) where
  disk : Disk
  segments : List LogSegmentMeta := []
  memoryCache : MemoryRaftStorage δ := .new

def maxEntriesPerSegment : Nat := 10000
def maxSegmentBytes : Nat := 16 * 1024 * 1024

/-- `{start_idx:016}.rlog` -/
def segmentFileName (startIdx : Nat) : String :=
  let digits := Nat.toDigits 10 startIdx
  String.ofList (List.replicate (16 - digits.length) '0' ++ digits ++ ['.', 'r', 'l', 'o', 'g'])

/-- The file name has a stem and the extension `rlog`. -/
def hasRlogExtension (name : String) : Bool :=
  ['.', 'r', 'l', 'o', 'g'].isSuffixOf name.toList && 5 < name.toList.length

namespace DurableRaftStorage

/-- A metadata file, if it exists and is not empty. -/
def recoverRecord {α : Type} (serde : Serde α) (default : α) : Option Bytes → Except HNSQRError α
  | none => .ok default
  | some [] => .ok default
  | some bytes => (decodeFramedRecord serde bytes).map Prod.fst

/-- The records of a buffer up to the first that does not decode.  A frame is never
    empty, so the length of the buffer is enough fuel. -/
def decodeFrames (codec : RaftCodec δ) (buffer : Bytes) :
    Nat → Nat → List (RaftLogEntry δ) → List (RaftLogEntry δ)
  | 0, _, entries => entries
  | fuel + 1, offset, entries =>
    if offset < buffer.length then
      match decodeFramedRecord codec.entry (buffer.drop offset) with
      | .ok (entry, frameLen) =>
        decodeFrames codec buffer fuel (offset + frameLen) (entries ++ [entry])
      | .error _ => entries
    else entries

/-- A single-file log is moved into the first segment file. -/
def migrateLegacyLog (codec : RaftCodec δ) (disk : Disk) : Except HNSQRError Disk :=
  match disk.legacyLogFile with
  | none => .ok disk
  | some buffer =>
    match decodeFrames codec buffer buffer.length 0 [] with
    | [] => .ok { disk with legacyLogFile := none }
    | entries =>
      match encodeAll codec.entry entries with
      | .error e => .error e
      | .ok framed => .ok { disk with
          legacyLogFile := none
          logDir := disk.logDir.insert (segmentFileName 1) framed }

structure SegmentScan (δ : Type) where
  entries : List (RaftLogEntry δ)
  lastValidOffset : Nat
  torn : Bool

/-- The scan of one segment file.  Only a tail of the last file that is shorter than
    a frame header is taken for a torn record. -/
def scanSegment (codec : RaftCodec δ) (name : String) (isLast : Bool) (buffer : Bytes) :
    Nat → Nat → List (RaftLogEntry δ) → Except HNSQRError (SegmentScan δ)
  | 0, offset, entries => .ok ⟨entries, offset, false⟩
  | fuel + 1, offset, entries =>
    if offset < buffer.length then
      match decodeFramedRecord codec.entry (buffer.drop offset) with
      | .ok (entry, frameLen) =>
        scanSegment codec name isLast buffer fuel (offset + frameLen) (entries ++ [entry])
      | .error error =>
        if isLast ∧ offset + raftFrameHeaderSize > buffer.length then
          .ok ⟨entries, offset, true⟩
        else
          let reason := error.display
          .error (.internal (s!"Corrupted Raft log frame in segment Some(\"{name}\") " ++
            s!"at offset {offset}: {reason}"))
    else .ok ⟨entries, offset, false⟩

structure Recovery (δ : Type) where
  logDir : Directory
  segments : List LogSegmentMeta := []
  entries : List (RaftLogEntry δ) := []

def recoverSegment (codec : RaftCodec δ) (lastPath : Option String) (recovery : Recovery δ)
    (path : String) : Except HNSQRError (Recovery δ) :=
  let buffer := (recovery.logDir.lookup path).getD []
  match scanSegment codec path (decide (lastPath = some path)) buffer buffer.length 0 [] with
  | .error e => .error e
  | .ok scan =>
    let logDir :=
      if scan.torn then recovery.logDir.insert path (buffer.take scan.lastValidOffset)
      else recovery.logDir
    match scan.entries.head?, scan.entries.getLast? with
    | some fst, some last =>
      .ok ⟨logDir, recovery.segments ++
          [⟨fst.index, last.index, scan.entries.length, scan.lastValidOffset, path⟩],
        recovery.entries ++ scan.entries⟩
    | _, _ => .ok { recovery with logDir := logDir }

def segmentPaths (logDir : Directory) : List String :=
  (logDir.keys.filter hasRlogExtension).insertionSort (· ≤ ·)

def recoverSegments (codec : RaftCodec δ) (lastPath : Option String) :
    Recovery δ → List String → Except HNSQRError (Recovery δ)
  | recovery, [] => .ok recovery
  | recovery, path :: rest =>
    match recoverSegment codec lastPath recovery path with
    | .error e => .error e
    | .ok next => recoverSegments codec lastPath next rest

/-- The log of a fresh cache is only replaced by one that is not empty. -/
def recoveredLog (entries : List (RaftLogEntry δ)) : List (RaftLogEntry δ) :=
  if entries.isEmpty then [.sentinel] else entries

/-- `DurableRaftStorage::open`. -/
def openDir (codec : RaftCodec δ) (disk : Disk) : Except HNSQRError (DurableRaftStorage δ) := do
  let hardState ← recoverRecord codec.hardState {} disk.stateFile
  let prog ← recoverRecord codec.progress {} disk.progressFile
  let snapshotMeta ← recoverRecord codec.snapshotMeta {} disk.snapshotFile
  let migrated ← migrateLegacyLog codec disk
  let paths := segmentPaths migrated.logDir
  let recovery ← recoverSegments codec paths.getLast? { logDir := migrated.logDir } paths
  .ok {
    disk := { migrated with logDir := recovery.logDir }
    segments := recovery.segments
    memoryCache := {
      hardState := hardState
      progress := prog
      snapshotMeta := snapshotMeta
      log := recoveredLog recovery.entries } }

def needRotation (segs : List LogSegmentMeta) : Bool :=
  match segs.getLast? with
  | none => true
  | some last => maxEntriesPerSegment ≤ last.entryCount || maxSegmentBytes ≤ last.byteSize

def appendEntriesSegmented (codec : RaftCodec δ) (entries : List (RaftLogEntry δ))
    (sto : DurableRaftStorage δ) : Except HNSQRError (DurableRaftStorage δ) :=
  match entries.head?, entries.getLast? with
  | some fst, some last =>
    match encodeAll codec.entry entries with
    | .error e => .error e
    | .ok framedBytes =>
      match needRotation sto.segments, sto.segments.getLast? with
      | false, some lastSeg =>
        let content := (sto.disk.logDir.lookup lastSeg.filePath).getD []
        .ok { sto with
          disk := { sto.disk with
            logDir := sto.disk.logDir.insert lastSeg.filePath (content ++ framedBytes) }
          segments := sto.segments.dropLast ++ [{ lastSeg with
              endIndex := last.index
              entryCount := lastSeg.entryCount + entries.length
              byteSize := lastSeg.byteSize + framedBytes.length }] }
      | _, _ =>
        let path := segmentFileName fst.index
        .ok { sto with
          disk := { sto.disk with
            logDir := sto.disk.logDir.insert path framedBytes }
          segments := sto.segments ++
            [⟨fst.index, last.index, entries.length, framedBytes.length, path⟩] }
  | _, _ => .ok sto

def appendEntries (codec : RaftCodec δ) (entries : List (RaftLogEntry δ))
    (sto : DurableRaftStorage δ) : Except HNSQRError (DurableRaftStorage δ) :=
  match sto.appendEntriesSegmented codec entries with
  | .error e => .error e
  | .ok stored =>
    .ok { stored with memoryCache := (stored.memoryCache.appendEntries .none entries).1 }

/-- `segments.retain`, deleting the files of the segments that go. -/
def retainSegments (keep : LogSegmentMeta → Bool) (sto : DurableRaftStorage δ) :
    DurableRaftStorage δ :=
  { sto with
    disk := { sto.disk with
      logDir := (sto.segments.filter fun seg => !keep seg).foldl
        (fun dir seg => dir.erase seg.filePath) sto.disk.logDir }
    segments := sto.segments.filter keep }

/-- The boundary segment is rewritten from the entries which the memory cache holds
    from the position of its start index on. -/
def pruneBoundary (codec : RaftCodec δ) (fromIndex : Nat) (sto : DurableRaftStorage δ) :
    Except HNSQRError (DurableRaftStorage δ) :=
  match sto.segments.getLast? with
  | none => .ok sto
  | some boundarySeg =>
    if boundarySeg.endIndex ≥ fromIndex then
      let kept := (sto.memoryCache.log.drop boundarySeg.startIndex).takeWhile
        fun entry => entry.index < fromIndex
      match encodeAll codec.entry kept with
      | .error e => .error e
      | .ok keptFrames =>
        .ok { sto with
          disk := { sto.disk with
            logDir := sto.disk.logDir.insert boundarySeg.filePath keptFrames }
          segments := sto.segments.dropLast ++ [{ boundarySeg with
              endIndex := (kept.getLast?.map RaftLogEntry.index).getD boundarySeg.startIndex
              entryCount := kept.length
              byteSize := keptFrames.length }] }
    else .ok sto

def truncateSuffix (codec : RaftCodec δ) (fromIndex : Nat) (sto : DurableRaftStorage δ) :
    Except HNSQRError (DurableRaftStorage δ) :=
  let cached := { sto with
    memoryCache := (sto.memoryCache.truncateSuffix .none fromIndex).1 }
  (cached.retainSegments fun seg => seg.startIndex < fromIndex).pruneBoundary codec fromIndex

def compactPrefix (snapshotIndex : Nat) (sto : DurableRaftStorage δ) : DurableRaftStorage δ :=
  sto.retainSegments fun seg => snapshotIndex < seg.endIndex

def loadLogEntries (fromIndex : Nat) (sto : DurableRaftStorage δ) : List (RaftLogEntry δ) :=
  sto.memoryCache.loadLogEntries fromIndex

end DurableRaftStorage
end HoloSphere.Consensus
