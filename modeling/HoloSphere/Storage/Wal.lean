import HoloSphere.Consensus.Frame
import HoloSphere.Storage.Segment

/-! # The write-ahead log

`WalManager` of `storage/wal.rs` as one thread uses it: the frame header, `append` with
segment rotation, and `replay`.  The directory is the list of its segment files in the
order of their ids, as `replay` sorts them.  What the disk does to a call is an argument
of it.  The serialiser is a parameter; metrics are left out.
-/

namespace HoloSphere.Storage
open Format Consensus

def walMagic : Bytes := [0x48, 0x57, 0x41, 0x4C]
def walVersion : Nat := 1
def walHeaderSize : Nat := 36

inductive WalRecordType where
  | upsert
  | delete
  | metadataUpdate
  | checkpoint
  | clusterState
  deriving DecidableEq

namespace WalRecordType

def toU16 : WalRecordType → Nat
  | .upsert => 1
  | .delete => 2
  | .metadataUpdate => 3
  | .checkpoint => 4
  | .clusterState => 5

def fromU16 : Nat → Option WalRecordType
  | 1 => some .upsert
  | 2 => some .delete
  | 3 => some .metadataUpdate
  | 4 => some .checkpoint
  | 5 => some .clusterState
  | _ => none

end WalRecordType

structure WalFrameHeader where
  magic : Bytes
  version : Nat
  recordType : Nat
  lsn : Nat
  prevLsn : Nat
  payloadLen : Nat
  crc32c : Nat
  deriving DecidableEq

namespace WalFrameHeader

/-- The last four bytes are reserved and zero. -/
def encode (header : WalFrameHeader) : Bytes :=
  header.magic ++ (toLe 2 header.version ++ (toLe 2 header.recordType ++ (toLe 8 header.lsn ++
    (toLe 8 header.prevLsn ++ (toLe 4 header.payloadLen ++ (toLe 4 header.crc32c ++
      [0, 0, 0, 0]))))))

def decode (buf : Bytes) : Except HNSQRError WalFrameHeader :=
  let magic := buf.take 4
  let version := fromLe ((buf.drop 4).take 2)
  let recordTypeRaw := fromLe ((buf.drop 6).take 2)
  if magic ≠ walMagic then
    .error (.corruptedSnapshot "Invalid WAL frame magic identifier")
  else if version ≠ walVersion then
    .error (.corruptedSnapshot s!"Unsupported WAL version: {version}")
  else if WalRecordType.fromU16 recordTypeRaw = none then
    .error (.corruptedSnapshot s!"Unknown WAL record type: {recordTypeRaw}")
  else
    .ok {
      magic := magic
      version := version
      recordType := recordTypeRaw
      lsn := fromLe ((buf.drop 8).take 8)
      prevLsn := fromLe ((buf.drop 16).take 8)
      payloadLen := fromLe ((buf.drop 24).take 4)
      crc32c := fromLe ((buf.drop 28).take 4) }

end WalFrameHeader

inductive WalMutation where
  | upsert (extId : NodeId) (vector : VectorEmbedding) (md : Option Metadata)
  | delete (extId : NodeId)
  | metadataUpdate (extId : NodeId) (md : Metadata)
  | checkpoint (committedLsn manifestGeneration : Nat)
  | clusterState (epoch : Nat) (stateData : Bytes)

def WalMutation.recordType : WalMutation → WalRecordType
  | .upsert .. => .upsert
  | .delete .. => .delete
  | .metadataUpdate .. => .metadataUpdate
  | .checkpoint .. => .checkpoint
  | .clusterState .. => .clusterState

inductive DurabilityPolicy where
  | memory
  | walSync
  | walGroupCommit
  | quorum
  deriving DecidableEq

structure WalRecoverySummary where
  startLsn : Nat
  lastAppliedLsn : Nat
  totalReplayed : Nat
  tornRecordsSkipped : Nat
  activeSegmentCount : Nat
  deriving DecidableEq

structure WalSegment where
  id : Nat
  bytes : Bytes
  deriving DecidableEq

/-- What the disk does to an append: it goes through, the next segment cannot be opened, the
    writing stops after some of the bytes, or the bytes are there and the sync fails. -/
inductive DiskOutcome where
  | done
  | openFails (reason : String)
  | writeFails (reason : String) (kept : Nat)
  | syncFails (reason : String)
  deriving DecidableEq

/-- `segmentId` and `bytesWritten` belong to the active writer. -/
structure WalManager where
  walDir : String
  segments : List WalSegment
  maxSegmentBytes : Nat
  currentLsn : Nat
  lastSyncedLsn : Nat
  segmentId : Nat
  bytesWritten : Nat
  deriving DecidableEq

/-- Opening with `create`: a file that is not there is made empty. -/
def ensureSegment (id : Nat) (segs : List WalSegment) : List WalSegment :=
  if segs.any fun segment => segment.id = id then segs else segs ++ [⟨id, []⟩]

/-- The path of a segment, its id padded to sixteen digits. -/
def segmentPath (walDir : String) (id : Nat) : String :=
  let digits := Nat.toDigits 10 id
  let padded := String.ofList (List.replicate (16 - digits.length) '0' ++ digits)
  s!"{walDir}/wal_{padded}.wal"

namespace WalManager

/-- `open`, followed by `with_max_segment_bytes`. -/
def openDir (walDir : String) (maxSeg : Nat) (segs : List WalSegment) : WalManager :=
  let highestSegId := segs.foldl (fun top segment => max top segment.id) 0
  let segId := max highestSegId 1
  let segs := ensureSegment segId segs
  { walDir := walDir
    segments := segs
    maxSegmentBytes := max maxSeg (1024 * 1024)
    currentLsn := 0
    lastSyncedLsn := 0
    segmentId := segId
    bytesWritten := ((segs.find? fun segment => segment.id = segId).map
      fun segment => segment.bytes.length).getD 0 }

def RotationDue (wal : WalManager) : Prop := wal.maxSegmentBytes ≤ wal.bytesWritten

instance (wal : WalManager) : Decidable wal.RotationDue := Nat.decLe _ _

def nextSegment (wal : WalManager) : WalManager :=
  { wal with
    segments := ensureSegment (wal.segmentId + 1) wal.segments
    segmentId := wal.segmentId + 1
    bytesWritten := 0 }

def rotate (disk : DiskOutcome) (wal : WalManager) : Except HNSQRError WalManager :=
  if wal.RotationDue then
    match disk with
    | .openFails reason => .error (.ioError reason)
    | _ => .ok wal.nextSegment
  else .ok wal

/-- The active file is open for appending. -/
def writeAll (bytes : Bytes) (wal : WalManager) : WalManager :=
  { wal with
    segments := wal.segments.map fun segment =>
      if segment.id = wal.segmentId then { segment with bytes := segment.bytes ++ bytes }
      else segment }

def frameHeader (op : WalMutation) (prevLsn : Nat) (payload : Bytes) : WalFrameHeader where
  magic := walMagic
  version := walVersion
  recordType := op.recordType.toU16
  lsn := prevLsn + 1
  prevLsn := prevLsn
  payloadLen := payload.length % 2 ^ 32
  crc32c := (crc32 payload).toNat

def syncTargetLsn (tgtLsn : Nat) (disk : DiskOutcome) (wal : WalManager) :
    WalManager × Except HNSQRError Unit :=
  if tgtLsn ≤ wal.lastSyncedLsn then (wal, .ok ())
  else
    match disk with
    | .syncFails reason => (wal, .error (.ioError reason))
    | _ => ({ wal with lastSyncedLsn := wal.currentLsn }, .ok ())

/-- The part of `append` that holds the writer: the rotation if one is due, and the frame. -/
def writeRecord (op : WalMutation) (payload : Bytes) (disk : DiskOutcome)
    (wal : WalManager) : WalManager × Except HNSQRError Nat :=
  match wal.rotate disk with
  | .error e => (wal, .error e)
  | .ok wal =>
    let tgtLsn := wal.currentLsn + 1
    -- the addition panics when it overflows; nothing has been written then
    if 2 ^ 64 ≤ tgtLsn then (wal, .error (.internal "attempt to add with overflow"))
    else
      let frame := (frameHeader op wal.currentLsn payload).encode ++ payload
      match disk with
      | .writeFails reason kept =>
        (wal.writeAll (frame.dropLast.take kept), .error (.ioError reason))
      | _ =>
        ({ wal.writeAll frame with
          bytesWritten := wal.bytesWritten + (walHeaderSize + payload.length)
          currentLsn := tgtLsn }, .ok tgtLsn)

def append (serde : Serde WalMutation) (op : WalMutation) (policy : DurabilityPolicy)
    (disk : DiskOutcome) (wal : WalManager) : WalManager × Except HNSQRError Nat :=
  if policy = .memory then
    ({ wal with currentLsn := wal.currentLsn + 1 }, .ok (wal.currentLsn + 1))
  else
    match serde.serialize op with
    | .error e => (wal, .error (.corruptedSnapshot s!"Serialization error: {e}"))
    | .ok payload =>
      match wal.writeRecord op payload disk with
      | (wal, .error e) => (wal, .error e)
      | (wal, .ok tgtLsn) =>
        match wal.syncTargetLsn tgtLsn disk with
        | (wal, .error e) => (wal, .error e)
        | (wal, .ok ()) => (wal, .ok tgtLsn)

end WalManager

/-- The variables of `replay`, with what `apply_fn` has made of its state. -/
structure Replay (σ : Type) where
  state : σ
  summary : WalRecoverySummary
  highestLsn : Nat

namespace Replay
variable {σ : Type}

def torn (replay : Replay σ) : Replay σ :=
  { replay with summary :=
    { replay.summary with tornRecordsSkipped := replay.summary.tornRecordsSkipped + 1 } }

def applied (lsn : Nat) (st : σ) (replay : Replay σ) : Replay σ where
  state := st
  summary := { replay.summary with
    totalReplayed := replay.summary.totalReplayed + 1
    lastAppliedLsn := lsn }
  highestLsn := max replay.highestLsn lsn

variable (serde : Serde WalMutation) (snapLsn : Nat)
  (applyFn : Nat → WalMutation → σ → σ × Except HNSQRError Unit)

/-- The loop over one file: `rest` is what lies behind `offset`.  Each round reads at least a
    header, so the length of the file is fuel enough. -/
def readSegment (path : String) : Nat → Nat → Bytes → Replay σ → Replay σ × Except HNSQRError Nat
  | 0, offset, _, replay => (replay, .ok offset)
  | fuel + 1, offset, rest, replay =>
    if rest.length < walHeaderSize then (replay, .ok offset)
    else
      match WalFrameHeader.decode (rest.take walHeaderSize) with
      | .error _ =>
        if rest.length = walHeaderSize then (replay.torn, .ok offset)
        else (replay, .error (.corruptedSnapshot
          s!"Corrupted WAL header frame at offset {offset} in {path}"))
      | .ok header =>
        if rest.length < walHeaderSize + header.payloadLen then (replay.torn, .ok offset)
        else
          let payload := (rest.drop walHeaderSize).take header.payloadLen
          if (crc32 payload).toNat ≠ header.crc32c then
            if rest.length = walHeaderSize + header.payloadLen then (replay.torn, .ok offset)
            else (replay, .error (.corruptedSnapshot
              s!"CRC32C mismatch for LSN {header.lsn} at offset {offset} in {path}"))
          else
            let next := rest.drop (walHeaderSize + header.payloadLen)
            let offset := offset + (walHeaderSize + header.payloadLen)
            if snapLsn < header.lsn then
              match serde.deserialize payload with
              | .error e =>
                (replay, .error (.corruptedSnapshot s!"Payload deserialize error: {e}"))
              | .ok op =>
                match applyFn header.lsn op replay.state with
                | (st, .error e) => ({ replay with state := st }, .error e)
                | (st, .ok ()) =>
                  readSegment path fuel offset next (replay.applied header.lsn st)
            else readSegment path fuel offset next replay

def readSegments (walDir : String) : List WalSegment → Replay σ → Replay σ × Except HNSQRError Unit
  | [], replay => (replay, .ok ())
  | segment :: rest, replay =>
    match readSegment serde snapLsn applyFn (segmentPath walDir segment.id)
      segment.bytes.length 0 segment.bytes replay with
    | (replay, .error e) => (replay, .error e)
    | (replay, .ok offset) =>
      readSegments walDir rest (if offset < segment.bytes.length then replay.torn else replay)

end Replay

def WalManager.replay {σ : Type} (serde : Serde WalMutation) (snapLsn : Nat)
    (applyFn : Nat → WalMutation → σ → σ × Except HNSQRError Unit) (st : σ)
    (wal : WalManager) : (WalManager × σ) × Except HNSQRError WalRecoverySummary :=
  let start : Replay σ := {
    state := st
    summary := ⟨snapLsn, snapLsn, 0, 0, wal.segments.length⟩
    highestLsn := snapLsn }
  match start.readSegments serde snapLsn applyFn wal.walDir wal.segments with
  | (replay, .error e) => ((wal, replay.state), .error e)
  | (replay, .ok ()) =>
    (({ wal with currentLsn := replay.highestLsn, lastSyncedLsn := replay.highestLsn },
      replay.state), .ok replay.summary)

end HoloSphere.Storage
