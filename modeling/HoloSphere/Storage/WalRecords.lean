import HoloSphere.Program.Script
import HoloSphere.Storage.Wal

/-! # Records of the log

What the files of a log hold: each a run of whole frames and perhaps the beginning of one
more.  A replay of such files applies the records one after the other, whatever stands at
the end of each file.
-/

namespace HoloSphere.Storage
open Format Consensus Program
open List hiding after tail
variable {σ : Type} {serde : Serde WalMutation}

structure WalRecord where
  prevLsn : Nat
  mutation : WalMutation
  payload : Bytes

namespace WalRecord

def lsn (rec : WalRecord) : Nat := rec.prevLsn + 1

def entry (rec : WalRecord) : Nat × WalMutation := (rec.lsn, rec.mutation)

def header (rec : WalRecord) : WalFrameHeader :=
  WalManager.frameHeader rec.mutation rec.prevLsn rec.payload

def frame (rec : WalRecord) : Bytes := rec.header.encode ++ rec.payload

structure Fits (rec : WalRecord) : Prop where
  numbered : rec.lsn < 2 ^ 64
  short : rec.payload.length < 2 ^ 32

def Reads (serde : Serde WalMutation) (rec : WalRecord) : Prop :=
  serde.deserialize rec.payload = .ok rec.mutation

variable {rec other : WalRecord}

theorem length_encode : rec.header.encode.length = walHeaderSize := by
  simp [header, WalManager.frameHeader, WalFrameHeader.encode, walMagic, walHeaderSize]

theorem length_frame (rec : WalRecord) : rec.frame.length = walHeaderSize + rec.payload.length := by
  rw [frame, length_append, length_encode]

/-- The fields of a header as `decode` finds them. -/
theorem encode_fields (header : WalFrameHeader) (magic : header.magic.length = 4) :
    header.encode.take 4 = header.magic ∧
    (header.encode.drop 4).take 2 = toLe 2 header.version ∧
    (header.encode.drop 6).take 2 = toLe 2 header.recordType ∧
    (header.encode.drop 8).take 8 = toLe 8 header.lsn ∧
    (header.encode.drop 16).take 8 = toLe 8 header.prevLsn ∧
    (header.encode.drop 24).take 4 = toLe 4 header.payloadLen ∧
    (header.encode.drop 28).take 4 = toLe 4 header.crc32c := by
  unfold WalFrameHeader.encode
  generalize header.magic = fst at magic ⊢
  obtain ⟨a, b, c, d, rfl⟩ : ∃ a b c d, fst = [a, b, c, d] := by
    match fst, magic with
    | [a, b, c, d], _ => exact ⟨a, b, c, d, rfl⟩
  refine ⟨rfl, ?_, ?_, ?_, ?_, ?_, ?_⟩ <;> simp [toLe]

theorem decode_encode (fits : rec.Fits) :
    WalFrameHeader.decode rec.header.encode = .ok rec.header := by
  obtain ⟨magic, ver, kind, lsn, prevLsn, payloadLen, crc⟩ := encode_fields rec.header rfl
  have prev : rec.prevLsn < 2 ^ 64 := Nat.lt_trans (Nat.lt_succ_self _) fits.numbered
  have small : rec.mutation.recordType.toU16 < 256 ^ 2 := by
    cases rec.mutation.recordType <;> decide
  have known : WalRecordType.fromU16 rec.mutation.recordType.toU16 ≠ none := by
    cases rec.mutation.recordType <;> decide
  have versionRead : fromLe (toLe 2 rec.header.version) = walVersion :=
    fromLe_toLe_of_lt (show walVersion < 256 ^ 2 by decide)
  have kindRead : fromLe (toLe 2 rec.header.recordType) = rec.header.recordType :=
    fromLe_toLe_of_lt small
  have lsnRead : fromLe (toLe 8 rec.header.lsn) = rec.header.lsn := fromLe_toLe_of_lt fits.numbered
  have prevRead : fromLe (toLe 8 rec.header.prevLsn) = rec.header.prevLsn := fromLe_toLe_of_lt prev
  have lengthRead : fromLe (toLe 4 rec.header.payloadLen) = rec.header.payloadLen :=
    fromLe_toLe_of_lt (Nat.mod_lt _ (by decide))
  have crcRead : fromLe (toLe 4 rec.header.crc32c) = rec.header.crc32c :=
    fromLe_toLe_of_lt (crc32 rec.payload).toNat_lt
  simp only [WalFrameHeader.decode, magic, ver, kind, lsn, prevLsn, payloadLen, crc,
    versionRead, kindRead, lsnRead, prevRead, lengthRead, crcRead]
  exact if_neg known

theorem take_frame : (rec.frame ++ rest).take walHeaderSize = rec.header.encode := by
  rw [frame, append_assoc, ← length_encode, take_left]

theorem header_payloadLen (fits : rec.Fits) : rec.header.payloadLen = rec.payload.length :=
  Nat.mod_eq_of_lt fits.short

/-- The length in the header tells where a frame ends. -/
theorem frame_inj (fits : rec.Fits) (otherFits : other.Fits)
    (same : rec.frame ++ rest = other.frame ++ after) :
    rec.frame = other.frame ∧ rest = after := by
  have headers : rec.header.encode = other.header.encode := by
    rw [← take_frame, same, take_frame]
  have decoded : rec.header = other.header := by
    have read := decode_encode fits
    rw [headers, decode_encode otherFits] at read
    exact (Except.ok.inj read).symm
  have lengths : rec.payload.length = other.payload.length := by
    rw [← header_payloadLen fits, decoded, header_payloadLen otherFits]
  apply append_inj same
  rw [length_frame, length_frame, lengths]

end WalRecord

/-- Less than a whole frame. -/
def Torn (tail : Bytes) : Prop :=
  tail = [] ∨ ∃ rec : WalRecord, rec.Fits ∧ tail <+: rec.frame ∧ tail.length < rec.frame.length

def WholeRecords (bytes : Bytes) : Prop :=
  ∃ recs : List WalRecord, (∀ rec ∈ recs, rec.Fits) ∧ bytes = recs.flatMap WalRecord.frame

theorem torn_eq_nil_of_whole (torn : Torn tail) (whole : WholeRecords tail) : tail = [] := by
  rcases torn with empty | ⟨rec, fits, ⟨missing, complete⟩, shorter⟩
  · exact empty
  obtain ⟨recs, allFit, rfl⟩ := whole
  cases recs with
  | nil => rfl
  | cons fst rest =>
    have fitsFirst := allFit fst mem_cons_self
    rw [flatMap_cons] at complete shorter
    rw [append_assoc] at complete
    have same := (WalRecord.frame_inj fitsFirst fits (complete.trans (append_nil _).symm)).1
    rw [length_append, same] at shorter
    omega

/-- Frames before a tail do not hide it. -/
theorem tail_eq_nil_of_whole {recs : List WalRecord} {tail : Bytes}
    (fits : ∀ rec ∈ recs, rec.Fits) (torn : Torn tail)
    (whole : WholeRecords (recs.flatMap WalRecord.frame ++ tail)) : tail = [] := by
  induction recs with
  | nil => exact torn_eq_nil_of_whole torn whole
  | cons fst rest ih =>
    obtain ⟨others, othersFit, same⟩ := whole
    have fitsFirst := fits fst mem_cons_self
    rw [flatMap_cons, append_assoc] at same
    cases others with
    | nil =>
      have lengths := congrArg length same
      rw [length_append, WalRecord.length_frame, walHeaderSize] at lengths
      simp at lengths
    | cons snd more =>
      have later := (WalRecord.frame_inj fitsFirst (othersFit snd mem_cons_self) same).2
      apply ih (forall_mem_cons.mp fits).2
      exact ⟨more, (forall_mem_cons.mp othersFit).2, later⟩

/-- The number and the payload of the frame that the bytes begin with, if it is whole and its
    checksum is right. -/
def nextFrame (bytes : Bytes) : Option (Nat × Bytes) :=
  match WalFrameHeader.decode (bytes.take walHeaderSize) with
  | .error _ => none
  | .ok header =>
    let payload := (bytes.drop walHeaderSize).take header.payloadLen
    if walHeaderSize + header.payloadLen ≤ bytes.length ∧ (crc32 payload).toNat = header.crc32c then
      some (header.lsn, payload)
    else none

/-- Bytes that `replay` does not take for a torn end: more than a header that cannot be read, or
    more than a frame whose checksum is wrong. -/
def Corrupt (bytes : Bytes) : Prop :=
  match WalFrameHeader.decode (bytes.take walHeaderSize) with
  | .error _ => walHeaderSize < bytes.length
  | .ok header =>
    walHeaderSize + header.payloadLen < bytes.length ∧
      (crc32 ((bytes.drop walHeaderSize).take header.payloadLen)).toNat ≠ header.crc32c

instance (bytes : Bytes) : Decidable (Corrupt bytes) := by
  unfold Corrupt
  split <;> infer_instance

def wholeFrames : Nat → Bytes → List (Nat × Bytes) × Bytes
  | 0, bytes => ([], bytes)
  | fuel + 1, bytes =>
    match nextFrame bytes with
    | none => ([], bytes)
    | some (lsn, payload) =>
      let (frames, rest) := wholeFrames fuel (bytes.drop (walHeaderSize + payload.length))
      ((lsn, payload) :: frames, rest)

theorem nextFrame_some (found : nextFrame bytes = some (lsn, payload)) :
    ∃ header, WalFrameHeader.decode (bytes.take walHeaderSize) = .ok header ∧ header.lsn = lsn ∧
      (bytes.drop walHeaderSize).take header.payloadLen = payload ∧
      payload.length = header.payloadLen ∧ walHeaderSize + payload.length ≤ bytes.length ∧
      (crc32 payload).toNat = header.crc32c := by
  unfold nextFrame at found
  split at found
  case h_1 => cases found
  case h_2 header decoded =>
    simp only [Option.ite_none_right_eq_some, Option.some.injEq, Prod.mk.injEq] at found
    obtain ⟨⟨long, sum⟩, rfl, rfl⟩ := found
    have length : ((bytes.drop walHeaderSize).take header.payloadLen).length =
        header.payloadLen := by
      rw [length_take, length_drop]
      omega
    exact ⟨header, decoded, rfl, rfl, length, by omega, sum⟩

theorem wholeFrames_none (nothing : nextFrame bytes = none) (fuel : Nat) :
    wholeFrames fuel bytes = ([], bytes) := by
  cases fuel with
  | zero => rfl
  | succ fuel => simp [wholeFrames, nothing]

namespace WalRecord

theorem nextFrame_frame {rec : WalRecord} (fits : rec.Fits) (rest : Bytes) :
    nextFrame (rec.frame ++ rest) = some (rec.lsn, rec.payload) := by
  have long : walHeaderSize + rec.payload.length ≤ (rec.frame ++ rest).length := by
    rw [length_append, length_frame]
    omega
  have payload : ((rec.frame ++ rest).drop walHeaderSize).take rec.payload.length =
      rec.payload := by
    rw [frame, append_assoc, ← length_encode]
    exact take_drop_field _ _ _
  have sum : (crc32 rec.payload).toNat = rec.header.crc32c := rfl
  simp only [nextFrame, take_frame, decode_encode fits, header_payloadLen fits, payload, long, sum,
    and_self, if_true]
  rfl

theorem drop_frame (rec : WalRecord) :
    (rec.frame ++ rest).drop (walHeaderSize + rec.payload.length) = rest := by
  rw [← length_frame, drop_left]

end WalRecord

theorem Torn.nextFrame (torn : Torn tail) : nextFrame tail = none ∧ ¬ Corrupt tail := by
  by_cases short : tail.length < walHeaderSize
  · unfold Storage.nextFrame Corrupt
    cases WalFrameHeader.decode (tail.take walHeaderSize) with
    | error => exact ⟨rfl, by simp only; omega⟩
    | ok header =>
      refine ⟨if_neg ?_, ?_⟩
      · omega
      · omega
  rcases torn with rfl | ⟨rec, fits, begins, shorter⟩
  · exact absurd (by decide) short
  have header : tail.take walHeaderSize = rec.header.encode := by
    obtain ⟨missing, complete⟩ := begins
    rw [← WalRecord.take_frame, append_nil, ← complete,
      take_append_of_le_length (Nat.not_lt.mp short)]
  rw [WalRecord.length_frame] at shorter
  unfold Storage.nextFrame Corrupt
  simp only [header, WalRecord.decode_encode fits, WalRecord.header_payloadLen fits]
  refine ⟨if_neg ?_, ?_⟩ <;> omega

theorem length_le_frames (recs : List WalRecord) :
    recs.length ≤ (recs.flatMap WalRecord.frame).length := by
  induction recs with
  | nil => exact Nat.zero_le _
  | cons fst rest ih =>
    rw [flatMap_cons, length_append, length_cons, WalRecord.length_frame, walHeaderSize]
    omega

theorem wholeFrames_records {recs : List WalRecord} {tail : Bytes}
    (fits : ∀ rec ∈ recs, rec.Fits) (torn : Torn tail) {fuel : Nat}
    (enough : recs.length ≤ fuel) :
    wholeFrames fuel (recs.flatMap WalRecord.frame ++ tail) =
      (recs.map fun rec => (rec.lsn, rec.payload), tail) := by
  induction recs generalizing fuel with
  | nil => exact wholeFrames_none torn.nextFrame.1 fuel
  | cons rec rest ih =>
    cases fuel with
    | zero => exact absurd enough (by simp)
    | succ fuel =>
      rw [flatMap_cons, append_assoc, wholeFrames, rec.nextFrame_frame (fits rec mem_cons_self)]
      simp only [WalRecord.drop_frame]
      rw [ih (forall_mem_cons.mp fits).2
        (Nat.le_of_succ_le_succ enough), map_cons]

namespace Replay

/-- What the records make of the caller's state and of the highest number. -/
def deliver (applyFn : Nat → WalMutation → σ → σ × Except HNSQRError Unit)
    (entry : Nat × WalMutation) (view : σ × Nat) : (σ × Nat) × Except HNSQRError Unit :=
  match applyFn entry.1 entry.2 view.1 with
  | (st, .error e) => ((st, view.2), .error e)
  | (st, .ok ()) => ((st, max view.2 entry.1), .ok ())

def deliverFrame (serde : Serde WalMutation)
    (applyFn : Nat → WalMutation → σ → σ × Except HNSQRError Unit) (frame : Nat × Bytes)
    (view : σ × Nat) : (σ × Nat) × Except HNSQRError Unit :=
  match serde.deserialize frame.2 with
  | .error e => (view, .error (.corruptedSnapshot s!"Payload deserialize error: {e}"))
  | .ok op => deliver applyFn (frame.1, op) view

def view (replay : Replay σ) : σ × Nat := (replay.state, replay.highestLsn)

variable {applyFn : Nat → WalMutation → σ → σ × Except HNSQRError Unit} {snapLsn : Nat}

theorem view_torn (replay : Replay σ) : replay.torn.view = replay.view := rfl

/-- One round of the loop that finds a frame. -/
theorem readSegment_some (found : nextFrame bytes = some (lsn, payload)) (replay : Replay σ) :
    readSegment serde snapLsn applyFn path (fuel + 1) offset bytes replay = if snapLsn < lsn then
        match serde.deserialize payload with
        | .error e => (replay, .error (.corruptedSnapshot s!"Payload deserialize error: {e}"))
        | .ok op =>
          match applyFn lsn op replay.state with
          | (st, .error e) => ({ replay with state := st }, .error e)
          | (st, .ok ()) => readSegment serde snapLsn applyFn path fuel
              (offset + (walHeaderSize + payload.length))
              (bytes.drop (walHeaderSize + payload.length)) (replay.applied lsn st)
      else
        readSegment serde snapLsn applyFn path fuel (offset + (walHeaderSize + payload.length))
          (bytes.drop (walHeaderSize + payload.length)) replay := by
  obtain ⟨header, decoded, rfl, rfl, length, long, sum⟩ := nextFrame_some found
  have notShort : ¬ bytes.length < walHeaderSize := by omega
  have notTorn : ¬ bytes.length < walHeaderSize + header.payloadLen := by omega
  have round := readSegment.eq_def serde snapLsn applyFn path (fuel + 1) offset bytes replay
  simp only [if_neg notShort, decoded, if_neg notTorn, sum, ne_eq, not_true_eq_false,
    if_false] at round
  rw [length]
  exact round

theorem readSegment_ends (nothing : nextFrame bytes = none) (sound : ¬ Corrupt bytes)
    (path : String) (fuel offset : Nat) (replay : Replay σ) :
    ∃ after, readSegment serde snapLsn applyFn path (fuel + 1) offset bytes replay =
        (after, .ok offset) ∧ after.view = replay.view := by
  unfold nextFrame at nothing
  unfold Corrupt at sound
  by_cases short : bytes.length < walHeaderSize
  · exact ⟨replay, by rw [readSegment, if_pos short], rfl⟩
  refine ⟨replay.torn, ?_, view_torn replay⟩
  rw [readSegment, if_neg short]
  cases decoded : WalFrameHeader.decode (bytes.take walHeaderSize) with
  | error e =>
    simp only [decoded] at sound
    have ends : bytes.length = walHeaderSize := by omega
    simp [if_pos ends]
  | ok header =>
    simp only [decoded, ite_eq_right_iff, reduceCtorEq, imp_false, not_and] at nothing sound
    by_cases torn : bytes.length < walHeaderSize + header.payloadLen
    · simp [if_pos torn]
    · have wrong := nothing (Nat.not_lt.mp torn)
      have ends : bytes.length = walHeaderSize + header.payloadLen := by
        by_contra more
        exact sound (by omega) wrong
      simp [wrong, if_pos ends]

theorem readSegment_corrupt (corrupt : Corrupt bytes) (path : String) (fuel offset : Nat) :
    ∃ e, ∀ replay : Replay σ,
      readSegment serde snapLsn applyFn path (fuel + 1) offset bytes replay =
        (replay, .error e) := by
  unfold Corrupt at corrupt
  cases decoded : WalFrameHeader.decode (bytes.take walHeaderSize) with
  | error e =>
    simp only [decoded] at corrupt
    have long : ¬ bytes.length < walHeaderSize := by omega
    have more : ¬ bytes.length = walHeaderSize := by omega
    refine ⟨.corruptedSnapshot s!"Corrupted WAL header frame at offset {offset} in {path}", ?_⟩
    intro replay
    rw [readSegment, if_neg long]
    simp [decoded, if_neg more]
  | ok header =>
    simp only [decoded] at corrupt
    obtain ⟨behind, wrong⟩ := corrupt
    have long : ¬ bytes.length < walHeaderSize := by omega
    have whole : ¬ bytes.length < walHeaderSize + header.payloadLen := by omega
    have more : ¬ bytes.length = walHeaderSize + header.payloadLen := by omega
    refine ⟨.corruptedSnapshot
      s!"CRC32C mismatch for LSN {header.lsn} at offset {offset} in {path}", ?_⟩
    intro replay
    rw [readSegment, if_neg long]
    simp [decoded, if_neg whole, if_pos wrong, if_neg more]

variable (serde applyFn snapLsn) in
/-- The frames of a file are delivered in order, those up to the snapshot left out, until the
    caller refuses one; corrupt bytes behind them fail the reading. -/
theorem readSegment_bytes {bytes : Bytes} (path : String) (enough : bytes.length ≤ fuel)
    (offset : Nat) (replay : Replay σ) :
    ∃ after outc, readSegment serde snapLsn applyFn path fuel offset bytes replay = (after, outc) ∧
      (¬ Corrupt (wholeFrames fuel bytes).2 → Program.run (deliverFrame serde applyFn)
          ((wholeFrames fuel bytes).1.filter fun frame => snapLsn < frame.1) replay.view =
            (after.view, outc.map fun _ => ())) ∧
      (Corrupt (wholeFrames fuel bytes).2 → ∃ e, outc = .error e) := by
  induction fuel generalizing bytes offset replay with
  | zero =>
    have empty : bytes = [] := eq_nil_of_length_eq_zero (by omega)
    subst empty
    exact ⟨replay, .ok offset, rfl, fun _ => rfl, fun corrupt => absurd corrupt (by decide)⟩
  | succ fuel ih =>
    cases found : nextFrame bytes with
    | none =>
      rw [wholeFrames_none found]
      by_cases corrupt : Corrupt bytes
      · obtain ⟨e, read⟩ := @readSegment_corrupt σ serde applyFn snapLsn bytes corrupt path
          fuel offset
        exact ⟨replay, .error e, read replay, fun sound => absurd corrupt sound, fun _ => ⟨e, rfl⟩⟩
      · obtain ⟨after, read, same⟩ := readSegment_ends found corrupt path fuel offset replay
        refine ⟨after, .ok offset, read, fun _ => ?_, fun sound => absurd sound corrupt⟩
        rw [same]
        rfl
    | some frame =>
      obtain ⟨lsn, payload⟩ := frame
      obtain ⟨-, -, -, -, -, long, -⟩ := nextFrame_some found
      have shorter : (bytes.drop (walHeaderSize + payload.length)).length ≤ fuel := by
        rw [length_drop, walHeaderSize]
        omega
      rw [readSegment_some found]
      simp only [wholeFrames, found, filter_cons, decide_eq_true_eq]
      by_cases later : snapLsn < lsn
      case neg =>
        simp only [later, if_false]
        exact ih shorter _ replay
      case pos =>
        simp only [later, if_true]
        cases read : serde.deserialize payload with
        | error e =>
          refine ⟨replay, _, rfl, fun _ => ?_, fun _ => ⟨_, rfl⟩⟩
          simp [Program.run, deliverFrame, read, Except.map]
        | ok op =>
          cases applied : applyFn lsn op replay.state with
          | mk st res =>
            cases res with
            | error e =>
              refine ⟨{ replay with state := st }, .error e, by simp [applied],
                fun _ => ?_, fun _ => ⟨_, rfl⟩⟩
              simp [Program.run, deliverFrame, deliver, read, view, applied, Except.map]
            | ok _ =>
              obtain ⟨after, outc, rest, ran, stops⟩ := ih shorter
                (offset + (walHeaderSize + payload.length)) (replay.applied lsn st)
              refine ⟨after, outc, by simp [applied, rest], fun sound => ?_, stops⟩
              rw [← ran sound]
              simp [Program.run, deliverFrame, deliver, read, view, applied, Replay.applied]

theorem run_deliverFrame {items : List α} {frame : α → Nat × Bytes} {op : α → WalMutation}
    (reads : ∀ item ∈ items, serde.deserialize (frame item).2 = .ok (op item)) (start : σ × Nat) :
    Program.run (deliverFrame serde applyFn)
        ((items.map frame).filter fun frame => snapLsn < frame.1) start =
      Program.run (deliver applyFn)
        ((items.map fun item => ((frame item).1, op item)).filter fun entry => snapLsn < entry.1)
        start := by
  rw [filter_map, filter_map]
  refine run_map (fun item mem view => ?_) start
  rw [deliverFrame, reads item (mem_filter.mp mem).1]

theorem run_deliver_highest {entries : List (Nat × WalMutation)} {start after : σ × Nat}
    (ran : Program.run (deliver applyFn) entries start = (after, .ok ())) :
    start.2 ≤ after.2 ∧ ∀ entry ∈ entries, entry.1 ≤ after.2 := by
  induction entries generalizing start with
  | nil =>
    cases ran
    exact ⟨Nat.le_refl _, by simp⟩
  | cons entry rest ih =>
    rw [Program.run, deliver] at ran
    rcases applied : applyFn entry.1 entry.2 start.1 with ⟨st, e | _⟩ <;> rw [applied] at ran
    · cases ran
    · obtain ⟨grown, bounded⟩ := ih ran
      have larger : max start.2 entry.1 ≤ after.2 := grown
      refine ⟨by omega, ?_⟩
      simp only [mem_cons, forall_eq_or_imp]
      exact ⟨by omega, bounded⟩

end Replay
end HoloSphere.Storage
