import HoloSphere.Error
import HoloSphere.Format.LittleEndian

/-! # Framed records

`encode_framed_record` and `decode_framed_record` of `consensus/storage.rs`: a
header of magic, version, payload length and CRC32, then the payload.  The
serialiser is a parameter (`Serde`); nothing is assumed of it beyond what
`Serde.RoundTrips` says of the records at hand.
-/

namespace HoloSphere.Consensus
open Format List
variable {α : Type}

/-- One input bit of the CRC-32 register, least significant first. -/
def crc32Bit (crc : UInt32) : UInt32 :=
  if crc &&& 1 = 1 then (crc >>> 1) ^^^ 0xEDB88320 else crc >>> 1

def crc32Byte (crc : UInt32) (byte : UInt8) : UInt32 :=
  crc32Bit (crc32Bit (crc32Bit (crc32Bit (crc32Bit (crc32Bit (crc32Bit (crc32Bit
    (crc ^^^ byte.toUInt32))))))))

def crc32 (payload : Bytes) : UInt32 := ~~~ payload.foldl crc32Byte 0xFFFFFFFF

/-- The check value of the polynomial: the digits one to nine in ASCII. -/
example : crc32 [49, 50, 51, 52, 53, 54, 55, 56, 57] = 0xCBF43926 := by decide +kernel

/-- The serialiser of one record type. -/
structure Serde (α : Type) where
  serialize : α → Except String Bytes
  deserialize : Bytes → Except String α

/-- The record is serialised to a payload whose length fits its header field, and
    is read back from it. -/
def Serde.RoundTrips (serde : Serde α) (record : α) : Prop :=
  ∃ payload, serde.serialize record = .ok payload ∧ payload.length < 2 ^ 32 ∧
    serde.deserialize payload = .ok record

def Serde.Faithful (serde : Serde α) : Prop :=
  ∀ record payload, serde.serialize record = .ok payload → serde.deserialize payload = .ok record

def raftFrameMagic : Nat := 0x52414654
def raftFrameVersion : Nat := 1
def raftFrameHeaderSize : Nat := 14

/-- Eight lower-case hexadecimal digits. -/
def hex08 (n : Nat) : String :=
  let digits := Nat.toDigits 16 n
  String.ofList (replicate (8 - digits.length) '0' ++ digits)

def frame (payload : Bytes) : Bytes :=
  toLe 4 raftFrameMagic ++ (toLe 2 raftFrameVersion ++ (toLe 4 payload.length ++
    (toLe 4 (crc32 payload).toNat ++ payload)))

def encodeFramedRecord (serde : Serde α) (record : α) : Except HNSQRError Bytes :=
  match serde.serialize record with
  | .error e => .error (.internal s!"Failed to serialize Raft record: {e}")
  | .ok payload => .ok (frame payload)

/-- The record at the start of a buffer and the length of its frame. -/
def decodeFramedRecord (serde : Serde α) (buffer : Bytes) : Except HNSQRError (α × Nat) :=
  let magic := fromLe (buffer.take 4)
  let version := fromLe ((buffer.drop 4).take 2)
  let payloadLen := fromLe ((buffer.drop 6).take 4)
  let expectedCrc := fromLe ((buffer.drop 10).take 4)
  let totalFrameLen := raftFrameHeaderSize + payloadLen
  let payload := (buffer.drop raftFrameHeaderSize).take payloadLen
  let actualCrc := (crc32 payload).toNat
  if buffer.length < raftFrameHeaderSize then
    .error (.internal "Buffer too small for Raft frame header")
  else if magic ≠ raftFrameMagic then
    let found := hex08 magic
    let expected := hex08 raftFrameMagic
    .error (.internal s!"Invalid Raft frame magic: 0x{found} (expected 0x{expected})")
  else if version ≠ raftFrameVersion then
    .error (.internal s!"Unsupported Raft frame version: {version}")
  else if buffer.length < totalFrameLen then
    .error (.internal "Incomplete Raft frame payload (torn record)")
  else if actualCrc ≠ expectedCrc then
    let expected := hex08 expectedCrc
    let computed := hex08 actualCrc
    .error (.internal
      s!"CRC32 checksum mismatch in Raft frame: expected 0x{expected}, computed 0x{computed}")
  else
    match serde.deserialize payload with
    | .error e => .error (.internal s!"Failed to deserialize Raft record payload: {e}")
    | .ok record => .ok (record, totalFrameLen)

@[simp] theorem length_frame (payload : Bytes) :
    (frame payload).length = raftFrameHeaderSize + payload.length := by
  simp only [frame, length_append, length_toLe, raftFrameHeaderSize]
  omega

/-- The header fields of a frame, and its payload, as the decoder reads them. -/
theorem frame_fields (payload after : Bytes) :
    (frame payload ++ after).take 4 = toLe 4 raftFrameMagic ∧
    ((frame payload ++ after).drop 4).take 2 = toLe 2 raftFrameVersion ∧
    ((frame payload ++ after).drop 6).take 4 = toLe 4 payload.length ∧
    ((frame payload ++ after).drop 10).take 4 = toLe 4 (crc32 payload).toNat ∧
    ((frame payload ++ after).drop raftFrameHeaderSize).take payload.length = payload := by
  refine ⟨?_, ?_, ?_, ?_, ?_⟩
  · exact take_left' (length_toLe)
  · exact take_drop_field (toLe 4 raftFrameMagic) (toLe 2 raftFrameVersion) _
  · exact take_drop_field (toLe 4 raftFrameMagic ++ toLe 2 raftFrameVersion)
      (toLe 4 payload.length) _
  · exact take_drop_field (toLe 4 raftFrameMagic ++ toLe 2 raftFrameVersion ++
      toLe 4 payload.length) (toLe 4 (crc32 payload).toNat) _
  · exact take_drop_field (toLe 4 raftFrameMagic ++ toLe 2 raftFrameVersion ++
      toLe 4 payload.length ++ toLe 4 (crc32 payload).toNat) payload after

variable {recs : List α}

/-- A record that round-trips is read from its frame, whatever follows it. -/
theorem decodeFramedRecord_frame {payload : Bytes} (fits : payload.length < 2 ^ 32)
    (read : serde.deserialize payload = .ok record) (after : Bytes) :
    decodeFramedRecord serde (frame payload ++ after) = .ok (record, (frame payload).length) := by
  obtain ⟨magic, version, size, crc, content⟩ := frame_fields payload after
  have magicRead : fromLe (toLe 4 raftFrameMagic) = raftFrameMagic := fromLe_toLe_of_lt (by decide)
  have versionRead : fromLe (toLe 2 raftFrameVersion) = raftFrameVersion :=
    fromLe_toLe_of_lt (by decide)
  have sizeRead : fromLe (toLe 4 payload.length) = payload.length := fromLe_toLe_of_lt fits
  have crcRead : fromLe (toLe 4 (crc32 payload).toNat) = (crc32 payload).toNat :=
    fromLe_toLe_of_lt (crc32 payload).toNat_lt
  have long : ¬ (frame payload ++ after).length < raftFrameHeaderSize + payload.length := by
    rw [length_append, length_frame]
    omega
  have hdr : ¬ (frame payload ++ after).length < raftFrameHeaderSize := by omega
  simp only [decodeFramedRecord, magic, version, size, crc, magicRead, versionRead, sizeRead,
    crcRead, content, ne_eq, not_true_eq_false, if_false, if_neg long, if_neg hdr, read,
    length_frame]

theorem take_field_of_take {α : Type} {bytes : List α} (inside : start + size ≤ kept) :
    ((bytes.take kept).drop start).take size = (bytes.drop start).take size := by
  rw [drop_take, take_take, Nat.min_eq_left (by omega)]

/-- A frame that is cut short is refused. -/
theorem decodeFramedRecord_torn {payload : Bytes} (fits : payload.length < 2 ^ 32)
    (short : kept < (frame payload).length) :
    ∃ reason, decodeFramedRecord serde ((frame payload).take kept) = .error reason := by
  have size : ((frame payload).take kept).length = kept := by
    rw [length_take]
    omega
  by_cases hdr : kept < raftFrameHeaderSize
  · exact ⟨_, by simp only [decodeFramedRecord, size, if_pos hdr]; rfl⟩
  · obtain ⟨magic, version, length, -, -⟩ := frame_fields payload []
    rw [append_nil] at magic version length
    rw [length_frame] at short
    unfold raftFrameHeaderSize at hdr
    have magicRead : fromLe (((frame payload).take kept).take 4) = raftFrameMagic := by
      rw [take_take, Nat.min_eq_left (by omega), magic]
      exact fromLe_toLe_of_lt (by decide)
    have versionRead : fromLe ((((frame payload).take kept).drop 4).take 2) = raftFrameVersion := by
      rw [take_field_of_take (by omega), version]
      exact fromLe_toLe_of_lt (by decide)
    have lengthRead : fromLe ((((frame payload).take kept).drop 6).take 4) = payload.length := by
      rw [take_field_of_take (by omega), length]
      exact fromLe_toLe_of_lt fits
    refine ⟨.internal "Incomplete Raft frame payload (torn record)", ?_⟩
    simp only [decodeFramedRecord, size, if_neg hdr, raftFrameHeaderSize, magicRead,
      versionRead, lengthRead, ne_eq, not_true_eq_false, if_false]
    exact if_pos short

/-- The loop that frames a list of records into one buffer. -/
def encodeAll (serde : Serde α) : List α → Except HNSQRError Bytes
  | [] => .ok []
  | record :: rest =>
    match encodeFramedRecord serde record with
    | .error e => .error e
    | .ok head =>
      match encodeAll serde rest with
      | .error e => .error e
      | .ok framed => .ok (head ++ framed)

theorem encodeAll_cons (done : encodeAll serde (record :: rest) = .ok bytes) :
    ∃ payload framed, serde.serialize record = .ok payload ∧ encodeAll serde rest = .ok framed ∧
      bytes = frame payload ++ framed := by
  unfold encodeAll encodeFramedRecord at done
  cases head : serde.serialize record with
  | error e => simp [head] at done
  | ok payload =>
    cases tail : encodeAll serde rest with
    | error e => simp [head, tail] at done
    | ok framed => exact ⟨payload, framed, rfl, rfl, by simpa [head, tail] using done.symm⟩

theorem length_le_of_encodeAll (done : encodeAll serde recs = .ok bytes) :
    recs.length ≤ bytes.length := by
  induction recs generalizing bytes with
  | nil => simp
  | cons record rest ih =>
    obtain ⟨payload, framed, -, tail, rfl⟩ := encodeAll_cons done
    have shorter := ih tail
    simp only [length_cons, length_append, length_frame, raftFrameHeaderSize]
    omega

theorem encodeAll_append (one : encodeAll serde fst = .ok left)
    (two : encodeAll serde snd = .ok right) :
    encodeAll serde (fst ++ snd) = .ok (left ++ right) := by
  induction fst generalizing left with
  | nil =>
    cases one
    exact two
  | cons record rest ih =>
    obtain ⟨payload, framed, ser, tail, rfl⟩ := encodeAll_cons one
    simp [encodeAll, encodeFramedRecord, ser, ih tail]

theorem encodeAll_concat (done : encodeAll serde (recs ++ [record]) = .ok bytes) :
    ∃ pre payload, encodeAll serde recs = .ok pre ∧
      serde.serialize record = .ok payload ∧ bytes = pre ++ frame payload := by
  induction recs generalizing bytes with
  | nil =>
    obtain ⟨payload, framed, ser, rest, rfl⟩ := encodeAll_cons done
    cases rest
    exact ⟨[], payload, rfl, ser, by simp⟩
  | cons fst recs ih =>
    obtain ⟨payload, framed, ser, rest, rfl⟩ := encodeAll_cons done
    obtain ⟨pre, last, encoded, lastSerialized, rfl⟩ := ih rest
    refine ⟨frame payload ++ pre, last, ?_, lastSerialized, by simp⟩
    simp [encodeAll, encodeFramedRecord, ser, encoded]

theorem encodeAll_of_roundTrips (carried : ∀ record ∈ recs, serde.RoundTrips record) :
    ∃ bytes, encodeAll serde recs = .ok bytes := by
  induction recs with
  | nil => exact ⟨[], rfl⟩
  | cons record rest ih =>
    obtain ⟨payload, ser, -, -⟩ := carried record mem_cons_self
    obtain ⟨framed, encoded⟩ := ih (forall_mem_cons.mp carried).2
    exact ⟨frame payload ++ framed, by simp [encodeAll, encodeFramedRecord, ser, encoded]⟩

end HoloSphere.Consensus
