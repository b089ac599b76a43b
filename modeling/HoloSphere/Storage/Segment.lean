import HoloSphere.Error
import HoloSphere.Store.SlotTable

/-! # Vector segments

`MutableSegment`, `ImmutableSegment` and `SegmentedEngine` of `storage/segment.rs`.
A segment's `vectors` and `slot_to_id` grow together and are one list of slots
here.  Slot numbers are `u32`: a position is cast down wherever the code stores or
tests it.  The routing structures and the proof tree are derived from the slots
and decide nothing about which slot is live, so they are left out, as is the
write-ahead log, which a new engine does not have.
-/

namespace HoloSphere.Storage
open Store

abbrev NodeId := String

/-- A complex vector; each component is the bit pattern of two `f32`. -/
structure VectorEmbedding where
  data : List (UInt32 × UInt32)
  deriving DecidableEq

def VectorEmbedding.dimension (vec : VectorEmbedding) : Nat := vec.data.length

/-- A metadata value; a float is its bit pattern. -/
inductive MetadataValue where
  | string (val : String)
  | integer (val : Int)
  | float (bits : UInt64)
  | boolean (val : Bool)
  deriving DecidableEq

abbrev Metadata := String → Option MetadataValue

/-- What a cast to `u32` can tell apart. -/
def slotNumbers : Nat := 2 ^ 32

abbrev SegmentTable := SlotTable NodeId VectorEmbedding

structure MutableSegment where
  id : Nat
  dimension : Nat
  maxCapacity : Nat
  table : SegmentTable := {}

structure ImmutableSegment where
  id : Nat
  dimension : Nat
  table : SegmentTable

namespace MutableSegment

def new (id dim maxCapacity : Nat) : MutableSegment :=
  { id := id, dimension := dim, maxCapacity := maxCapacity }

def insert (id : NodeId) (vec : VectorEmbedding) (sg : MutableSegment) :
    Except HNSQRError (MutableSegment × Nat) :=
  if vec.dimension ≠ sg.dimension then
    .error (.dimensionMismatch sg.dimension vec.dimension)
  else if sg.maxCapacity ≤ sg.table.slots.length then
    .error (.indexFull sg.maxCapacity)
  else
    .ok ({ sg with table := sg.table.put slotNumbers id vec }, sg.table.slots.length % slotNumbers)

def delete (id : NodeId) (sg : MutableSegment) : MutableSegment × Bool :=
  ({ sg with table := sg.table.kill id }, (sg.table.slotOf id).isSome)

end MutableSegment

namespace ImmutableSegment

def freeze (sg : MutableSegment) : ImmutableSegment := ⟨sg.id, sg.dimension, sg.table⟩

def delete (id : NodeId) (sg : ImmutableSegment) : ImmutableSegment × Bool :=
  ({ sg with table := sg.table.kill id }, (sg.table.slotOf id).isSome)

def liveSlots (sg : ImmutableSegment) : List (NodeId × VectorEmbedding) := sg.table.live slotNumbers

end ImmutableSegment

structure SegmentedEngine where
  dimension : Nat
  maxMutableCapacity : Nat
  nextSegmentId : Nat
  activeMutable : MutableSegment
  immutableSegments : List ImmutableSegment
  metadataStore : NodeId → Option Metadata

namespace SegmentedEngine

def new (dim maxMutableCapacity : Nat) : SegmentedEngine where
  dimension := dim
  maxMutableCapacity := maxMutableCapacity
  nextSegmentId := 2
  activeMutable := .new 1 dim maxMutableCapacity
  immutableSegments := []
  metadataStore := fun _ => none

def deleteInternal (id : NodeId) (eng : SegmentedEngine) : SegmentedEngine × Bool :=
  let (active, inActive) := eng.activeMutable.delete id
  let deleted := eng.immutableSegments.map (ImmutableSegment.delete id)
  ({ eng with activeMutable := active, immutableSegments := deleted.map Prod.fst },
    inActive || deleted.any Prod.snd)

def rotateActive (eng : SegmentedEngine) : SegmentedEngine :=
  { eng with
    immutableSegments := eng.immutableSegments ++ [.freeze eng.activeMutable]
    nextSegmentId := eng.nextSegmentId + 1
    activeMutable := .new eng.nextSegmentId eng.dimension eng.maxMutableCapacity }

/-- The insertion into the active segment, which is rotated once when it is full. -/
def insertActive (id : NodeId) (vec : VectorEmbedding) (eng : SegmentedEngine) :
    SegmentedEngine × Except HNSQRError Unit :=
  match eng.activeMutable.insert id vec with
  | .ok (active, _) => ({ eng with activeMutable := active }, .ok ())
  | .error (.indexFull _) =>
    let rotated := eng.rotateActive
    match rotated.activeMutable.insert id vec with
    | .ok (active, _) => ({ rotated with activeMutable := active }, .ok ())
    | .error e => (rotated, .error e)
  | .error e => (eng, .error e)

def applyUpsertUnlogged (id : NodeId) (vec : VectorEmbedding) (eng : SegmentedEngine) :
    SegmentedEngine × Except HNSQRError Unit :=
  (eng.deleteInternal id).1.insertActive id vec

def applyCommittedUpsert (id : NodeId) (vec : VectorEmbedding) (md : Option Metadata)
    (eng : SegmentedEngine) : SegmentedEngine × Except HNSQRError Unit :=
  match eng.applyUpsertUnlogged id vec with
  | (written, .ok ()) =>
    match md with
    | none => (written, .ok ())
    | some fields =>
      ({ written with metadataStore := Function.update written.metadataStore id (some fields) },
        .ok ())
  | (written, .error e) => (written, .error e)

def applyCommittedMetadataPatch (id : NodeId) (patch : Metadata) (eng : SegmentedEngine) :
    SegmentedEngine :=
  let entry := (eng.metadataStore id).getD fun _ => none
  let patched : Metadata := fun key => (patch key).or (entry key)
  { eng with metadataStore := Function.update eng.metadataStore id (some patched) }

def applyDeleteUnlogged (id : NodeId) (eng : SegmentedEngine) : SegmentedEngine × Bool :=
  ({ eng with
    metadataStore := Function.update eng.metadataStore id none }).deleteInternal id

/-- `insert` on an engine without a write-ahead log. -/
def insert (id : NodeId) (vec : VectorEmbedding) (eng : SegmentedEngine) :
    SegmentedEngine × Except HNSQRError Unit :=
  (eng.deleteInternal id).1.insertActive id vec

/-- `delete` on an engine without a write-ahead log; the metadata stays. -/
def delete (id : NodeId) (eng : SegmentedEngine) : SegmentedEngine × Bool := eng.deleteInternal id

/-- Phase one of `compact`: slots that are dead or whose id was seen in a newer place. -/
def countPurged (immutables : List ImmutableSegment) : Nat :=
  let slots := immutables.reverse.flatMap fun seg =>
    (List.range seg.table.slots.length).map (seg.table.liveAt slotNumbers)
  (slots.foldl (fun (seen, purged) slot =>
    match slot with
    | none => (seen, purged + 1)
    | some (id, _) =>
      if id ∈ seen then (seen, purged + 1) else (Insert.insert id seen, purged))
    ((∅ : Finset NodeId), 0)).2

/-- Phase two: the live slots from the newest segment to the oldest, the first of each
    id kept.  The keys of the merged map are the ids inserted so far. -/
def mergeSegments (immutables : List ImmutableSegment) : SegmentTable :=
  (immutables.reverse.flatMap ImmutableSegment.liveSlots).foldl (SlotTable.absorb slotNumbers) {}

/-- The swap: the whole list gives way to the compacted segment. -/
def swapCompacted (merged : SegmentTable) (eng : SegmentedEngine) : SegmentedEngine :=
  { eng with
    immutableSegments := [⟨eng.nextSegmentId, eng.dimension, merged⟩]
    nextSegmentId := eng.nextSegmentId + 1 }

def compact (eng : SegmentedEngine) : SegmentedEngine × Nat :=
  if eng.immutableSegments.length < 2 then (eng, 0)
  else
    (eng.swapCompacted (mergeSegments eng.immutableSegments), countPurged eng.immutableSegments)

/-- The vectors of the live slots of an id, over all segments. -/
def versions (id : NodeId) (eng : SegmentedEngine) : List VectorEmbedding :=
  eng.activeMutable.table.versions slotNumbers id ++
    eng.immutableSegments.flatMap fun seg => seg.table.versions slotNumbers id

end SegmentedEngine
end HoloSphere.Storage
