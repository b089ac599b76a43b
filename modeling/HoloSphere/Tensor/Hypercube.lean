import HoloSphere.Consensus.Types
import Mathlib.Data.Finset.Basic
import Mathlib.Logic.Function.Basic

/-! # Hypercube tensors

The write path of `vector/hypercube.rs`.  A voxel's coordinate is split into the
origin of its tile and an offset inside it, and both are numbered by interleaving
bits.  Shifting a 64-bit number by 64 or more panics in every build profile of
the crate.
-/

namespace HoloSphere.Tensor
open Consensus (Failure)

abbrev CoordinateND := List Nat

structure MortonEncoderND where
  dimensions : Nat
  bitsPerDim : Nat
  deriving DecidableEq

namespace MortonEncoderND

/-- The shifts that `encode` makes, in its order: the bit number and the dimension. -/
def shifts (coords : CoordinateND) (encoder : MortonEncoderND) : List (Nat × Nat × Nat) :=
  (List.range encoder.bitsPerDim).flatMap fun bit =>
    (coords.zipIdx.take encoder.dimensions).map fun (coord, dim) =>
      (bit, dim, coord)

/-- One shifted bit, taken into the number. -/
def place (encoder : MortonEncoderND) (morton : Nat) (shift : Nat × Nat × Nat) :
    Except Failure Nat :=
  let (bit, dim, coord) := shift
  let pos := bit * encoder.dimensions + dim
  if 64 ≤ pos then .error (.panic "attempt to shift left with overflow")
  else .ok (morton ||| (((coord >>> bit) &&& 1) <<< pos))

def encode (coords : CoordinateND) (encoder : MortonEncoderND) : Except Failure Nat :=
  (encoder.shifts coords).foldlM encoder.place 0

theorem place_error {encoder : MortonEncoderND} {morton : Nat} {shift : Nat × Nat × Nat}
    {failure : Failure} (failed : encoder.place morton shift = .error failure) :
    ∃ msg, failure = .panic msg := by
  unfold place at failed
  dsimp only at failed
  split at failed
  · cases failed
    exact ⟨_, rfl⟩
  · cases failed

/-- Encoding either succeeds or panics: it has no error of its own. -/
theorem encode_error {coords : CoordinateND} {encoder : MortonEncoderND} {failure : Failure}
    (failed : encoder.encode coords = .error failure) : ∃ msg, failure = .panic msg := by
  unfold encode at failed
  generalize encoder.shifts coords = shifts at failed
  generalize 0 = start at failed
  induction shifts generalizing start with
  | nil => cases failed
  | cons shift rest ih =>
    rw [List.foldlM_cons] at failed
    cases placed : encoder.place start shift with
    | error found =>
      rw [placed] at failed
      cases failed
      exact place_error placed
    | ok next =>
      rw [placed] at failed
      exact ih next failed

end MortonEncoderND

def tileShift : Nat := 4
def tileMask : Nat := 15

/-- The offset of a voxel in its tile and the tile's origin can both be encoded. -/
def MortonEncoderND.addresses (coords : CoordinateND) (encoder : MortonEncoderND) : Bool :=
  (encoder.encode (coords.map fun c => c &&& tileMask)).isOk &&
    (encoder.encode (coords.map fun c => (c >>> tileShift) <<< tileShift)).isOk

/-- A tile; a voxel's value is the bit pattern of an `f32`. -/
structure HyperTile where
  tileOrigin : CoordinateND
  denseBuffer : List UInt32
  occupancy : Finset Nat

namespace HyperTile

def new (origin : CoordinateND) (cap : Nat) : HyperTile := ⟨origin, List.replicate cap 0, ∅⟩

def set (localMorton : Nat) (val : UInt32) (tile : HyperTile) : HyperTile :=
  let buffer := tile.denseBuffer ++ List.replicate (localMorton + 1 - tile.denseBuffer.length) 0
  { tile with
    denseBuffer := buffer.set localMorton val
    occupancy := insert localMorton tile.occupancy }

end HyperTile

structure HypercubeTensorSpace where
  shape : CoordinateND
  encoder : MortonEncoderND
  tileCapacity : Nat
  tiles : Nat → Option HyperTile

namespace HypercubeTensorSpace

def dimensions (space : HypercubeTensorSpace) : Nat := space.shape.length

def splitTileCoord (coords : CoordinateND) (space : HypercubeTensorSpace) :
    Except Failure (CoordinateND × Nat) := do
  let origin := coords.map fun c => (c >>> tileShift) <<< tileShift
  let off ← space.encoder.encode (coords.map fun c => c &&& tileMask)
  .ok (origin, off % 2 ^ 32)

/-- The first coordinate that is out of bounds, with its dimension and the bound. -/
def outOfBounds (coords : CoordinateND) (space : HypercubeTensorSpace) : Option (Nat × Nat × Nat) :=
  ((coords.zip space.shape).zipIdx.find? fun ((c, bound), _) => bound ≤ c).map
    fun ((c, bound), dim) => (dim, c, bound)

def setVoxel (coords : CoordinateND) (val : UInt32) (space : HypercubeTensorSpace) :
    Except Failure HypercubeTensorSpace := do
  if coords.length ≠ space.shape.length then
    .error (.error (.invalidRequest
      s!"Dimension mismatch: expected {space.shape.length}, got {coords.length}"))
  else
    match space.outOfBounds coords with
    | some (dim, c, bound) =>
      .error (.error (.invalidRequest
        s!"Coordinate index out of bounds at dimension {dim}: {c} >= {bound}"))
    | none => do
        let (origin, off) ← space.splitTileCoord coords
        let morton ← space.encoder.encode origin
        let tile := (space.tiles morton).getD (HyperTile.new origin space.tileCapacity)
        .ok { space with tiles := Function.update space.tiles morton (some (tile.set off val)) }

/-- In bounds, a write succeeds if the encoder can address the voxel, and it panics
    otherwise.  The shape and the encoder stay. -/
theorem setVoxel_inBounds {coords : CoordinateND} (val : UInt32) {space : HypercubeTensorSpace}
    (sized : coords.length = space.shape.length) (hin : space.outOfBounds coords = none) :
    (space.encoder.addresses coords = true ∧ ∃ written, space.setVoxel coords val = .ok written ∧
        written.shape = space.shape ∧ written.encoder = space.encoder) ∨
      (space.encoder.addresses coords = false ∧
        ∃ msg, space.setVoxel coords val = .error (.panic msg)) := by
  simp only [setVoxel, splitTileCoord, MortonEncoderND.addresses, sized, hin, ne_eq, not_true,
    if_false, bind, Except.bind]
  cases off : space.encoder.encode (coords.map fun c => c &&& tileMask) with
  | error failure =>
    obtain ⟨msg, rfl⟩ := MortonEncoderND.encode_error off
    exact .inr ⟨rfl, msg, rfl⟩
  | ok number =>
    dsimp only
    cases tile : space.encoder.encode (coords.map fun c => (c >>> tileShift) <<< tileShift) with
    | error failure =>
      obtain ⟨msg, rfl⟩ := MortonEncoderND.encode_error tile
      exact .inr ⟨rfl, msg, rfl⟩
    | ok morton => exact .inl ⟨rfl, _, rfl, rfl, rfl⟩

end HypercubeTensorSpace
end HoloSphere.Tensor
