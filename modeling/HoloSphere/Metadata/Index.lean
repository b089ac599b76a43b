import HoloSphere.Proof.TopK
import HoloSphere.Store.Retain
import Mathlib.Data.Finset.Basic

/-! # The inverted metadata index

The postings of `metadata/index.rs`.  A bitmap is a finite set of slots.  How a number with a
fractional part is printed and scaled, and how a text is read as a point on the globe, is
arbitrary.
-/

namespace HoloSphere.Metadata
open Proof (NodeIndex)
open Store (retain)

/-- A number with a fractional part is the bit pattern of its `f64`. -/
inductive MetadataValue where
  | string (text : String)
  | integer (val : Int)
  | float (bits : UInt64)
  | boolean (val : Bool)
  deriving DecidableEq

/-- A JSON value, a number with the text that it prints as. -/
inductive JsonValue where
  | string (text : String)
  | number (text : String)
  | bool (val : Bool)
  | other
  deriving DecidableEq

/-- What is done with `f64` values and coordinates. -/
structure Numerals where
  formatFloat : UInt64 → String
  scale : UInt64 → Int
  packedGeoStr : String → Option UInt64

/-- Postings under the values of each field. -/
abbrev Postings (κ : Type) := AList fun _ : String => AList fun _ : κ => Finset NodeIndex

namespace Postings
variable {κ : Type} [DecidableEq κ]

def post (postings : Postings κ) (field : String) (val : κ) (node : NodeIndex) : Postings κ :=
  let values := (postings.lookup field).getD ∅
  postings.insert field (values.insert val (insert node ((values.lookup val).getD ∅)))

/-- Postings that become empty are dropped, and fields without postings too. -/
def removeNode (node : NodeIndex) (postings : Postings κ) : Postings κ :=
  retain (fun values =>
    let left := retain (fun bitmap =>
      if (bitmap.erase node) = ∅ then none else some (bitmap.erase node)) values
    if left.entries = [] then none else some left) postings

end Postings

structure MetadataInvertedIndex where
  categorical : Postings String
  numeric : Postings Int
  spatial : Postings UInt64

section
variable (nums : Numerals)

namespace MetadataValue

def toStringKey : MetadataValue → String
  | .string text => text
  | .integer val => toString val
  | .float bits => nums.formatFloat bits
  | .boolean val => if val then "true" else "false"

def toI64Scaled : MetadataValue → Option Int
  | .integer val => some val
  | .float bits => some (nums.scale bits)
  | _ => none

def packedGeoValue : MetadataValue → Option UInt64
  | .string text => nums.packedGeoStr text
  | _ => none

end MetadataValue

namespace MetadataInvertedIndex

def new : MetadataInvertedIndex := ⟨∅, ∅, ∅⟩

def indexEntry (node : NodeIndex) (idx : MetadataInvertedIndex)
    (entry : String × MetadataValue) : MetadataInvertedIndex where
  categorical := idx.categorical.post entry.1 (entry.2.toStringKey nums) node
  numeric := (entry.2.toI64Scaled nums).elim idx.numeric fun scaled =>
    idx.numeric.post entry.1 scaled node
  spatial := (entry.2.packedGeoValue nums).elim idx.spatial fun point =>
    idx.spatial.post entry.1 point node

def indexNode (node : NodeIndex) (md : List (String × MetadataValue))
    (idx : MetadataInvertedIndex) : MetadataInvertedIndex :=
  md.foldl (indexEntry nums node) idx

/-- One field of a JSON object; a nested value is passed over. -/
def insertJson (node : NodeIndex) (idx : MetadataInvertedIndex) (entry : String × JsonValue) :
    MetadataInvertedIndex :=
  let posted := fun text =>
    { idx with
      categorical := idx.categorical.post entry.1 text node
      spatial := (nums.packedGeoStr text).elim idx.spatial fun point =>
        idx.spatial.post entry.1 point node }
  match entry.2 with
  | .string text => posted text
  | .number text => posted text
  | .bool val => posted (if val then "true" else "false")
  | .other => idx

def insertMetadata (node : NodeIndex) (md : List (String × JsonValue))
    (idx : MetadataInvertedIndex) : MetadataInvertedIndex :=
  md.foldl (insertJson nums node) idx

def removeNodeIndex (node : NodeIndex) (idx : MetadataInvertedIndex) : MetadataInvertedIndex where
  categorical := idx.categorical.removeNode node
  numeric := idx.numeric.removeNode node
  spatial := idx.spatial.removeNode node

/-- The points on the globe keep their postings. -/
def clear (idx : MetadataInvertedIndex) : MetadataInvertedIndex :=
  { idx with categorical := ∅, numeric := ∅ }

end MetadataInvertedIndex
end
end HoloSphere.Metadata
