import HoloSphere.Error
import Mathlib.Data.List.AList

/-! # Graph storage

The node arena, the edge delta and the property store of `graph/storage`.  An
arena's records and liveness flags grow together and are one list of slots here;
its `AtomicU32` counter is the number of slots ever pushed, as far as 32 bits
tell.  Property maps are functions, so that two stores are equal when they hold
the same properties.
-/

namespace HoloSphere.Graph

abbrev NodeIndex := Nat
abbrev LabelId := Nat
abbrev PropertyKey := Nat
abbrev RelTypeId := Nat
abbrev RelationshipId := Nat

def u32Max : Nat := 2 ^ 32 - 1

/-- A property value; a float is its bit pattern. -/
inductive GraphPropertyValue where
  | bool (val : Bool)
  | int (val : Int)
  | float (bits : UInt64)
  | text (val : String)
  | intList (values : List Int)
  | floatList (bits : List UInt64)
  | textList (values : List String)
  deriving DecidableEq

/-- The property map that a mutation carries: each key once. -/
abbrev GraphProperties := AList fun _ : PropertyKey => GraphPropertyValue

structure Slot (ρ : Type) where
  record : ρ
  live : Bool
  deriving DecidableEq

structure Arena (ρ : Type) where
  slots : List (Slot ρ) := []
  deriving DecidableEq

namespace Arena
variable {ρ : Type}

/-- The value of the counter: the number which the next record is given. -/
def nextId (arena : Arena ρ) : Nat := arena.slots.length % 2 ^ 32

def push (rec : ρ) (arena : Arena ρ) : Arena ρ := ⟨arena.slots ++ [⟨rec, true⟩]⟩

def isLive (idx : Nat) (arena : Arena ρ) : Bool :=
  match arena.slots[idx]? with
  | some slot => slot.live
  | none => false

def record? (idx : Nat) (arena : Arena ρ) : Option ρ := arena.slots[idx]?.map Slot.record

def write (idx : Nat) (rec : ρ) (arena : Arena ρ) : Arena ρ :=
  ⟨arena.slots.modify idx fun slot => { slot with record := rec }⟩

/-- The tombstone; the slot is not given back. -/
def delete (idx : Nat) (arena : Arena ρ) : Arena ρ :=
  ⟨arena.slots.modify idx fun slot => { slot with live := false }⟩

end Arena

structure GraphNodeRecord where
  labelFastMask : UInt64
  outRef : Nat
  inRef : Nat
  outDegree : Nat
  inDegree : Nat
  vectorSlot : Nat
  labelOverflowRef : Nat
  deriving DecidableEq

def nullOverflowRef : Nat := u32Max
def nullEdge : Nat := u32Max
def labelFastSlots : Nat := 64

abbrev NodeArena := Arena GraphNodeRecord

namespace NodeArena

/-- `None` when the index is out of range or the node is deleted. -/
def get (node : NodeIndex) (nodes : NodeArena) : Option GraphNodeRecord :=
  if nodes.isLive node then nodes.record? node else none

def update (node : NodeIndex) (rec : GraphNodeRecord) (nodes : NodeArena) : NodeArena :=
  if nodes.isLive node then nodes.write node rec else nodes

end NodeArena

/-- A relationship record; the weight is the bit pattern of an `f32`. -/
structure EdgeRecord where
  relType : RelTypeId
  srcNode : NodeIndex
  dstNode : NodeIndex
  nextSrc : Nat := nullEdge
  nextDst : Nat := nullEdge
  propOffset : Nat := 0
  weight : UInt32
  deriving DecidableEq

abbrev EdgeDelta := Arena EdgeRecord

namespace EdgeDelta

/-- `None` only when the index is out of range: a tombstoned record can be read. -/
def get (id : Nat) (delta : EdgeDelta) : Option EdgeRecord := delta.record? id

def update (id : Nat) (rec : EdgeRecord) (delta : EdgeDelta) : EdgeDelta := delta.write id rec

end EdgeDelta

abbrev PropertyTable := Nat → Option (PropertyKey → Option GraphPropertyValue)

namespace PropertyTable

def entry (owner : Nat) (tbl : PropertyTable) : PropertyKey → Option GraphPropertyValue :=
  (tbl owner).getD fun _ => none

def set (owner : Nat) (key : PropertyKey) (val : GraphPropertyValue) (tbl : PropertyTable) :
    PropertyTable :=
  Function.update tbl owner (some (Function.update (entry owner tbl) key (some val)))

def remove (owner : Nat) (tbl : PropertyTable) : PropertyTable := Function.update tbl owner none

/-- The owner gets an entry even when the patch is empty. -/
def patch (owner : Nat) (props : GraphProperties) (tbl : PropertyTable) : PropertyTable :=
  Function.update tbl owner (some fun key => (props.lookup key).or (entry owner tbl key))

end PropertyTable

structure GraphPropertyStore where
  nodeProps : PropertyTable := fun _ => none
  relProps : PropertyTable := fun _ => none

namespace GraphPropertyStore

def setNodeProperty (node : NodeIndex) (key : PropertyKey) (val : GraphPropertyValue)
    (store : GraphPropertyStore) : GraphPropertyStore :=
  { store with nodeProps := store.nodeProps.set node key val }

def deleteNodeProperties (node : NodeIndex) (store : GraphPropertyStore) : GraphPropertyStore :=
  { store with nodeProps := store.nodeProps.remove node }

def patchNodeProperties (node : NodeIndex) (props : GraphProperties)
    (store : GraphPropertyStore) : GraphPropertyStore :=
  { store with nodeProps := store.nodeProps.patch node props }

def setRelProperty (rel : Nat) (key : PropertyKey) (val : GraphPropertyValue)
    (store : GraphPropertyStore) : GraphPropertyStore :=
  { store with relProps := store.relProps.set rel key val }

def deleteRelProperties (rel : Nat) (store : GraphPropertyStore) : GraphPropertyStore :=
  { store with relProps := store.relProps.remove rel }

def patchRelProperties (rel : Nat) (props : GraphProperties) (store : GraphPropertyStore) :
    GraphPropertyStore :=
  { store with relProps := store.relProps.patch rel props }

end GraphPropertyStore

/-- One entry of the sealed form.  Its neighbour, relationship type and weight stand at one
    position of three parallel vectors, which are one list here. -/
structure PackedEdge where
  neighbor : NodeIndex
  relType : RelTypeId
  weight : UInt32
  deriving DecidableEq

structure CsrAdjacency where
  rowOffsets : List Nat
  packed : List PackedEdge
  nodeCount : Nat
  deriving DecidableEq

structure CscAdjacency where
  colOffsets : List Nat
  packed : List PackedEdge
  nodeCount : Nat
  deriving DecidableEq

inductive SealedAdjacency where
  | csr (outgoing : CsrAdjacency) (incoming : CscAdjacency)
  deriving DecidableEq

/-- A generation; the edge delta is gone once it is sealed. -/
structure GraphGeneration where
  generation : Nat
  nodes : NodeArena := {}
  edgeDelta : Option EdgeDelta := some {}
  sealed : Option SealedAdjacency := none
  properties : GraphPropertyStore := {}
  nodeCountAtSeal : Nat := 0

def GraphGeneration.newMutable (gen : Nat) : GraphGeneration := { generation := gen }

end HoloSphere.Graph
