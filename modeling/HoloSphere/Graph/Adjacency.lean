import HoloSphere.Graph.Storage
import HoloSphere.Store.Buckets
import HoloSphere.Store.Chains
import Mathlib.Data.List.Sort

/-! # Adjacency

The two forms in which a generation is traversed: the chains of the edge delta while it is
open, and the packed rows and columns once it is sealed.  Outgoing and incoming edges are
handled alike; a `Side` says which end of an edge owns it and which pointers lead to it.
-/

namespace HoloSphere.Graph
open Store EdgeRecord

/-- A direction of traversal. -/
inductive Side where
  | out
  | into
  deriving DecidableEq

namespace Side

def owner : Side → EdgeRecord → NodeIndex
  | .out => srcNode
  | .into => dstNode

def other : Side → EdgeRecord → NodeIndex
  | .out => dstNode
  | .into => srcNode

def next : Side → EdgeRecord → Nat
  | .out => nextSrc
  | .into => nextDst

def head : Side → GraphNodeRecord → Nat
  | .out => GraphNodeRecord.outRef
  | .into => GraphNodeRecord.inRef

end Side

namespace EdgeDelta

def liveAt (delta : EdgeDelta) (id : Nat) : Option (Nat × EdgeRecord) :=
  match delta.slots[id]? with
  | some slot => if slot.live then some (id, slot.record) else none
  | none => none

def liveEdges (delta : EdgeDelta) : List (Nat × EdgeRecord) :=
  (List.range delta.slots.length).filterMap (liveAt delta)

/-- The live records of a chain.  A chain that passes more records than there are runs in a
    circle, and so does the loop that follows it. -/
def iterChain (next : EdgeRecord → Nat) (head : Nat) (delta : EdgeDelta) :
    Option (List (Nat × EdgeRecord)) :=
  (walk (fun id => (get id delta).map next) nullEdge (delta.slots.length + 1) head).map
    fun ids => ids.filterMap (liveAt delta)

def iterOutChain (head : Nat) (delta : EdgeDelta) : Option (List (Nat × EdgeRecord)) :=
  iterChain nextSrc head delta

def iterInChain (head : Nat) (delta : EdgeDelta) : Option (List (Nat × EdgeRecord)) :=
  iterChain nextDst head delta

end EdgeDelta

namespace PackedEdge

def KeyLe (fst snd : PackedEdge) : Prop :=
  fst.neighbor < snd.neighbor ∨ (fst.neighbor = snd.neighbor ∧ fst.relType ≤ snd.relType)

instance : DecidableRel KeyLe := fun fst snd =>
  inferInstanceAs (Decidable (fst.neighbor < snd.neighbor ∨
    (fst.neighbor = snd.neighbor ∧ fst.relType ≤ snd.relType)))

/-- One of the orders in which `sort_unstable_by_key` may leave a row. -/
def sortByKey (ents : List PackedEdge) : List PackedEdge := ents.insertionSort KeyLe

/-- The entry with which the vectors are filled at first; the weight is one. -/
def blank : PackedEdge := ⟨0, 0, 0x3F800000⟩

end PackedEdge

/-- The edges that are sealed: live ones between live nodes. -/
def sealable (owner : EdgeRecord → NodeIndex) (nodes : NodeArena) (delta : EdgeDelta)
    (nodeCount : Nat) : List EdgeRecord :=
  ((EdgeDelta.liveEdges delta).map Prod.snd).filter fun rec =>
    nodes.isLive rec.srcNode && nodes.isLive rec.dstNode &&
      decide (owner rec < nodeCount)

/-- The offsets and the packed entries of one direction. -/
def packEdges (side : Side) (nodes : NodeArena) (delta : EdgeDelta) (nodeCount : Nat) :
    List Nat × List PackedEdge :=
  let edges := sealable side.owner nodes delta nodeCount
  let degrees := Buckets.tally side.owner nodeCount edges
  let starts := Buckets.offsetsFrom 0 degrees
  let filled := Buckets.fill side.owner
    (fun rec => ⟨side.other rec, rec.relType, rec.weight⟩) PackedEdge.blank starts
    nodeCount edges
  (starts, Buckets.sortRows PackedEdge.sortByKey starts nodeCount filled)

namespace CsrAdjacency

def build (nodes : NodeArena) (delta : EdgeDelta) (nodeCount : Nat) : CsrAdjacency :=
  let (rowOffsets, packed) := packEdges .out nodes delta nodeCount
  ⟨rowOffsets, packed, nodeCount⟩

/-- The slices of `out_neighbors`, `out_weights` and of the relationship types. -/
def outRow (node : NodeIndex) (csr : CsrAdjacency) : List PackedEdge :=
  if csr.nodeCount ≤ node then [] else Buckets.row csr.rowOffsets csr.packed node

end CsrAdjacency

namespace CscAdjacency

def build (nodes : NodeArena) (delta : EdgeDelta) (nodeCount : Nat) : CscAdjacency :=
  let (colOffsets, packed) := packEdges .into nodes delta nodeCount
  ⟨colOffsets, packed, nodeCount⟩

def inColumn (node : NodeIndex) (csc : CscAdjacency) : List PackedEdge :=
  if csc.nodeCount ≤ node then [] else Buckets.row csc.colOffsets csc.packed node

end CscAdjacency

inductive AdjacencyBlock where
  | delta (nodes : NodeArena) (edges : EdgeDelta)
  | immutable (outgoing : CsrAdjacency) (incoming : CscAdjacency)

def admitsType (relFilter : Option RelTypeId) (relType : RelTypeId) : Bool :=
  relFilter.all fun wanted => wanted = relType

/-- What a traversal hands to its visitor. -/
abbrev Visits := List (NodeIndex × UInt32)

namespace AdjacencyBlock

def expandDelta (side : Side) (node : NodeIndex) (relFilter : Option RelTypeId)
    (nodes : NodeArena) (edges : EdgeDelta) : Option Visits :=
  match NodeArena.get node nodes with
  | none => some []
  | some rec =>
    (EdgeDelta.iterChain side.next (side.head rec) edges).map fun visited =>
      (visited.filter fun entry => admitsType relFilter entry.2.relType).map fun entry =>
        (side.other entry.2, entry.2.weight)

def expandPacked (relFilter : Option RelTypeId) (ents : List PackedEdge) : Visits :=
  (ents.filter fun entry => admitsType relFilter entry.relType).map fun entry =>
    (entry.neighbor, entry.weight)

def expandOut (node : NodeIndex) (relFilter : Option RelTypeId) : AdjacencyBlock → Option Visits
  | .delta nodes edges => expandDelta .out node relFilter nodes edges
  | .immutable outgoing _ => some (expandPacked relFilter (outgoing.outRow node))

def expandIn (node : NodeIndex) (relFilter : Option RelTypeId) : AdjacencyBlock → Option Visits
  | .delta nodes edges => expandDelta .into node relFilter nodes edges
  | .immutable _ incoming => some (expandPacked relFilter (incoming.inColumn node))

end AdjacencyBlock

namespace GraphGeneration

/-- `seal`; the word is taken. -/
def sealGeneration (gen : GraphGeneration) : GraphGeneration × Except String Unit :=
  if gen.sealed.isSome then (gen, .error "Generation is already sealed")
  else
    match gen.edgeDelta with
    | none => (gen, .error "No edge delta to seal")
    | some delta =>
      let nodeCount := gen.nodes.slots.length
      ({ gen with
          edgeDelta := none
          nodeCountAtSeal := nodeCount
          sealed := some (.csr (.build gen.nodes delta nodeCount)
            (.build gen.nodes delta nodeCount)) }, .ok ())

/-- `None` stands for the panic of a generation without either form. -/
def adjacency (gen : GraphGeneration) : Option AdjacencyBlock :=
  match gen.sealed with
  | some (.csr outgoing incoming) => some (.immutable outgoing incoming)
  | none => gen.edgeDelta.map fun delta => .delta gen.nodes delta

end GraphGeneration
end HoloSphere.Graph
