import HoloSphere.Error
import HoloSphere.Metadata.Index
import HoloSphere.Proof.Search
import HoloSphere.Rivero.Territory

/-! # The vector index

`HNSQRIndex` of `lib.rs` with its insertions, removals, clearing, lookups and the exact scan.  Two
things are left open.  The numbers: a component and a scalar are of any type, with an arithmetic
that says how vectors are measured and compared.  And the routing: what the address compiler
returns, which witnesses are chosen and how the graph is wired are functions about which nothing
is assumed, since no result here depends on them.  The level of a node is random in the source and
comes with each insertion.
-/

namespace HoloSphere.Index
open Proof (NodeIndex Finalist admits)
open Rivero Metadata Store

inductive DistanceFunction where
  | cosine
  | projectiveOverlap
  | projectiveSineDistance
  | phaseAlignedChordalDistance
  | euclidean
  deriving DecidableEq

/-- The settings that a modelled operation reads. -/
structure HNSQRConfig where
  maxElements : Nat := 100000
  distanceFunction : DistanceFunction := .cosine
  multiRootEnsembleSize : Nat := 4
  riveroEnabled : Bool := false
  riveroWitnessDegree : Nat := 64
  riveroFallbackOnUnderfill : Bool := true
  deriving DecidableEq

def riveroWitnessMaxDegree : Nat := 64

def boundedDegree (requested : Nat) : Nat := min requested riveroWitnessMaxDegree

/-- A witness without its similarity. -/
structure ScoredWitness where
  index : NodeIndex
  deriving DecidableEq

/-- A node in its slot; times and counters are left out. -/
structure Node where
  externalId : String
  level : Nat
  layers : List (List NodeIndex)
  riveroWitnesses : List ScoredWitness
  deriving DecidableEq

namespace Node

def new (extId : String) (level : Nat) : Node :=
  ⟨extId, level, List.replicate (level + 1) [], []⟩

end Node

/-- A claimed slot of the arena; it is live from its publication to its deletion. -/
structure Slot (C S : Type) where
  vector : List C
  normSq : S
  node : Option Node
  live : Bool
  deriving DecidableEq

structure HNSQRIndex (C S : Type) where
  config : HNSQRConfig
  dimension : Nat
  arena : List (Slot C S)
  metadataIndex : MetadataInvertedIndex
  riveroIndex : RiveroTerritoryIndex
  idToIndex : String → Option NodeIndex
  /-- The members of layer 0, in the order of their insertion. -/
  layer0 : List NodeIndex
  entryPoints : List NodeIndex
  maxLevel : Nat

structure Arithmetic (C S : Type) where
  normSq : List C → S
  /-- `similarity_score_slices_with_metric`, with the squared norms of both sides. -/
  similarity : DistanceFunction → List C → List C → S → S → S

/-- The routing that is left open. -/
structure Routing (C S : Type) where
  compile : List C → RiveroAddress
  selectRiveroWitnesses : HNSQRIndex C S → List C → List ScoredWitness
  /-- The witnesses of every node once a new one has been proposed to its own. -/
  reciprocalWitnesses : HNSQRIndex C S → NodeIndex → NodeIndex → List ScoredWitness
  /-- The connections of every node once a new one has been wired. -/
  connections : HNSQRIndex C S → NodeIndex → NodeIndex → List (List NodeIndex)

/-- What comes with a vector. -/
inductive Attributes where
  | none
  | metadata (ents : List (String × MetadataValue))
  | json (ents : List (String × JsonValue))
  deriving DecidableEq

namespace HNSQRIndex
variable {C S : Type}

def new (config : HNSQRConfig) (dim : Nat) : HNSQRIndex C S where
  config := config
  dimension := dim
  arena := []
  metadataIndex := .new
  riveroIndex := .new
  idToIndex := fun _ => none
  layer0 := []
  entryPoints := []
  maxLevel := 0

section
variable (idx : HNSQRIndex C S)

def maxCapacity : Nat := max idx.config.maxElements 1000

def isLive (slot : NodeIndex) : Bool := (idx.arena[slot]?).any Slot.live

/-- `arena.get_node`, which answers for live slots only. -/
def liveNode (slot : NodeIndex) : Option Node :=
  (idx.arena[slot]?).bind fun entry => if entry.live then entry.node else none

def vectorSlice (slot : NodeIndex) : List C := (idx.arena[slot]?).elim [] Slot.vector

def isEmpty : Bool := !idx.arena.any Slot.live

def liveSlots : List NodeIndex := (List.range idx.arena.length).filter idx.isLive

def contains (id : String) : Bool := (idx.idToIndex id).isSome

/-- Nothing is routed through a graph if Rivero is on without a fallback. -/
def buildGraph : Bool := !idx.config.riveroEnabled || idx.config.riveroFallbackOnUnderfill

def setWitnesses (witnesses : NodeIndex → List ScoredWitness) : HNSQRIndex C S :=
  { idx with
    arena := idx.arena.mapIdx fun slot entry =>
      { entry with
        node := entry.node.map fun node => { node with riveroWitnesses := witnesses slot } } }

def setConnections (layers : NodeIndex → List (List NodeIndex)) : HNSQRIndex C S :=
  { idx with
    arena := idx.arena.mapIdx fun slot entry =>
      { entry with node := entry.node.map fun node => { node with layers := layers slot } } }

def setLive (slot : NodeIndex) (live : Bool) : HNSQRIndex C S :=
  { idx with arena := idx.arena.modify slot fun entry => { entry with live := live } }

end

section
variable (nums : Numerals) (arithmetic : Arithmetic C S) (route : Routing C S)

def attach (attrs : Attributes) (slot : NodeIndex) (metadataIndex : MetadataInvertedIndex) :
    MetadataInvertedIndex :=
  match attrs with
  | .none => metadataIndex
  | .metadata ents => metadataIndex.indexNode nums slot ents
  | .json ents => metadataIndex.insertMetadata nums slot ents

def insertionLevel (drawn : Nat) (idx : HNSQRIndex C S) : Nat :=
  if idx.config.riveroEnabled && !idx.config.riveroFallbackOnUnderfill then 0 else min drawn 31

/-- The slot is written: vector, node, id, metadata and layer membership. -/
def claim (id : String) (data : List C) (drawn : Nat) (attrs : Attributes)
    (idx : HNSQRIndex C S) : HNSQRIndex C S :=
  let slot := idx.arena.length
  let witnesses :=
    if idx.config.riveroEnabled && decide (0 < boundedDegree idx.config.riveroWitnessDegree) then
      route.selectRiveroWitnesses idx data
    else []
  let node : Node :=
    { Node.new id (idx.insertionLevel drawn) with riveroWitnesses := witnesses }
  { idx with
    arena := idx.arena ++ [⟨data, arithmetic.normSq data, some node, false⟩]
    idToIndex := Function.update idx.idToIndex id (some slot)
    metadataIndex := attach nums attrs slot idx.metadataIndex
    layer0 := if idx.buildGraph then idx.layer0 ++ [slot] else idx.layer0 }

/-- The slot is registered with the territories and becomes visible. -/
def publish (data : List C) (slot : NodeIndex) (idx : HNSQRIndex C S) : HNSQRIndex C S :=
  let registered :=
    if idx.config.riveroEnabled then
      { idx.setWitnesses (route.reciprocalWitnesses idx slot) with
        riveroIndex := idx.riveroIndex.insert (route.compile data) slot }
    else idx
  registered.setLive slot true

/-- A node that finds no entry point, or the first slot, becomes the root. -/
def isRoot (slot : NodeIndex) (idx : HNSQRIndex C S) : Bool := idx.entryPoints.isEmpty || slot == 0

def wire (slot level : Nat) (idx : HNSQRIndex C S) : HNSQRIndex C S :=
  let wired := idx.setConnections (route.connections idx slot)
  if idx.maxLevel < level then { wired with entryPoints := [slot], maxLevel := level }
  else if level = idx.maxLevel ∧ idx.entryPoints.length < idx.config.multiRootEnsembleSize ∧
      slot ∉ idx.entryPoints then
    { wired with entryPoints := idx.entryPoints ++ [slot] }
  else wired

def insert (id : String) (data : List C) (drawn : Nat) (attrs : Attributes)
    (idx : HNSQRIndex C S) : Except HNSQRError (HNSQRIndex C S × NodeIndex) :=
  if data.length ≠ idx.dimension then .error (.dimensionMismatch idx.dimension data.length)
  else if idx.contains id then .error (.nodeAlreadyExists id)
  else if idx.maxCapacity ≤ idx.arena.length then .error (.indexFull idx.maxCapacity)
  else
    let slot := idx.arena.length
    let level := idx.insertionLevel drawn
    let pub := (idx.claim nums arithmetic route id data drawn attrs).publish
      route data slot
    if !idx.buildGraph then .ok (pub, slot)
    else if idx.isRoot slot then
      .ok ({ pub with entryPoints := [slot], maxLevel := level }, slot)
    else .ok (pub.wire route slot level, slot)

/-- Strict nodes forget a witness that is removed, if it kept them among its own. -/
def forgetWitness (slot : NodeIndex) (idx : HNSQRIndex C S) (neighbor : NodeIndex) :
    HNSQRIndex C S :=
  if idx.isLive neighbor then
    { idx with
      arena := idx.arena.modify neighbor fun entry =>
        { entry with
          node := entry.node.map fun node =>
            { node with
              riveroWitnesses := node.riveroWitnesses.filter fun witness =>
                witness.index ≠ slot } } }
  else idx

def witnessNeighbors (slot : NodeIndex) (idx : HNSQRIndex C S) : List NodeIndex :=
  if idx.buildGraph then []
  else (idx.liveNode slot).elim [] fun node =>
    (node.riveroWitnesses.take (boundedDegree idx.config.riveroWitnessDegree)).map
      ScoredWitness.index

/-- The entry points without a slot; the last one is replaced from layer 0. -/
def entryPointsWithout (slot : NodeIndex) (idx : HNSQRIndex C S) : List NodeIndex :=
  if slot ∈ idx.entryPoints then
    let left := idx.entryPoints.erase slot
    if left.isEmpty then
      (idx.layer0.find? fun other => other != slot && idx.isLive other).toList
    else left
  else idx.entryPoints

/-- Whether there was such an id comes second. -/
def remove (id : String) (idx : HNSQRIndex C S) : HNSQRIndex C S × Bool :=
  match idx.idToIndex id with
  | none => (idx, false)
  | some slot =>
    let deleted :=
      { idx.setLive slot false with
        idToIndex := Function.update idx.idToIndex id none
        riveroIndex := idx.riveroIndex.evict (route.compile (idx.vectorSlice slot)) slot }
    let forgotten := (idx.witnessNeighbors slot).foldl (forgetWitness slot) deleted
    ({ forgotten with
        metadataIndex := idx.metadataIndex.removeNodeIndex slot
        entryPoints := deleted.entryPointsWithout slot }, true)

def clear (idx : HNSQRIndex C S) : HNSQRIndex C S :=
  { idx with
    arena := []
    idToIndex := fun _ => none
    metadataIndex := idx.metadataIndex.clear
    riveroIndex := .new
    layer0 := []
    entryPoints := []
    maxLevel := 0 }

/-- Every live slot that passes the mask, with its score. -/
def scored (qry : List C) (mask : Option (Finset NodeIndex)) (idx : HNSQRIndex C S) :
    List (Finalist S) :=
  (idx.liveSlots.filter (admits mask)).map fun slot =>
    ⟨slot, arithmetic.similarity idx.config.distanceFunction qry (idx.vectorSlice slot)
      (arithmetic.normSq qry) ((idx.arena[slot]?).elim (arithmetic.normSq []) Slot.normSq)⟩

def searchIndicesExact [LinearOrder S] (qry : List C) (k : Nat)
    (mask : Option (Finset NodeIndex)) (idx : HNSQRIndex C S) :
    Except HNSQRError (List (NodeIndex × S)) :=
  if qry.length ≠ idx.dimension then .error (.dimensionMismatch idx.dimension qry.length)
  else if k = 0 ∨ idx.isEmpty then .ok []
  else .ok ((best k (idx.scored arithmetic qry mask)).map fun finalist =>
    (finalist.slot, finalist.score))

end
end HNSQRIndex
end HoloSphere.Index
