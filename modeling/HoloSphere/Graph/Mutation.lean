import HoloSphere.Graph.Storage

/-! # Graph mutations

`GraphMutation` and `GraphMutationApplier` of `graph/mutation`.  The applier is
passed as a state, and what an operation leaves behind is returned beside its
answer, because a batch that fails keeps what its first elements did.  The label
and relationship-type catalogs are not read by any mutation and are left out.
-/

namespace HoloSphere.Graph

inductive GraphMutation where
  | createNode (extId : String) (labels : List LabelId) (props : GraphProperties)
      (vectorSlot : Option NodeIndex)
  | deleteNode (extId : String)
  | setNodeLabels (extId : String) (labels : List LabelId)
  | removeNodeLabels (extId : String) (labels : List LabelId)
  | patchNodeProperties (extId : String) (props : GraphProperties)
  | createRelationship (relationshipId : RelationshipId) (srcExt dstExt : String)
      (relType : RelTypeId) (props : GraphProperties) (weight : UInt32)
  | deleteRelationship (relationshipId : RelationshipId)
  | patchRelationshipProperties (relationshipId : RelationshipId) (props : GraphProperties)
  | batch (ops : List GraphMutation)

structure GraphMutationApplier where
  generation : GraphGeneration
  nodeIdMap : String → Option NodeIndex
  relIdMap : RelationshipId → Option Nat

namespace GraphMutationApplier

def new (gen : GraphGeneration) : GraphMutationApplier := ⟨gen, fun _ => none, fun _ => none⟩

abbrev Answer := GraphMutationApplier × Except HNSQRError Unit

def withNodes (nodes : NodeArena) (app : GraphMutationApplier) : GraphMutationApplier :=
  { app with generation := { app.generation with nodes := nodes } }

def withProperties (props : GraphPropertyStore) (app : GraphMutationApplier) :
    GraphMutationApplier :=
  { app with generation := { app.generation with properties := props } }

def addLabel (mask : UInt64) (label : LabelId) : UInt64 :=
  if label < labelFastSlots then mask ||| (1 <<< UInt64.ofNat label) else mask

def removeLabel (mask : UInt64) (label : LabelId) : UInt64 :=
  if label < labelFastSlots then mask &&& ~~~(1 <<< UInt64.ofNat label) else mask

/-- A node that exists already is left alone. -/
def createNode (extId : String) (labels : List LabelId) (props : GraphProperties)
    (vectorSlot : Option NodeIndex) (app : GraphMutationApplier) : Answer :=
  if (app.nodeIdMap extId).isSome then (app, .ok ())
  else
    let record : GraphNodeRecord :=
      ⟨labels.foldl addLabel 0, nullEdge, nullEdge, 0, 0, vectorSlot.getD u32Max, nullOverflowRef⟩
    let gen := app.generation
    let node := gen.nodes.nextId
    let stored := props.entries.foldl
      (fun store entry => store.setNodeProperty node entry.1 entry.2) gen.properties
    let gen := { gen with nodes := gen.nodes.push record, properties := stored }
    ({ app with
        generation := gen
        nodeIdMap := Function.update app.nodeIdMap extId (some node) }, .ok ())

/-- The incident edges stay behind, with their entries in the relationship map. -/
def deleteNode (extId : String) (app : GraphMutationApplier) : Answer :=
  match app.nodeIdMap extId with
  | none => (app, .ok ())
  | some node =>
    let gen :=
      { app.generation with
        nodes := app.generation.nodes.delete node
        properties := app.generation.properties.deleteNodeProperties node }
    ({ app with
        generation := gen
        nodeIdMap := Function.update app.nodeIdMap extId none }, .ok ())

def setNodeLabels (extId : String) (labels : List LabelId) (add : Bool)
    (app : GraphMutationApplier) : Answer :=
  match app.nodeIdMap extId with
  | none => (app, .error (.nodeNotFound extId))
  | some node =>
    match NodeArena.get node app.generation.nodes with
    | none => (app, .ok ())
    | some record =>
      let change := if add then addLabel else removeLabel
      let record := { record with labelFastMask := labels.foldl change record.labelFastMask }
      (app.withNodes (NodeArena.update node record app.generation.nodes), .ok ())

def patchNodeProperties (extId : String) (props : GraphProperties)
    (app : GraphMutationApplier) : Answer :=
  match app.nodeIdMap extId with
  | none => (app, .error (.nodeNotFound extId))
  | some node =>
    (app.withProperties (app.generation.properties.patchNodeProperties node props), .ok ())

def saturatingSucc (degree : Nat) : Nat := min (degree + 1) u32Max

/-- The new record goes to the head of the source's out-chain and then, in a second
    write, to the head of the destination's in-chain.  The record which that write
    changes is read back by its number. -/
def link (edge : EdgeRecord) (source : GraphNodeRecord) (nodes : NodeArena) (delta : EdgeDelta) :
    NodeArena × EdgeDelta :=
  let id := delta.nextId
  let edge := { edge with nextSrc := source.outRef }
  let delta := delta.push edge
  let source := { source with outRef := id, outDegree := saturatingSucc source.outDegree }
  let nodes := NodeArena.update edge.srcNode source nodes
  match NodeArena.get edge.dstNode nodes with
  | none => (nodes, delta)
  | some tgt =>
    let committed := { (EdgeDelta.get id delta).getD edge with nextDst := tgt.inRef }
    let tgt := { tgt with inRef := id, inDegree := saturatingSucc tgt.inDegree }
    (NodeArena.update edge.dstNode tgt nodes, EdgeDelta.update id committed delta)

def createRelationship (relationshipId : RelationshipId) (srcExt dstExt : String)
    (relType : RelTypeId) (props : GraphProperties) (weight : UInt32)
    (app : GraphMutationApplier) : Answer :=
  if (app.relIdMap relationshipId).isSome then (app, .ok ())
  else
    match app.nodeIdMap srcExt, app.nodeIdMap dstExt with
    | none, _ => (app, .error (.nodeNotFound srcExt))
    | some _, none => (app, .error (.nodeNotFound dstExt))
    | some src, some dst =>
      let gen := app.generation
      match gen.edgeDelta with
      | none => (app, .error (.internal "Graph generation is sealed; cannot write"))
      | some delta =>
        match NodeArena.get src gen.nodes with
        | none => (app, .error (.nodeNotFound srcExt))
        | some source =>
          let edge : EdgeRecord :=
            { relType := relType, srcNode := src, dstNode := dst, weight := weight }
          let id := delta.nextId
          let (nodes, linked) := link edge source gen.nodes delta
          let stored := props.entries.foldl
            (fun store entry => store.setRelProperty id entry.1 entry.2)
            gen.properties
          let gen :=
            { gen with
              nodes := nodes, edgeDelta := some linked, properties := stored }
          ({ app with
              generation := gen
              relIdMap := Function.update app.relIdMap relationshipId (some id) },
            .ok ())

def deleteRelationship (relationshipId : RelationshipId) (app : GraphMutationApplier) : Answer :=
  match app.relIdMap relationshipId with
  | none => (app, .ok ())
  | some id =>
    let gen := app.generation
    let gen :=
      match gen.edgeDelta with
      | none => gen
      | some delta =>
        { gen with
          edgeDelta := some (delta.delete id)
          properties := gen.properties.deleteRelProperties id }
    ({ app with
        generation := gen
        relIdMap := Function.update app.relIdMap relationshipId none }, .ok ())

def patchRelProperties (relationshipId : RelationshipId) (props : GraphProperties)
    (app : GraphMutationApplier) : Answer :=
  match app.relIdMap relationshipId with
  | none => (app, .error (.internal s!"Relationship {relationshipId} not found"))
  | some id =>
    (app.withProperties (app.generation.properties.patchRelProperties id props), .ok ())

def requireNode (extId : String) (app : GraphMutationApplier) : Except HNSQRError Unit :=
  if (app.nodeIdMap extId).isSome then .ok () else .error (.nodeNotFound extId)

mutual

def prevalidate (app : GraphMutationApplier) : GraphMutation → Except HNSQRError Unit
  | .createRelationship _ srcExt dstExt _ _ _ => do
      app.requireNode srcExt
      app.requireNode dstExt
  | .setNodeLabels extId _ => app.requireNode extId
  | .removeNodeLabels extId _ => app.requireNode extId
  | .patchNodeProperties extId _ => app.requireNode extId
  | .patchRelationshipProperties relationshipId _ =>
    if (app.relIdMap relationshipId).isSome then .ok ()
    else .error (.invalidRequest s!"Relationship {relationshipId} not found")
  | .batch inner => prevalidateAll app inner
  | .createNode .. => .ok ()
  | .deleteNode _ => .ok ()
  | .deleteRelationship _ => .ok ()

def prevalidateAll (app : GraphMutationApplier) : List GraphMutation → Except HNSQRError Unit
  | [] => .ok ()
  | mutation :: rest => do
      prevalidate app mutation
      prevalidateAll app rest

end

mutual

/-- A batch is validated as a whole before its first element is applied. -/
def apply : GraphMutation → GraphMutationApplier → Answer
  | .createNode extId labels props vectorSlot, app =>
    app.createNode extId labels props vectorSlot
  | .deleteNode extId, app => app.deleteNode extId
  | .setNodeLabels extId labels, app => app.setNodeLabels extId labels true
  | .removeNodeLabels extId labels, app => app.setNodeLabels extId labels false
  | .patchNodeProperties extId props, app =>
    app.patchNodeProperties extId props
  | .createRelationship relationshipId srcExt dstExt relType props weight, app =>
    app.createRelationship relationshipId srcExt dstExt relType props weight
  | .deleteRelationship relationshipId, app => app.deleteRelationship relationshipId
  | .patchRelationshipProperties relationshipId props, app =>
    app.patchRelProperties relationshipId props
  | .batch ops, app =>
    match app.prevalidateAll ops with
    | .error e => (app, .error e)
    | .ok () => applyAll ops app

def applyAll : List GraphMutation → GraphMutationApplier → Answer
  | [], app => (app, .ok ())
  | mutation :: rest, app =>
    match apply mutation app with
    | (next, .error e) => (next, .error e)
    | (next, .ok ()) => applyAll rest next

end
end GraphMutationApplier
end HoloSphere.Graph
