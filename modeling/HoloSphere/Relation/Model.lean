import HoloSphere.Consensus.Frame
import HoloSphere.Entity.Model

/-! # Relations between entities

`RelationType`, `RelationArena`, `RelationSegment` and `RelationMutation::apply` of `relation/`.  A
bit of the live bitmap is kept with the row of its number.  A tombstone is taken out of that bitmap
inside `debug_assert!`, so whether assertions are compiled in is an argument here.  No mutation
reads the incidence index.
-/

namespace HoloSphere.Relation
open Entity Format Consensus
variable {ρ ν : Type}

inductive RelationTypeState where
  | proposed
  | admitted
  | deprecated
  deriving DecidableEq

structure RoleSchema where
  roleId : Nat
  name : String
  minCount : Nat
  maxCount : Nat
  required : Bool
  deriving DecidableEq

structure RelationType where
  id : Nat
  name : String
  schemaVersion : Nat
  state : RelationTypeState
  roles : List RoleSchema
  provenanceId : Nat
  structuralFingerprint : Nat
  deriving DecidableEq

def RoleSchema.hashed (role : RoleSchema) : Bytes :=
  toLe 2 role.roleId ++ (utf8 role.name ++ (toLe 2 role.minCount ++ (toLe 2 role.maxCount ++
    [if role.required then 1 else 0])))

def RelationType.computeStructuralFingerprint (id schemaVersion : Nat) (roles : List RoleSchema) :
    Nat :=
  (crc32 (toLe 4 id ++ (toLe 2 schemaVersion ++ roles.flatMap RoleSchema.hashed))).toNat

structure DurableRoleBinding where
  entityId : Nat
  roleId : Nat
  deriving DecidableEq

inductive SchemaValidationError where
  | missingRequiredRole (roleId : Nat)
  | unknownRole (roleId : Nat)
  | cardinalityViolation (roleId count minCount maxCount : Nat)
  deriving DecidableEq

def roleCount (bindings : List DurableRoleBinding) (roleId : Nat) : Nat :=
  bindings.countP (·.roleId = roleId)

def checkRole (bindings : List DurableRoleBinding) (r : RoleSchema) :
    Option SchemaValidationError :=
  let count := roleCount bindings r.roleId
  if r.required ∧ count < 1 then some (.missingRequiredRole r.roleId)
  else if count < r.minCount ∨ count > r.maxCount then
    some (.cardinalityViolation r.roleId count r.minCount r.maxCount)
  else none

/-- No result where the bindings of some role overflow their 16-bit count, which panics.  Of several
    unknown roles the source names any. -/
def validateBindings (schema : RelationType) (bindings : List DurableRoleBinding) :
    Option (Except SchemaValidationError Unit) :=
  if bindings.any fun b => 2 ^ 16 ≤ roleCount bindings b.roleId then none
  else
    match bindings.find? fun b => schema.roles.all (·.roleId ≠ b.roleId) with
    | some b => some (.error (.unknownRole b.roleId))
    | none => some ((schema.roles.findSome? (checkRole bindings)).elim (.ok ()) .error)

structure SegmentRoleBinding where
  entity : Nat
  roleId : Nat
  deriving DecidableEq

structure RelationHeader where
  relationTypeId : Nat
  bindingStart : Nat := 0
  versionRow : Nat
  provenanceRow : Nat
  bindingLen : Fin (2 ^ 16) := 0
  schemaVersion : Nat
  epistemicStatus : EpistemicStatus
  lifecycleStatus : LifecycleStatus := .active
  deriving DecidableEq

structure RelationSlot where
  header : RelationHeader
  live : Bool := false
  deriving DecidableEq

structure RelationVersionRow where
  relationId : Nat
  versionId : Nat
  validFromLsn : Nat
  validUntilLsn : Nat := maxLsn
  prevVersionRow : Nat := nullRowRef
  provenanceRow : Nat
  epistemicStatus : EpistemicStatus
  lifecycleStatus : LifecycleStatus := .active
  deriving DecidableEq

structure RelationSegment where
  arena : Arena RelationSlot := .new 1
  bindings : List SegmentRoleBinding := []
  versions : Arena RelationVersionRow := .new 1
  types : List RelationType := []

inductive RelationMutationError where
  | typeNotFound (typeId : Nat)
  | schemaValidation (reason : SchemaValidationError)
  | relationAlreadyExists (id : Nat)
  | relationNotFound (id : Nat)
  | relationTombstoned (id : Nat)
  | entityNotFound (id : Nat)
  | epistemicConflict (expected actual : EpistemicStatus)
  | epistemicTransition (reason : EpistemicTransitionError)
  | typeStateConflict (expected actual : RelationTypeState)

inductive RelationMutation (ρ : Type) where
  | proposeType (schema : RelationType)
  | admitType (typeId : Nat) (expected : RelationTypeState)
  | deprecateType (typeId : Nat) (expected : RelationTypeState)
  | createRelation (id typeId : Nat) (bindings : List DurableRoleBinding) (cited : Cited ρ)
    (status : EpistemicStatus)
  | createRelationVersion (id versionId : Nat) (cited : Cited ρ) (status : EpistemicStatus)
  | transitionEpistemic (id versionId : Nat) (expected next : EpistemicStatus) (cited : Cited ρ)
  | tombstone (id : Nat)

/-- Here a binding also moves the counter past its id. -/
def bindPast (id : Nat) (row : α) (a : Arena α) : Nat × Arena α :=
  let (index, a) := a.bind id row
  (index, { a with nextId := max a.nextId (id + 1) })

/-- A record gets an id of its own; the cited one is only used to look a record up. -/
def cite (cited : Cited ρ) (ent : EntitySegment ρ ν) : Nat × EntitySegment ρ ν :=
  match cited.record with
  | some record =>
    (ent.provenance.rows.length % 2 ^ 32,
      { ent with provenance := (ent.provenance.alloc fun _ => record).2 })
  | none => ((ent.provenance.idToIndex cited.id).getD nullRowRef, ent)

def locate (ent : EntitySegment ρ ν) (b : DurableRoleBinding) : Option SegmentRoleBinding :=
  (ent.arena.getById b.entityId).map fun found => ⟨found.1, b.roleId⟩

namespace RelationSegment

def getById (id : Nat) (seg : RelationSegment) : Option (Nat × RelationHeader) := do
  let index ← seg.arena.idToIndex id
  let slot ← seg.arena.getRow index
  some (index, slot.header)

def getBindings (header : RelationHeader) (seg : RelationSegment) : List SegmentRoleBinding :=
  if header.bindingStart + header.bindingLen ≤ seg.bindings.length then
    (seg.bindings.drop header.bindingStart).take header.bindingLen
  else []

def bind (id : Nat) (header : RelationHeader) (bindings : List SegmentRoleBinding)
    (seg : RelationSegment) : RelationSegment :=
  let header :=
    { header with
      bindingStart := seg.bindings.length % 2 ^ 32, bindingLen := .ofNat _ bindings.length }
  let (index, arena) := bindPast id ⟨header, false⟩ seg.arena
  { seg with
    arena := arena.modify index fun slot => { slot with live := true }
    bindings := seg.bindings ++ bindings }

def updateHeader (index : Nat) (header : RelationHeader) (seg : RelationSegment) :
    RelationSegment :=
  { seg with arena := seg.arena.modify index fun slot => { slot with header } }

def liveIds (seg : RelationSegment) : List Nat :=
  seg.arena.rows.filterMap fun row => if row.2.live then some row.1 else none

def liveCount (seg : RelationSegment) : Nat := seg.arena.rows.countP (·.2.live)

def delete (id : Nat) (seg : RelationSegment) : RelationSegment :=
  match seg.arena.idToIndex id with
  | none => seg
  | some index =>
    { seg with
      arena := seg.arena.modify index fun slot =>
        ⟨{ slot.header with lifecycleStatus := .tombstoned }, false⟩ }

/-- A relation that is there and not tombstoned. -/
def active (id : Nat) (seg : RelationSegment) :
    Except RelationMutationError (Nat × RelationHeader) :=
  match seg.getById id with
  | none => .error (.relationNotFound id)
  | some (index, header) =>
    if header.lifecycleStatus = .tombstoned then .error (.relationTombstoned id)
    else .ok (index, header)

def closeVersion (index lsn : Nat) (versions : Arena RelationVersionRow) :
    Arena RelationVersionRow :=
  versions.modify index fun row => { row with validUntilLsn := lsn }

/-- Closes the head of a relation and opens its next version. -/
def advance (id versionId lsn : Nat) (cited : Cited ρ) (status : EpistemicStatus)
    (found : Nat × RelationHeader) (ent : EntitySegment ρ ν) (seg : RelationSegment) :
    RelationSegment × EntitySegment ρ ν :=
  let (index, header) := found
  let versions :=
    if header.versionRow = nullRowRef then seg.versions
    else closeVersion header.versionRow lsn seg.versions
  let (prov, ent) := cite cited ent
  let (vindex, versions) := bindPast versionId
    { relationId := id, versionId, validFromLsn := lsn, prevVersionRow := header.versionRow
      provenanceRow := prov, epistemicStatus := status } versions
  ({ seg with versions }.updateHeader index
    { header with versionRow := vindex, provenanceRow := prov, epistemicStatus := status }, ent)

def setState (typeId : Nat) (expected next : RelationTypeState) (ent : EntitySegment ρ ν)
    (seg : RelationSegment) :
    Except RelationMutationError (RelationSegment × EntitySegment ρ ν) :=
  match seg.types.findIdx? (·.id = typeId), seg.types.find? (·.id = typeId) with
  | some slot, some found =>
    if found.state ≠ expected then .error (.typeStateConflict expected found.state)
    else .ok ({ seg with types := seg.types.modify slot fun t => { t with state := next } }, ent)
  | _, _ => .error (.typeNotFound typeId)

def prevalidateEvolvedType (rtype : RelationType) (seg : RelationSegment) : Except String Unit :=
  match seg.types.find? (·.id == rtype.id) with
  | some existing =>
    if existing.structuralFingerprint ≠ rtype.structuralFingerprint then
      .error s!"evolved relation type {rtype.id} collides with a different structural schema"
    else .ok ()
  | none => .ok ()

/-- The release build: the fingerprints are not compared again. -/
def synchronizeEvolvedType (rtype : RelationType) (seg : RelationSegment) : RelationSegment :=
  match seg.types.findIdx? (·.id == rtype.id) with
  | some slot =>
    { seg with
      types := seg.types.modify slot fun existing =>
        { existing with
          state := rtype.state
          provenanceId := rtype.provenanceId
          schemaVersion := rtype.schemaVersion } }
  | none => { seg with types := seg.types ++ [rtype] }

end RelationSegment

open RelationSegment

def RelationMutation.apply (debugAssertions : Bool) (lsn : Nat) (ent : EntitySegment ρ ν)
    (seg : RelationSegment) :
    RelationMutation ρ → Option (Except RelationMutationError (RelationSegment × EntitySegment ρ ν))
  | proposeType schema =>
    some (.ok ({ seg with types := seg.types ++ [{ schema with state := .proposed }] }, ent))
  | admitType typeId expected => some (seg.setState typeId expected .admitted ent)
  | deprecateType typeId expected => some (seg.setState typeId expected .deprecated ent)
  | createRelation id typeId bindings cited status =>
    if (seg.getById id).isSome then some (.error (.relationAlreadyExists id))
    else
      match seg.types.find? (·.id = typeId) with
      | none => some (.error (.typeNotFound typeId))
      | some schema =>
        match validateBindings schema bindings, bindings.find? (locate ent · |>.isNone) with
        | none, _ => none
        | some (.error e), _ => some (.error (.schemaValidation e))
        | some (.ok ()), some b => some (.error (.entityNotFound b.entityId))
        | some (.ok ()), none =>
          let located := bindings.filterMap (locate ent)
          let (prov, ent) := cite cited ent
          let row (versionId : Nat) : RelationVersionRow :=
            { relationId := id, versionId, validFromLsn := lsn, provenanceRow := prov
              epistemicStatus := status }
          let header : RelationHeader :=
            { relationTypeId := typeId, versionRow := seg.versions.rows.length % 2 ^ 32
              provenanceRow := prov, schemaVersion := schema.schemaVersion
              epistemicStatus := status }
          let seg := { seg with versions := (seg.versions.alloc row).2 }
          some (.ok (seg.bind id header located, ent))
  | createRelationVersion id versionId cited status =>
    match seg.active id with
    | .error e => some (.error e)
    | .ok found => some (.ok (seg.advance id versionId lsn cited status found ent))
  | transitionEpistemic id versionId expected next cited =>
    match seg.active id with
    | .error e => some (.error e)
    | .ok found =>
      if found.2.epistemicStatus ≠ expected then
        some (.error (.epistemicConflict expected found.2.epistemicStatus))
      else
        match validateEpistemicTransition expected next with
        | .error reason => some (.error (.epistemicTransition reason))
        | .ok () => some (.ok (seg.advance id versionId lsn cited next found ent))
  | tombstone id =>
    match seg.active id with
    | .error e => some (.error e)
    | .ok (index, header) =>
      match seg.versions.getRow header.versionRow with
      | none => some (.error (.relationNotFound id))
      | some head =>
        let row (versionId : Nat) : RelationVersionRow :=
          { head with
            relationId := id, versionId, validFromLsn := lsn, validUntilLsn := maxLsn
            prevVersionRow := header.versionRow, lifecycleStatus := .tombstoned }
        let closed := closeVersion header.versionRow lsn seg.versions
        let header :=
          { header with
            versionRow := seg.versions.rows.length % 2 ^ 32, lifecycleStatus := .tombstoned }
        let dead := { seg with versions := (closed.alloc row).2 }.updateHeader index header
        some (.ok (if debugAssertions then dead.delete id else dead, ent))

end HoloSphere.Relation
