import Mathlib.Algebra.Group.Nat.Defs
import Mathlib.Logic.Function.Basic

/-! # Entities and their versions

`EntityArena`, `VersionTable`, `ProvenanceArena`, `EntitySegment` and `EntityMutation::apply` of
`entity/`.  The three arenas number their rows in the order in which these are bound, keep a map
from ids to row numbers and a counter for generated ids; they are one table here.  A provenance
record is stored as `resolve_record` reads it back.
-/

namespace HoloSphere.Entity
open Function (update)

def nullRowRef : Nat := 2 ^ 32 - 1

def maxLsn : Nat := 2 ^ 64 - 1

/-- The rows, each with the id that it was bound to. -/
structure Arena (α : Type) where
  rows : List (Nat × α)
  idToIndex : Nat → Option Nat
  nextId : Nat

namespace Arena

def new (startId : Nat) : Arena α := ⟨[], fun _ => none, startId⟩

def ids (a : Arena α) : List Nat := a.rows.map Prod.fst

def getRow (index : Nat) (a : Arena α) : Option α := a.rows[index]?.map Prod.snd

def bind (id : Nat) (row : α) (a : Arena α) : Nat × Arena α :=
  let index := a.rows.length % 2 ^ 32
  (index, { a with rows := a.rows ++ [(id, row)], idToIndex := update a.idToIndex id (some index) })

/-- `alloc` and `append`: the row may record the generated id. -/
def alloc (row : Nat → α) (a : Arena α) : Nat × Arena α :=
  (a.nextId, (bind a.nextId (row a.nextId) { a with nextId := (a.nextId + 1) % 2 ^ 64 }).2)

def bindAll (rows : List (Nat × α)) (a : Arena α) : Arena α :=
  rows.foldl (fun a row => (a.bind row.1 row.2).2) a

def modify (index : Nat) (f : α → α) (a : Arena α) : Arena α :=
  { a with rows := a.rows.modify index (Prod.map id f) }

theorem map_modify {a : Arena α} {g : Nat × α → β} (same : ∀ id row, g (id, f row) = g (id, row)) :
    (a.modify index f).rows.map g = a.rows.map g := by
  apply List.ext_getElem?
  intro i
  simp only [modify, List.getElem?_map, List.getElem?_modify]
  cases a.rows[i]? with
  | none => rfl
  | some row => by_cases here : index = i <;> simp [here, Prod.map, same]

end Arena

inductive EpistemicStatus where
  | observed | asserted | inferred | provisional | contradicted
  deriving DecidableEq

inductive LifecycleStatus where
  | active | superseded | tombstoned
  deriving DecidableEq

inductive VersionRelation where
  | supersedes | refines | reinforces
  deriving DecidableEq

structure EntityHeader where
  versionRow : Nat := nullRowRef
  provenanceRow : Nat := nullRowRef
  vectorRow : Nat := nullRowRef
  propertyRow : Nat := nullRowRef
  epistemicStatus : EpistemicStatus := .observed
  deriving DecidableEq

structure Slot where
  header : EntityHeader
  live : Bool := true
  deriving DecidableEq

structure VersionRow where
  entityId : Nat
  versionId : Nat
  validFromLsn : Nat
  validUntilLsn : Nat := maxLsn
  prevVersionRow : Nat := nullRowRef
  provenanceRow : Nat
  vectorRow : Nat := nullRowRef
  propertyRow : Nat := nullRowRef
  epistemicStatus : EpistemicStatus
  lifecycleStatus : LifecycleStatus
  relationKind : VersionRelation := .supersedes
  confidenceQ16 : Nat := 65536
  deriving DecidableEq

namespace Arena

def get (index : Nat) (a : Arena Slot) : Option EntityHeader :=
  (a.getRow index).bind fun slot => if slot.live then some slot.header else none

def getById (id : Nat) (a : Arena Slot) : Option (Nat × EntityHeader) := do
  let index ← a.idToIndex id
  let header ← a.get index
  some (index, header)

def publishVersionHead (index versionRow provenanceRow propertyRow vectorRow : Nat)
    (epistemic : EpistemicStatus) (a : Arena Slot) : Arena Slot :=
  if (a.get index).isNone then a
  else a.modify index fun slot =>
    let h := slot.header
    { slot with
      header :=
        { versionRow
          provenanceRow := if provenanceRow ≠ nullRowRef then provenanceRow else h.provenanceRow
          propertyRow := if propertyRow ≠ nullRowRef then propertyRow else h.propertyRow
          vectorRow := if vectorRow ≠ nullRowRef then vectorRow else h.vectorRow
          epistemicStatus := epistemic } }

/-- The entity is dead from here on, but keeps its slot. -/
def delete (index : Nat) (a : Arena Slot) : Arena Slot :=
  a.modify index fun slot => { slot with live := false }

def liveIds (a : Arena Slot) : List Nat :=
  a.rows.filterMap fun row => if row.2.live then some row.1 else none

def closeVersion (index untilLsn : Nat) (a : Arena VersionRow) : Arena VersionRow :=
  a.modify index fun row =>
    { row with validUntilLsn := untilLsn, lifecycleStatus := .superseded }

end Arena

inductive EpistemicTransitionError where
  | cannotMutateToObserved | cannotTransitionFromContradicted | invalidTransition
  deriving DecidableEq

def validateEpistemicTransition (current next : EpistemicStatus) :
    Except EpistemicTransitionError Unit :=
  if current = next then .ok ()
  else if next = .observed then .error .cannotMutateToObserved
  else
    match current with
    | .provisional =>
      if next = .inferred ∨ next = .contradicted then .ok () else .error .invalidTransition
    | .contradicted => .error .cannotTransitionFromContradicted
    | _ => if next = .contradicted then .ok () else .error .invalidTransition

inductive MutationApplyError where
  | entityAlreadyExists (id : Nat)
  | entityNotFound (id : Nat)
  | versionHeadNotFound (id : Nat)
  | epistemicConflict (expected actual : EpistemicStatus)
  | invalidEpistemicTransition (reason : EpistemicTransitionError)
  deriving DecidableEq

structure EntitySegment (ρ ν : Type) where
  arena : Arena Slot
  provenance : Arena ρ
  versions : Arena VersionRow
  vectors : List ν

variable {ρ ν : Type}

/-- The provenance that a mutation brings along, or names. -/
structure Cited (ρ : Type) where
  id : Nat
  record : Option ρ

inductive EntityMutation (ρ : Type) where
  | create (id : Nat) (header : EntityHeader) (initialVersionId : Nat) (cited : Cited ρ)
    (status : EpistemicStatus)
  | createVersion (id versionId : Nat) (cited : Cited ρ) (status : EpistemicStatus)
    (lifecycle : LifecycleStatus) (relation : VersionRelation) (propertyRow vectorRow : Nat)
  | transitionEpistemic (id versionId : Nat) (expected next : EpistemicStatus) (cited : Cited ρ)
  | tombstone (id versionId : Nat) (cited : Cited ρ)

namespace EntitySegment

def new (startEntityId : Nat) : EntitySegment ρ ν := ⟨.new startEntityId, .new 1, .new 1, []⟩

def cite (cited : Cited ρ) (seg : EntitySegment ρ ν) : Nat × Arena ρ :=
  match cited.record with
  | some record => seg.provenance.bind cited.id record
  | none => ((seg.provenance.idToIndex cited.id).getD nullRowRef, seg.provenance)

/-- Closes the head of an entity and opens its next version. -/
def supersede (head lsn : Nat) (cited : Cited ρ) (row : Nat → VersionRow)
    (seg : EntitySegment ρ ν) : Nat × EntitySegment ρ ν :=
  let versions := if head = nullRowRef then seg.versions else seg.versions.closeVersion head lsn
  let (prov, provenance) := seg.cite cited
  let (vindex, versions) := versions.bind (row prov).versionId (row prov)
  (vindex, { seg with provenance, versions })

def publish (index vindex : Nat) (row : VersionRow) (seg : EntitySegment ρ ν) : EntitySegment ρ ν :=
  { seg with
    arena := seg.arena.publishVersionHead index vindex row.provenanceRow row.propertyRow
      row.vectorRow row.epistemicStatus }

end EntitySegment


def EntityMutation.apply (lsn : Nat) (seg : EntitySegment ρ ν) :
    EntityMutation ρ → Except MutationApplyError (EntitySegment ρ ν)
  | create id header initialVersionId cited status =>
    if (seg.arena.idToIndex id).isSome then .error (.entityAlreadyExists id)
    else
      let row (prov : Nat) : VersionRow :=
        { entityId := id, versionId := initialVersionId, validFromLsn := lsn, provenanceRow := prov
          vectorRow := header.vectorRow, propertyRow := header.propertyRow
          epistemicStatus := status, lifecycleStatus := .active }
      let (vindex, next) := seg.supersede nullRowRef lsn cited row
      let header :=
        { header with
          versionRow := vindex, provenanceRow := (seg.cite cited).1, epistemicStatus := status }
      .ok { next with arena := (next.arena.bind id ⟨header, true⟩).2 }
  | createVersion id versionId cited status lifecycle relation propertyRow vectorRow =>
    match seg.arena.getById id with
    | none => .error (.entityNotFound id)
    | some (index, header) =>
      if header.versionRow = nullRowRef then .error (.versionHeadNotFound id)
      else
        let row (prov : Nat) : VersionRow :=
          { entityId := id, versionId, validFromLsn := lsn, prevVersionRow := header.versionRow
            provenanceRow := prov, vectorRow, propertyRow, epistemicStatus := status
            lifecycleStatus := lifecycle, relationKind := relation }
        let (vindex, next) := seg.supersede header.versionRow lsn cited row
        .ok (next.publish index vindex (row (seg.cite cited).1))
  | transitionEpistemic id versionId expected next cited =>
    match seg.arena.getById id with
    | none => .error (.entityNotFound id)
    | some (index, header) =>
      match if header.versionRow = nullRowRef then none
        else seg.versions.getRow header.versionRow with
      | none => .error (.versionHeadNotFound id)
      | some current =>
        if current.epistemicStatus ≠ expected then
          .error (.epistemicConflict expected current.epistemicStatus)
        else
          match validateEpistemicTransition expected next with
          | .error reason => .error (.invalidEpistemicTransition reason)
          | .ok () =>
            let row (prov : Nat) : VersionRow :=
              { current with
                entityId := id, versionId, validFromLsn := lsn, validUntilLsn := maxLsn
                prevVersionRow := header.versionRow, provenanceRow := prov
                epistemicStatus := next, relationKind := .refines }
            let (vindex, later) := seg.supersede header.versionRow lsn cited row
            .ok (later.publish index vindex (row (seg.cite cited).1))
  | tombstone id versionId cited =>
    match seg.arena.getById id with
    | none => .error (.entityNotFound id)
    | some (index, header) =>
      let row (prov : Nat) : VersionRow :=
        { entityId := id, versionId, validFromLsn := lsn, prevVersionRow := header.versionRow
          provenanceRow := prov, epistemicStatus := header.epistemicStatus
          lifecycleStatus := .tombstoned, confidenceQ16 := 0 }
      let (vindex, next) := seg.supersede header.versionRow lsn cited row
      -- the entity is dead when its new head is published, which then does nothing
      let dead := { next with arena := next.arena.delete index }
      .ok (dead.publish index vindex (row (seg.cite cited).1))

end HoloSphere.Entity
