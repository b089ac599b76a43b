import HoloSphere.Entity.FreshIds
import HoloSphere.Relation.Model

/-! # What a stored relation shows

The bindings of a role are counted in 16 bits with a check, and the length of all bindings is
stored in 16 bits without one.
-/

namespace HoloSphere.Relation
open Entity RelationMutation List
variable {ρ ν : Type} {seg next : RelationSegment} {ent ent' : EntitySegment ρ ν}
  {bindings : List DurableRoleBinding} {located : List SegmentRoleBinding} {id : Nat}

def RelationVersionRow.visibleAt (lsn : Nat) (row : RelationVersionRow) : Bool :=
  row.validFromLsn ≤ lsn ∧ (row.validUntilLsn = maxLsn ∨ lsn < row.validUntilLsn)

/-- Back from a version to the first that is visible; no row is met twice. -/
def visibleRow (lsn : Nat) (versions : Arena RelationVersionRow) :
    Nat → Nat → Option RelationVersionRow
  | 0, _ => none
  | turns + 1, index =>
    if index = nullRowRef then none
    else
      (versions.getRow index).bind fun row =>
        if row.visibleAt lsn then some row else visibleRow lsn versions turns row.prevVersionRow

structure ResolvedRelationVersion (ρ : Type) where
  header : RelationHeader
  version : RelationVersionRow
  bindings : List DurableRoleBinding
  provenance : Option ρ

def unlocate (ent : EntitySegment ρ ν) (b : SegmentRoleBinding) : Option DurableRoleBinding :=
  ent.arena.ids[b.entity]?.map (⟨·, b.roleId⟩)

def resolveRelationAt (id lsn : Nat) (ent : EntitySegment ρ ν) (seg : RelationSegment) :
    Option (ResolvedRelationVersion ρ) := do
  let (_, header) ← seg.getById id
  let version ← visibleRow lsn seg.versions (seg.versions.rows.length + 1) header.versionRow
  some
    { header, version
      bindings := (seg.getBindings header).filterMap (unlocate ent)
      provenance :=
        if version.provenanceRow = nullRowRef then none
        else ent.provenance.getRow version.provenanceRow }

/-- The bindings are of roles of the schema, and of each role as many as it asks for. -/
structure Conforms (schema : RelationType) (bindings : List DurableRoleBinding) : Prop where
  known : ∀ b ∈ bindings, ∃ r ∈ schema.roles, r.roleId = b.roleId
  bounded : ∀ r ∈ schema.roles, r.minCount ≤ bindings.countP (·.roleId = r.roleId) ∧
    bindings.countP (·.roleId = r.roleId) ≤ r.maxCount
  present : ∀ r ∈ schema.roles, r.required → 0 < bindings.countP (·.roleId = r.roleId)

/-- In the state before the call: 16 bits hold the number of the bindings, and 32 bits number one
    more relation and the entities. -/
structure Fits (bindings : List DurableRoleBinding) (seg : RelationSegment)
    (ent : EntitySegment ρ ν) : Prop where
  few : bindings.length < 2 ^ 16
  rows : seg.arena.rows.length < 2 ^ 32
  slots : seg.bindings.length < 2 ^ 32
  versions : seg.versions.rows.length < nullRowRef
  entities : ent.arena.rows.length ≤ 2 ^ 32

theorem conforms_of_validate (valid : validateBindings schema bindings = some (.ok ())) :
    Conforms schema bindings := by
  unfold validateBindings at valid
  split_ifs at valid
  split at valid
  · cases valid
  case h_2 unknown =>
    cases checked : schema.roles.findSome? (checkRole bindings) with
    | some e => simp [checked] at valid
    | none =>
      have passed : ∀ r ∈ schema.roles, checkRole bindings r = none := by simpa using checked
      simp only [checkRole, roleCount] at passed
      refine ⟨by simpa using unknown, fun r mem => ?_, fun r mem required => ?_⟩ <;>
        · have := passed r mem
          grind

theorem unlocate_of_locate (numbered : ent.arena.Numbered) (room : ent.arena.rows.length ≤ 2 ^ 32)
    (found : locate ent b = some loc) : unlocate ent loc = some b := by
  obtain ⟨⟨index, header⟩, here, rfl⟩ := Option.map_eq_some_iff.mp found
  obtain ⟨_, mapped, rest⟩ := Option.bind_eq_some_iff.mp here
  obtain ⟨_, -, ⟨⟩⟩ := Option.bind_eq_some_iff.mp rest
  rw [unlocate, numbered room _ _ mapped]
  rfl

theorem filterMap_unlocate (numbered : ent.arena.Numbered) (room : ent.arena.rows.length ≤ 2 ^ 32)
    (found : ∀ b ∈ bindings, (locate ent b).isSome) :
    (bindings.filterMap (locate ent)).filterMap (unlocate ent) = bindings := by
  rw [filterMap_filterMap]
  refine (filterMap_congr fun b mem => ?_).trans filterMap_some
  obtain ⟨loc, here⟩ := Option.isSome_iff_exists.mp (found b mem)
  rw [here, Option.bind_some, unlocate_of_locate numbered room here]

theorem visibleRow_alloc {versions : Arena RelationVersionRow} {row : Nat → RelationVersionRow}
    (room : versions.rows.length < nullRowRef) (visible : (row versions.nextId).visibleAt query) :
    visibleRow query (versions.alloc row).2 (turns + 1) (versions.rows.length % 2 ^ 32) =
      some (row versions.nextId) := by
  have narrow : versions.rows.length < 2 ^ 32 := Nat.lt_of_lt_of_le room (by decide)
  rw [Nat.mod_eq_of_lt narrow]
  simp [visibleRow, Nat.ne_of_lt room, Arena.alloc, Arena.bind, Arena.getRow, visible]

theorem getById_bind (room : seg.arena.rows.length < 2 ^ 32) :
    (seg.bind id header located).getById id = some (seg.arena.rows.length, { header with
        bindingStart := seg.bindings.length % 2 ^ 32, bindingLen := .ofNat _ located.length }) := by
  simp only [RelationSegment.getById, RelationSegment.bind, bindPast, Arena.bind, Arena.modify,
    Nat.mod_eq_of_lt room]
  simp [Arena.getRow]

theorem getBindings_bind (room : seg.bindings.length < 2 ^ 32) (few : located.length < 2 ^ 16)
    (start : stored.bindingStart = seg.bindings.length % 2 ^ 32)
    (len : stored.bindingLen = .ofNat _ located.length) :
    (seg.bind id header located).getBindings stored = located := by
  rw [RelationSegment.getBindings, start, len, Nat.mod_eq_of_lt room, Fin.val_ofNat,
    Nat.mod_eq_of_lt few]
  simp [RelationSegment.bind]

theorem resolve_bind {row : Nat → RelationVersionRow} (fits : Fits bindings seg ent)
    (few : located.length < 2 ^ 16) (visible : (row seg.versions.nextId).visibleAt query)
    (head : header.versionRow = seg.versions.rows.length % 2 ^ 32) :
    (resolveRelationAt id query ent' ({ seg with versions := (seg.versions.alloc row).2 }.bind id
      header located)).map (·.bindings) = some (located.filterMap (unlocate ent')) := by
  generalize stored : RelationSegment.mk seg.arena seg.bindings _ seg.types = base
  have seen : visibleRow query (base.bind id header located).versions
      ((base.bind id header located).versions.rows.length + 1) header.versionRow =
        some (row seg.versions.nextId) := by
    rw [head, ← stored]
    exact visibleRow_alloc fits.versions visible
  rw [resolveRelationAt, getById_bind (by rw [← stored]; exact fits.rows)]
  simp only [Option.bind_eq_bind, Option.bind_some]
  rw [seen]
  simp [getBindings_bind (show base.bindings.length < _ by rw [← stored]; exact fits.slots) few]

theorem resolve_create {cited : Cited ρ}
    (done : (createRelation id typeId bindings cited status).apply debug lsn ent
      seg = some (.ok (next, ent'))) :
    ∃ schema, seg.types.find? (·.id = typeId) = some schema ∧
      validateBindings schema bindings = some (.ok ()) ∧
      (Fits bindings seg ent → ent.arena.Numbered → ∀ query, lsn ≤ query →
        (resolveRelationAt id query ent' next).map (·.bindings) = some bindings) := by
  simp only [apply] at done
  split_ifs at done
  · cases done
  split at done
  · cases done
  case h_2 schema found =>
    split at done
    iterate 3 cases done
    case h_4 valid missing =>
      cases done
      refine ⟨schema, found, valid, fun fits numbered query later => ?_⟩
      have same : unlocate (cite cited ent).2 = unlocate ent := by
        unfold cite
        split <;> rfl
      have located : ∀ b ∈ bindings, (locate ent b).isSome := by
        simpa [Option.isSome_iff_ne_none] using missing
      have shown := filterMap_unlocate numbered fits.entities located
      rw [← same] at shown
      rw [← congrArg some shown]
      refine resolve_bind fits (length_filterMap_le .. |>.trans_lt fits.few) ?_ rfl
      simp [RelationVersionRow.visibleAt, later]

/-- The relation shows the given bindings, in some order, and they conform to its schema. -/
structure Stores (id typeId lsn : Nat) (bindings : List DurableRoleBinding)
    (seg next : RelationSegment) (ent : EntitySegment ρ ν) : Prop where
  complete : ∀ query, lsn ≤ query → ∃ shown,
    (resolveRelationAt id query ent next).map (·.bindings) = some shown ∧ shown.Perm bindings
  conforms : ∃ schema, seg.types.find? (·.id = typeId) = some schema ∧ Conforms schema bindings

theorem length_resolved (resolved : resolveRelationAt id query ent seg = some shown) :
    shown.bindings.length < 2 ^ 16 := by
  obtain ⟨⟨_, header⟩, -, rest⟩ := Option.bind_eq_some_iff.mp resolved
  obtain ⟨_, -, ⟨⟩⟩ := Option.bind_eq_some_iff.mp rest
  have slots : (seg.getBindings header).length ≤ header.bindingLen := by
    unfold RelationSegment.getBindings
    split
    · exact length_take_le _ _
    · exact Nat.zero_le _
  exact ((length_filterMap_le _ _).trans slots).trans_lt header.bindingLen.isLt

theorem few_of_stores (stores : Stores id typeId lsn bindings seg next ent) :
    bindings.length < 2 ^ 16 := by
  obtain ⟨_, read, perm⟩ := stores.complete lsn (Nat.le_refl lsn)
  obtain ⟨shown, resolved, rfl⟩ := Option.map_eq_some_iff.mp read
  rw [← perm.length_eq]
  exact length_resolved resolved

/-- With an entity segment that any steps have led to, a relation that fits is stored, and one that
    is stored has no more bindings than 16 bits can count. -/
theorem create_stores (first : Nat) (actions : List (EntitySegment.Action ρ)) {cited : Cited ρ}
    (reached : actions.foldlM EntitySegment.act (.new first) = some ent)
    (done : (createRelation id typeId bindings cited status).apply debug lsn ent
      seg = some (.ok (next, ent'))) :
    (Fits bindings seg ent → Stores id typeId lsn bindings seg next ent') ∧
      (Stores id typeId lsn bindings seg next ent' → bindings.length < 2 ^ 16) := by
  obtain ⟨schema, found, valid, resolved⟩ := resolve_create done
  have numbered := EntitySegment.always_numbered first actions actions.length ent
    (by rwa [take_length])
  refine ⟨fun fits => ⟨fun query later => ?_, ?_⟩, few_of_stores⟩
  · exact ⟨bindings, resolved fits numbered query later, .refl _⟩
  · exact ⟨schema, found, conforms_of_validate valid⟩

/-- A schema of two roles, and an entity to take both. -/
def twoRoleType : RelationType :=
  ⟨0, "", 1, .admitted, [⟨0, "", 0, 40000, false⟩, ⟨1, "", 0, 40000, false⟩], 0, 0⟩

def twoRoles : RelationSegment := { types := [twoRoleType] }

def createFive : List (EntitySegment.Action Unit) :=
  [.mutate 1 (.create 5 {} 1 ⟨1, none⟩ .observed)]

def oneEntity : EntitySegment Unit Unit :=
  (createFive.foldlM EntitySegment.act (.new 1)).getD (.new 1)

/-- The entity in both roles, so often in each. -/
def both (n : Nat) : List DurableRoleBinding := .replicate n ⟨5, 0⟩ ++ .replicate n ⟨5, 1⟩

theorem create_both (fits : n ≤ 40000) : ∃ next,
    (createRelation 7 0 (both n) ⟨1, none⟩ .observed).apply false 1 oneEntity
      twoRoles = some (.ok (next, oneEntity)) := by
  have located : (both n).find? (locate oneEntity · |>.isNone) = none := by
    have here : ∀ role, locate oneEntity ⟨5, role⟩ = some ⟨0, role⟩ := fun _ => rfl
    simp [both, here]
  have each : roleCount (both n) 0 = n ∧ roleCount (both n) 1 = n := by
    simp [roleCount, both, countP_append, countP_replicate]
  have counted : (both n).any (fun b => 2 ^ 16 ≤ roleCount (both n) b.roleId) = false := by
    have small : n < 2 ^ 16 := by omega
    simp only [any_eq_false, decide_eq_true_iff, Nat.not_le]
    intro b mem
    rcases mem_append.mp mem with mem | mem <;> simp_all [mem_replicate]
  have valid : validateBindings twoRoleType (both n) = some (.ok ()) := by
    have known : (both n).find? (fun b => twoRoleType.roles.all (·.roleId ≠ b.roleId)) = none := by
      simp [both, twoRoleType]
    rw [validateBindings, counted, known]
    simp [twoRoleType, checkRole, each, fits]
  have schema : twoRoles.types.find? (·.id = 0) = some twoRoleType := rfl
  rw [apply, schema]
  simp only [valid, located]
  exact ⟨_, rfl⟩

theorem create_stores_both : ∃ next,
    (createRelation 7 0 (both 3) ⟨1, none⟩ .observed).apply false 1 oneEntity
      twoRoles = some (.ok (next, oneEntity)) ∧ Stores 7 0 1 (both 3) twoRoles next oneEntity := by
  obtain ⟨next, done⟩ := create_both (n := 3) (by decide)
  refine ⟨next, done, (create_stores 1 createFive rfl done).1 ?_⟩
  exact ⟨by decide, by decide, by decide, by decide, by decide⟩

theorem not_create_stores_many : ∃ next,
    (createRelation 7 0 (both 32768) ⟨1, none⟩ .observed).apply false 1 oneEntity
      twoRoles = some (.ok (next, oneEntity)) ∧
      ¬ Stores 7 0 1 (both 32768) twoRoles next oneEntity := by
  obtain ⟨next, done⟩ := create_both (n := 32768) (by decide)
  refine ⟨next, done, fun stores => ?_⟩
  have few := few_of_stores stores
  rw [both, length_append, length_replicate, length_replicate] at few
  exact absurd few (by decide)

end HoloSphere.Relation
