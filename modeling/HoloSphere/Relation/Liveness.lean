import HoloSphere.Program.Machine
import HoloSphere.Relation.Model

/-! # Which relations are live

The bits of the live bitmap beside what the calls have created and tombstoned.
-/

namespace HoloSphere.Relation
open Entity Program RelationSegment List
variable {ρ ν : Type} {seg next : RelationSegment}

structure Ledger where
  seg : RelationSegment := {}
  created : List Nat := []
  tombstoned : List Nat := []

structure Call (ρ ν : Type) where
  lsn : Nat
  ent : EntitySegment ρ ν
  op : RelationMutation ρ

namespace Ledger

def record (led : Ledger) (seg : RelationSegment) : RelationMutation ρ → Ledger
  | .createRelation id .. => { led with seg, created := led.created ++ [id] }
  | .tombstone id => { led with seg, tombstoned := led.tombstoned ++ [id] }
  | _ => { led with seg }

/-- A call that is refused or panics has written nothing. -/
def act (debugAssertions : Bool) (led : Ledger) (call : Call ρ ν) : Option Ledger :=
  match call.op.apply debugAssertions call.lsn call.ent led.seg with
  | some (.ok (seg, _)) => some (led.record seg call.op)
  | _ => some led

/-- `live_ids` and `live_count` are right. -/
structure Right (led : Ledger) : Prop where
  once : led.seg.liveIds.Nodup
  listed : ∀ id, id ∈ led.seg.liveIds ↔ id ∈ led.created ∧ id ∉ led.tombstoned
  count : led.seg.liveCount = led.seg.liveIds.length

/-- A tombstone needs the assertion, and a new relation a row number of its own. -/
def Allowed (debugAssertions : Bool) (led : Ledger) (call : Call ρ ν) : Prop :=
  match call.op with
  | .createRelation .. => led.seg.arena.rows.length < 2 ^ 32
  | .tombstone _ => debugAssertions = true
  | _ => True

end Ledger

namespace RelationSegment

/-- The ids with their bits. -/
def marks (seg : RelationSegment) : List (Nat × Bool) :=
  seg.arena.rows.map fun row => (row.1, row.2.live)

/-- The map from ids to rows is right. -/
def Indexed (seg : RelationSegment) : Prop :=
  ∀ i id, seg.arena.ids[i]? = some id ↔ seg.arena.idToIndex id = some i

variable {id : Nat}

theorem getById_isSome (indexed : seg.Indexed) : (seg.getById id).isSome ↔ id ∈ seg.arena.ids := by
  simp only [mem_iff_getElem?, fun i => indexed i id, getById]
  cases found : seg.arena.idToIndex id with
  | none => simp
  | some i =>
    have here := (indexed i id).mpr found
    rw [Arena.ids, getElem?_map, Option.map_eq_some_iff] at here
    obtain ⟨row, there, -⟩ := here
    simp [Arena.getRow, there]

structure Keeps (seg next : RelationSegment) : Prop where
  marks : next.marks = seg.marks
  map : next.arena.idToIndex = seg.arena.idToIndex

theorem keeps_updateHeader {versions : Arena RelationVersionRow} :
    seg.Keeps ({ seg with versions }.updateHeader index header) :=
  ⟨Arena.map_modify fun _ _ => rfl, rfl⟩

/-- What a call that succeeds does to the relations and their bits. -/
def Effect (debugAssertions : Bool) (seg next : RelationSegment) : RelationMutation ρ → Prop
  | .createRelation id .. => seg.getById id = none ∧ ∃ versions header located,
    next = { seg with versions }.bind id header located
  | .tombstone id => (seg.getById id).isSome ∧ ∃ dead, seg.Keeps dead ∧
    next = if debugAssertions then dead.delete id else dead
  | _ => seg.Keeps next

theorem keeps_setState {ent ent' : EntitySegment ρ ν}
    (done : setState typeId expected state ent seg = .ok (next, ent')) : seg.Keeps next := by
  revert done
  fun_cases setState typeId expected state ent seg <;> rintro ⟨⟩
  exact ⟨rfl, rfl⟩

theorem getById_of_active (found : active id seg = .ok pair) : seg.getById id = some pair := by
  revert found
  fun_cases active id seg <;> rintro ⟨⟩
  assumption

theorem apply_effect {op : RelationMutation ρ} {ent ent' : EntitySegment ρ ν}
    (done : op.apply debug lsn ent seg = some (.ok (next, ent'))) : Effect debug seg next op := by
  revert done
  fun_cases op.apply debug lsn ent seg <;> intro done
  case case2 | case3 => exact keeps_setState (Option.some.inj done)
  all_goals cases done
  · exact ⟨rfl, rfl⟩
  · exact ⟨Option.not_isSome_iff_eq_none.mp ‹_›, _, _, _, rfl⟩
  · exact keeps_updateHeader
  · exact keeps_updateHeader
  · exact ⟨Option.isSome_of_mem (getById_of_active ‹_›), _, keeps_updateHeader, rfl⟩

theorem ids_eq (seg : RelationSegment) : seg.arena.ids = seg.marks.map Prod.fst := by
  simp [Arena.ids, marks]

theorem marks_bind (room : seg.arena.rows.length < 2 ^ 32) :
    (seg.bind id header located).marks = seg.marks ++ [(id, true)] := by
  simp only [RelationSegment.bind, bindPast, Arena.bind, Arena.modify, marks, Nat.mod_eq_of_lt room]
  simp [modify_eq_take_cons_drop]

theorem Indexed.bind (indexed : seg.Indexed) (room : seg.arena.rows.length < 2 ^ 32)
    (fresh : id ∉ seg.arena.ids) : (seg.bind id header located).Indexed := by
  intro i other
  have map : (seg.bind id header located).arena.idToIndex =
      Function.update seg.arena.idToIndex id (some seg.arena.ids.length) := by
    rw [Arena.ids, length_map, ← Nat.mod_eq_of_lt room]
    rfl
  rw [ids_eq, marks_bind room, map_append, ← ids_eq, map, Function.update_apply]
  have old := indexed i other
  grind

theorem marks_delete (indexed : seg.Indexed) :
    (seg.delete id).marks = seg.marks.map fun mark => (mark.1, mark.2 && mark.1 ≠ id) := by
  unfold RelationSegment.delete
  apply ext_getElem?
  intro i
  cases here : seg.arena.rows[i]? with
  | none => cases seg.arena.idToIndex id <;> simp_all [marks, Arena.modify]
  | some row =>
    have own := indexed i id
    rw [Arena.ids, getElem?_map, here, Option.map_some, Option.some_inj] at own
    cases found : seg.arena.idToIndex id with
    | none => simp_all [marks]
    | some j => by_cases same : j = i <;> simp_all [marks, Arena.modify]

theorem Indexed.delete (indexed : seg.Indexed) : (seg.delete id).Indexed := by
  have map : (seg.delete id).arena.idToIndex = seg.arena.idToIndex := by
    unfold RelationSegment.delete
    split <;> rfl
  intro i other
  rw [map, ← indexed, ids_eq, ids_eq, marks_delete indexed, map_map]
  rfl

theorem Keeps.indexed (kept : seg.Keeps next) (indexed : seg.Indexed) : next.Indexed := by
  intro i id
  rw [kept.map, ids_eq, kept.marks, ← ids_eq, indexed]

end RelationSegment

namespace Ledger

/-- The bits are those of the relations created and not tombstoned. -/
structure Inv (led : Ledger) : Prop where
  indexed : led.seg.Indexed
  uniq : led.created.Nodup
  marks : led.seg.marks = led.created.map fun id => (id, !decide (id ∈ led.tombstoned))
  known : led.tombstoned ⊆ led.created

theorem Inv.right {led : Ledger} (inv : led.Inv) : led.Right := by
  have listed : led.seg.liveIds = led.created.filter fun id => !decide (id ∈ led.tombstoned) := by
    have ids : led.seg.liveIds = led.seg.marks.filterMap fun mark =>
        if mark.2 then some mark.1 else none := by
      simp [liveIds, RelationSegment.marks, filterMap_map]
    rw [ids, inv.marks, filterMap_map, ← filterMap_eq_filter]
    congr 1
  have count : led.seg.liveCount = led.seg.liveIds.length := by
    rw [liveCount, liveIds]
    induction led.seg.arena.rows with
    | nil => rfl
    | cons row rest ih => cases live : row.2.live <;> simp [live, ih]
  refine ⟨?_, fun id => ?_, count⟩
  · rw [listed]
    exact inv.uniq.filter _
  · simp [listed]

theorem Inv.act {led after : Ledger} {call : Call ρ ν} (inv : led.Inv)
    (allowed : led.Allowed debug call) (done : led.act debug call = some after) : after.Inv := by
  unfold Ledger.act at done
  split at done
  case h_2 =>
    cases done
    exact inv
  case h_1 seg ent applied =>
  cases done
  have eff := apply_effect applied
  have ids : led.seg.arena.ids = led.created := by
    rw [ids_eq, inv.marks, map_map]
    exact map_id _
  obtain ⟨lsn, ent, op⟩ := call
  cases op with
  | proposeType | admitType | deprecateType | createRelationVersion | transitionEpistemic =>
    exact ⟨Keeps.indexed eff inv.indexed, inv.uniq, (Keeps.marks eff).trans inv.marks, inv.known⟩
  | createRelation id =>
    obtain ⟨absent, versions, header, located, rfl⟩ := eff
    have fresh : id ∉ led.seg.arena.ids := by
      rw [← getById_isSome inv.indexed, absent]
      exact Bool.false_ne_true
    have unburied : id ∉ led.tombstoned := fun mem => fresh (ids ▸ inv.known mem)
    refine ⟨inv.indexed.bind allowed fresh, ?_, ?_,
      List.Subset.trans inv.known (subset_append_left ..)⟩
    · refine nodup_append.mpr ⟨inv.uniq, by simp, fun old mem new fst same => ?_⟩
      exact fresh (ids ▸ mem_singleton.mp fst ▸ same ▸ mem)
    · refine (marks_bind allowed).trans (.trans ?_ map_append.symm)
      exact congrArg₂ _ inv.marks (by simp [record, unburied])
  | tombstone id =>
    obtain ⟨present, dead, kept, rfl⟩ := eff
    obtain rfl : debug = true := allowed
    have indexed := kept.indexed inv.indexed
    refine ⟨indexed.delete, inv.uniq, ?_, append_subset.mpr ⟨inv.known, ?_⟩⟩
    · refine (marks_delete indexed).trans ?_
      rw [kept.marks, inv.marks, map_map]
      simp [record]
    · exact cons_subset.mpr ⟨ids ▸ (getById_isSome inv.indexed).mp present, nil_subset _⟩

theorem inv_new : Inv {} where
  indexed _ _ := by simp [Arena.ids, Arena.new]
  uniq := nodup_nil
  marks := rfl
  known := nil_subset _

/-- With debug assertions, and row numbers for all relations, the bitmap is right at any time. -/
theorem always_right (debugAssertions : Bool) (calls : List (Call ρ ν))
    (allowed : Throughout (act debugAssertions) (Allowed debugAssertions) {} calls) :
    Always (act debugAssertions) Right {} calls := by
  have always : Always (act debugAssertions) Inv {} calls :=
    allowed.always inv_new fun _ _ _ inv now done => inv.act now done
  exact fun count led ran => (always count led ran).right

/-- A relation without roles is created and tombstoned. -/
def shortLife : List (Call Unit Unit) :=
  [⟨1, .new 1, .proposeType ⟨0, "", 1, .proposed, [], 0, 0⟩⟩,
    ⟨2, .new 1, .createRelation 7 0 [] ⟨1, none⟩ .observed⟩, ⟨3, .new 1, .tombstone 7⟩]

theorem always_right_shortLife : Always (act true) Right {} shortLife := by
  apply always_right
  exact .cons rfl trivial (.cons rfl (Nat.two_pow_pos 32) (.cons rfl rfl trivial))

theorem not_always_right_shortLife : ¬ Always (act false) Right {} shortLife := by
  intro always
  have right := always 3 _ rfl
  exact absurd ((right.listed 7).mp (by decide)) (by decide)

end Ledger
end HoloSphere.Relation
