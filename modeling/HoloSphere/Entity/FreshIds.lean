import HoloSphere.Entity.Model
import HoloSphere.Program.Machine
import Mathlib.Data.List.MinMax
import Mathlib.Order.Nat

/-! # Generated ids and row numbers

Generated ids and the ids that mutations bring along share one namespace.  The counter starts at
a number of the caller's choice, at one in a compacted segment and above every stored id in a
decoded one, and a binding does not move it.  The map from ids to row numbers is right as long as
32 bits can number the rows.
-/

namespace HoloSphere.Entity
open Program List
variable {ρ ν : Type}

namespace Arena
variable {a b : Arena α}

/-- A counter above the greatest id, which the largest of all ids leaves no room for. -/
def decode (ids : List Nat) (rows : List α) : Option (Arena α) :=
  if ids.foldr max 0 = 2 ^ 64 - 1 then none
  else some ((new (ids.foldr max 0 + 1)).bindAll (ids.zip rows))

/-- The id that `alloc` or `append` would return now is not bound. -/
def Fresh (a : Arena α) : Prop := a.nextId ∉ a.ids

/-- An id is found at a row that was bound to it. -/
def Numbered (a : Arena α) : Prop := a.rows.length ≤ 2 ^ 32 →
  ∀ id index, a.idToIndex id = some index → a.ids[index]? = some id

/-- The second arena binds `more` and is otherwise numbered like the first. -/
structure Adds (more : List Nat) (a b : Arena α) : Prop where
  ids : b.ids = a.ids ++ more
  counter : b.nextId = a.nextId
  numbered : a.Numbered → b.Numbered

theorem Adds.fresh_iff (adds : Adds more a b) (fresh : a.Fresh) :
    b.Fresh ↔ a.nextId ∉ more := by
  rw [Fresh, adds.ids, adds.counter, mem_append, not_or]
  exact and_iff_right fresh

theorem adds_refl : Adds [] a a := ⟨(append_nil _).symm, rfl, id⟩

theorem Adds.trans (fst : Adds more a b) (snd : Adds others b c) : Adds (more ++ others) a c where
  ids := by rw [snd.ids, fst.ids, append_assoc]
  counter := snd.counter.trans fst.counter
  numbered := snd.numbered ∘ fst.numbered

theorem Numbered.bind {id : Nat} (numbered : a.Numbered) : (a.bind id row).2.Numbered := by
  intro few other index found
  have room : a.rows.length < 2 ^ 32 := by
    rw [Arena.bind, length_append] at few
    exact few
  have grown : (a.bind id row).2.ids = a.ids ++ [id] := map_append
  rw [Arena.bind, Nat.mod_eq_of_lt room] at found
  rw [grown]
  by_cases same : other = id
  · simp_all [Arena.ids]
  · have there := numbered room.le other index (by simpa [same] using found)
    obtain ⟨within, -⟩ := List.getElem?_eq_some_iff.mp there
    rw [getElem?_append_left within]
    exact there

theorem adds_bind (id : Nat) (a : Arena α) : Adds [id] a (a.bind id row).2 :=
  ⟨map_append, rfl, Numbered.bind⟩

theorem adds_modify (f : α → α) : Adds [] a (a.modify index f) := by
  have same : (a.modify index f).ids = a.ids := map_modify fun _ _ => rfl
  refine ⟨same.trans (append_nil _).symm, rfl, fun numbered few id i found => ?_⟩
  rw [same]
  exact numbered (by simpa [modify] using few) id i found

theorem adds_bindAll (pairs : List (Nat × α)) (a : Arena α) :
    Adds (pairs.map Prod.fst) a (a.bindAll pairs) := by
  induction pairs generalizing a with
  | nil => exact adds_refl
  | cons pair pairs ih => exact (adds_bind pair.1 a).trans (ih _)

theorem fresh_new : (new n : Arena α).Fresh := not_mem_nil

theorem numbered_new : (new n : Arena α).Numbered := fun _ _ _ => nofun

theorem decoded (done : decode named stored = some a) : a.Fresh ∧ a.Numbered := by
  unfold decode at done
  split at done
  · cases done
  cases done
  have adds := adds_bindAll (named.zip stored) (new (named.foldr max 0 + 1))
  refine ⟨(adds.fresh_iff fresh_new).mpr fun mem => ?_, adds.numbered numbered_new⟩
  obtain ⟨pair, among, same⟩ := mem_map.mp mem
  have most : pair.1 ≤ named.foldr max 0 := le_max_of_le (of_mem_zip among).1 le_rfl
  exact Nat.not_succ_le_self _ (same ▸ most)

/-- The counter moves on to a number that may be bound already. -/
theorem fresh_alloc : (a.alloc row).2.Fresh ↔ (a.nextId + 1) % 2 ^ 64 ∉ a.ids := by
  have moved : (a.nextId + 1) % 2 ^ 64 ≠ a.nextId := by omega
  have grown : (a.alloc row).2.ids = a.ids ++ [a.nextId] := map_append
  rw [Fresh, grown, mem_append, not_or, mem_singleton]
  exact and_iff_left moved

theorem Numbered.alloc (numbered : a.Numbered) : (a.alloc row).2.Numbered :=
  Numbered.bind (a := { a with nextId := _ }) numbered

theorem adds_publishVersionHead (a : Arena Slot) :
    Adds [] a (a.publishVersionHead i v p r w status) := by
  unfold publishVersionHead
  split
  · exact adds_refl
  · exact adds_modify _

end Arena

open Arena

def Cited.ids (cited : Cited ρ) : List Nat := if cited.record.isSome then [cited.id] else []

namespace EntityMutation

def entityIds : EntityMutation ρ → List Nat
  | create id .. => [id]
  | _ => []

def versionId : EntityMutation ρ → Nat
  | create _ _ id .. | createVersion _ id .. | transitionEpistemic _ id .. | tombstone _ id _ => id

def provenanceIds : EntityMutation ρ → List Nat
  | create _ _ _ cited _ | createVersion _ _ cited .. | transitionEpistemic _ _ _ _ cited
  | tombstone _ _ cited => cited.ids

end EntityMutation

namespace EntitySegment

def compactEntity (seg : EntitySegment ρ ν) (kept : Arena Slot × List ν) (id : Nat) :
    Arena Slot × List ν :=
  match seg.arena.getById id with
  | none => kept
  | some (_, header) =>
    match if header.vectorRow = nullRowRef then none else seg.vectors[header.vectorRow]? with
    | none => ((kept.1.bind id ⟨header, true⟩).2, kept.2)
    | some vec =>
      ((kept.1.bind id ⟨{ header with vectorRow := kept.2.length % 2 ^ 32 }, true⟩).2,
        kept.2 ++ [vec])

def compact (seg : EntitySegment ρ ν) : EntitySegment ρ ν :=
  let (arena, vectors) := seg.arena.liveIds.foldl seg.compactEntity (.new 1, [])
  ⟨arena, bindAll seg.provenance.rows (.new 1), bindAll seg.versions.rows (.new 1), vectors⟩

inductive Action (ρ : Type) where
  | mutate (lsn : Nat) (m : EntityMutation ρ)
  | alloc (header : EntityHeader)
  | appendVersion (row : VersionRow)
  | appendProvenance (record : ρ)
  | compact
  | decode (entityIds versionIds provenanceIds : List Nat) (headers : List EntityHeader)
    (rows : List VersionRow) (records : List ρ)

def act (seg : EntitySegment ρ ν) : Action ρ → Option (EntitySegment ρ ν)
  | .mutate lsn m => some ((m.apply lsn seg).toOption.getD seg)
  | .alloc header => some { seg with arena := (seg.arena.alloc fun _ => ⟨header, true⟩).2 }
  | .appendVersion row =>
    some { seg with versions := (seg.versions.alloc fun id => { row with versionId := id }).2 }
  | .appendProvenance record =>
    some { seg with provenance := (seg.provenance.alloc fun _ => record).2 }
  | .compact => some seg.compact
  | .decode entityIds versionIds provenanceIds headers rows records => do
    let arena ← Arena.decode entityIds (headers.map fun header => ⟨header, true⟩)
    let versions ← Arena.decode versionIds rows
    let provenance ← Arena.decode provenanceIds records
    some ⟨arena, provenance, versions, []⟩

def Fresh (seg : EntitySegment ρ ν) : Prop :=
  seg.arena.Fresh ∧ seg.versions.Fresh ∧ seg.provenance.Fresh

/-- In the state before the step: an accepted mutation binds other ids than the counters, the number
    after a counter that moves is not bound, and nothing that a compaction keeps has the number
    one. -/
def Spares (seg : EntitySegment ρ ν) : Action ρ → Prop
  | .mutate lsn m => (m.apply lsn seg).isOk → seg.arena.nextId ∉ m.entityIds ∧
      seg.versions.nextId ∉ [m.versionId] ∧ seg.provenance.nextId ∉ m.provenanceIds
  | .alloc _ => (seg.arena.nextId + 1) % 2 ^ 64 ∉ seg.arena.ids
  | .appendVersion _ => (seg.versions.nextId + 1) % 2 ^ 64 ∉ seg.versions.ids
  | .appendProvenance _ => (seg.provenance.nextId + 1) % 2 ^ 64 ∉ seg.provenance.ids
  | .compact => 1 ∉ seg.arena.liveIds.filter (fun id => (seg.arena.getById id).isSome) ∧
      1 ∉ seg.versions.ids ∧ 1 ∉ seg.provenance.ids
  | .decode .. => True

theorem adds_compactEntities (seg : EntitySegment ρ ν) (ids : List Nat)
    (kept : Arena Slot × List ν) :
    Adds (ids.filter fun id => (seg.arena.getById id).isSome) kept.1
      (ids.foldl seg.compactEntity kept).1 := by
  induction ids generalizing kept with
  | nil => exact adds_refl
  | cons id ids ih =>
    have later := ih (seg.compactEntity kept id)
    rw [foldl_cons]
    cases found : seg.arena.getById id with
    | none =>
      rw [filter_cons_of_neg (by simp [found])]
      have same : seg.compactEntity kept id = kept := by rw [compactEntity, found]
      rwa [same] at later ⊢
    | some pair =>
      rw [filter_cons_of_pos (by simp [found])]
      have one : Adds [id] kept.1 (seg.compactEntity kept id).1 := by
        rw [compactEntity, found]
        simp only
        split <;> exact adds_bind _ _
      exact one.trans later

variable {seg next : EntitySegment ρ ν} {m : EntityMutation ρ}

theorem adds_supersede {row : Nat → VersionRow} (named : ∀ prov, (row prov).versionId = v) :
    Adds [v] seg.versions (seg.supersede h lsn cited row).2.versions ∧
      Adds cited.ids seg.provenance (seg.supersede h lsn cited row).2.provenance := by
  constructor
  · simp only [supersede, named]
    split
    · exact adds_bind _ _
    · exact (adds_modify _).trans (adds_bind _ _)
  · show Adds cited.ids seg.provenance (seg.cite cited).2
    unfold cite Cited.ids
    cases cited.record with
    | none => exact adds_refl
    | some record => exact adds_bind _ _

/-- What a mutation binds: the entity it creates, its version and the record it brings. -/
theorem adds_apply (ok : m.apply lsn seg = .ok next) :
    Adds m.entityIds seg.arena next.arena ∧ Adds [m.versionId] seg.versions next.versions ∧
      Adds m.provenanceIds seg.provenance next.provenance := by
  cases m with
  | create id header version cited status =>
    simp only [EntityMutation.apply] at ok
    split at ok
    · cases ok
    · cases ok
      dsimp only
      exact ⟨adds_bind _ _, adds_supersede fun _ => rfl⟩
  | createVersion | transitionEpistemic =>
    simp only [EntityMutation.apply] at ok
    repeat' split at ok
    all_goals cases ok
    dsimp only [publish]
    exact ⟨adds_publishVersionHead _, adds_supersede fun _ => rfl⟩
  | tombstone id version cited =>
    simp only [EntityMutation.apply] at ok
    split at ok
    · cases ok
    · cases ok
      dsimp only [publish]
      exact ⟨(adds_modify _).trans (adds_publishVersionHead _), adds_supersede fun _ => rfl⟩

theorem fresh_act (fresh : seg.Fresh) (done : seg.act action = some next) :
    next.Fresh ↔ seg.Spares action := by
  obtain ⟨entities, versions, provenance⟩ := fresh
  cases action with
  | mutate lsn m =>
    cases done
    cases ok : m.apply lsn seg with
    | error =>
      refine iff_of_true ⟨entities, versions, provenance⟩ fun accepted => ?_
      rw [ok] at accepted
      cases accepted
    | ok after =>
      obtain ⟨fst, snd, third⟩ := adds_apply ok
      have accepted : (m.apply lsn seg).isOk := by rw [ok]; rfl
      simp only [Spares, accepted, true_implies]
      exact and_congr (fst.fresh_iff entities)
        (and_congr (snd.fresh_iff versions) (third.fresh_iff provenance))
  | alloc header =>
    cases done
    dsimp only [EntitySegment.Fresh, Spares]
    exact (and_iff_left ⟨versions, provenance⟩).trans fresh_alloc
  | appendVersion row =>
    cases done
    dsimp only [EntitySegment.Fresh, Spares]
    exact (and_iff_right entities).trans ((and_iff_left provenance).trans fresh_alloc)
  | appendProvenance record =>
    cases done
    dsimp only [EntitySegment.Fresh, Spares]
    exact (and_iff_right entities).trans ((and_iff_right versions).trans fresh_alloc)
  | compact =>
    cases done
    exact and_congr ((adds_compactEntities ..).fresh_iff fresh_new)
      (and_congr ((adds_bindAll _ _).fresh_iff fresh_new) ((adds_bindAll _ _).fresh_iff fresh_new))
  | decode =>
    simp only [EntitySegment.act, Option.bind_eq_bind, Option.bind_eq_some_iff] at done
    obtain ⟨_, fst, _, snd, _, third, ⟨⟩⟩ := done
    exact iff_of_true ⟨(decoded fst).1, (decoded snd).1, (decoded third).1⟩ trivial

/-- Generated ids are fresh in every state on the way exactly if every step spares them. -/
theorem always_fresh_iff (first : Nat) (actions : List (Action ρ)) :
    Always act Fresh (new first : EntitySegment ρ ν) actions ↔
      Throughout act Spares (new first : EntitySegment ρ ν) actions :=
  always_iff_throughout (fun _ => True)
    (fun _ _ _ _ fresh _ done => ⟨trivial, fresh_act fresh done⟩)
    (fun _ _ => trivial) trivial ⟨fresh_new, fresh_new, fresh_new⟩

theorem numbered_act (numbered : seg.arena.Numbered) (done : seg.act action = some next) :
    next.arena.Numbered := by
  cases action with
  | mutate lsn m =>
    cases done
    cases ok : m.apply lsn seg with
    | error => exact numbered
    | ok after => exact (adds_apply ok).1.numbered numbered
  | alloc header =>
    cases done
    dsimp only
    exact numbered.alloc
  | appendVersion | appendProvenance =>
    cases done
    exact numbered
  | compact =>
    cases done
    exact (adds_compactEntities ..).numbered numbered_new
  | decode =>
    simp only [EntitySegment.act, Option.bind_eq_bind, Option.bind_eq_some_iff] at done
    obtain ⟨_, fst, _, -, _, -, ⟨⟩⟩ := done
    exact (decoded fst).2

theorem always_numbered (first : Nat) (actions : List (Action ρ)) :
    Always act (·.arena.Numbered) (new first : EntitySegment ρ ν) actions :=
  .of_step numbered_new fun _ _ _ => numbered_act

/-- Entity one is created by its id, and the first generated id is one. -/
theorem not_always_fresh_create : ¬ Always act Fresh (new 1 : EntitySegment Unit Unit)
      [.mutate 1 (.create 1 {} 7 ⟨0, none⟩ .observed)] := by
  intro always
  have fresh := (always 1 _ rfl).1
  exact fresh (by decide)

end EntitySegment
end HoloSphere.Entity
