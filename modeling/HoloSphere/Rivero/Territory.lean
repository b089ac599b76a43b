import HoloSphere.Proof.TopK
import Mathlib.Algebra.GroupWithZero.Nat
import Mathlib.Algebra.Ring.Int.Defs
import Mathlib.Data.List.AList
import Mathlib.Data.List.Dedup

/-! # Rivero territories

The bounded cells of `rivero/mod.rs` and the candidates that a lookup draws from them.  What the
compiler makes of a vector is arbitrary here: for each foundation the cells in which the vector
is registered, with a fine code, and the cells that are probed for it.  The stripes are one map,
since a key determines its stripe, and the frozen table is left out.
-/

namespace HoloSphere.Rivero
open List
open Proof (NodeIndex)

def riveroFoundations : Nat := 24

def riveroCellCapacity : Nat := 64

def riveroCellAffinityElites : Nat := 24

def riveroQueryCandidateCap : Nat := 2048

/-- `cell_budget` of the strict configuration. -/
def strictCellBudget : Nat := 16

structure CellResident where
  slot : NodeIndex
  fineCode : UInt32
  deriving DecidableEq, Inhabited

namespace CellResident

def affinity (resident : CellResident) : UInt32 := resident.fineCode >>> 24

def projectedCode (resident : CellResident) : UInt32 := resident.fineCode &&& 0x00ffffff

end CellResident

def affinityPrecedes (lhs rhs : CellResident) : Bool :=
  decide (rhs.affinity < lhs.affinity ∨ lhs.affinity = rhs.affinity ∧ lhs.slot < rhs.slot)

def splitmix64 (val : UInt64) : UInt64 :=
  let first := val + 0x9e3779b97f4a7c15
  let snd := (first ^^^ (first >>> 30)) * 0xbf58476d1ce4e5b9
  let third := (snd ^^^ (snd >>> 27)) * 0x94d049bb133111eb
  third ^^^ (third >>> 31)

def diversityPriority (key : UInt64) (resident : CellResident) : UInt64 :=
  let code := resident.projectedCode.toUInt64
  let spread : UInt64 := UInt64.ofNat resident.slot * 0xd6e8feb86659fd93
  splitmix64 (key ^^^ spread ^^^ ((code <<< 23) ||| (code >>> 41)))

def unpackProjectedCoords (code : UInt32) : List Int :=
  ([0, 3, 6, 9, 12, 15, 18, 21] : List UInt32).map fun shift =>
    (((code >>> shift) &&& 7).toNat : Int) - 3

/-- The inner product and the distance of two packed codes. -/
def projectedSimilarity (lhs rhs : UInt32) : Int × Nat :=
  let pairs := (unpackProjectedCoords lhs).zip (unpackProjectedCoords rhs)
  ((pairs.map fun pair => pair.1 * pair.2).sum,
    (pairs.map fun pair => (pair.1 - pair.2).natAbs).sum)

/-- Insertion at the partition point of a list. -/
def insertAfter {α : Type} (pre : α → Bool) (item : α) (items : List α) : List α :=
  items.takeWhile pre ++ item :: items.dropWhile pre

theorem insertAfter_perm {α : Type} (pre : α → Bool) (item : α) (items : List α) :
    (insertAfter pre item items).Perm (item :: items) := by
  have moved := @perm_middle _ item (items.takeWhile pre) (items.dropWhile pre)
  rwa [takeWhile_append_dropWhile] at moved

/-- The residents up to `elite_len`, the affinity elites, are kept apart from the others. -/
structure CellSlots where
  elites : List CellResident := []
  diversity : List CellResident := []
  overflowed : Bool := false
  deriving DecidableEq, Inhabited

namespace CellSlots

def slots (cell : CellSlots) : List CellResident := cell.elites ++ cell.diversity

def eliteLen (cell : CellSlots) : Nat := cell.elites.length

def insertElite (resident : CellResident) (cell : CellSlots) : CellSlots :=
  { cell with elites := insertAfter (affinityPrecedes · resident) resident cell.elites }

/-- Whether the resident was admitted comes second. -/
def insertDiversity (key : UInt64) (resident : CellResident) (cap affinityElites : Nat)
    (cell : CellSlots) : CellSlots × Bool :=
  let maxDiversity := cap - affinityElites
  let priority := diversityPriority key resident
  let earlier := fun existing : CellResident =>
    decide (diversityPriority key existing < priority ∨
      diversityPriority key existing = priority ∧ existing.slot < resident.slot)
  if maxDiversity ≤ cell.diversity.length ∧
      maxDiversity ≤ (cell.diversity.takeWhile earlier).length then
    ({ cell with overflowed := true }, false)
  else
    let diversity := insertAfter earlier resident cell.diversity
    if cap < cell.elites.length + diversity.length then
      ({ cell with diversity := diversity.dropLast, overflowed := true }, true)
    else ({ cell with diversity := diversity }, true)

def insertWithLimits (key : UInt64) (fineCode : UInt32) (slot : NodeIndex)
    (cap affinityElites : Nat) (cell : CellSlots) : CellSlots :=
  if cell.slots.any fun resident => resident.slot = slot then cell
  else if cell.eliteLen < affinityElites then cell.insertElite ⟨slot, fineCode⟩
  else
    match cell.elites.getLast? with
    -- no elites at all: the source would panic
    | none => cell
    | some eliteTail =>
      if affinityPrecedes ⟨slot, fineCode⟩ eliteTail then
        (({ cell with elites := cell.elites.dropLast }.insertElite ⟨slot, fineCode⟩).insertDiversity
          key eliteTail cap affinityElites).1
      else
        let (filled, admitted) := cell.insertDiversity key ⟨slot, fineCode⟩ cap affinityElites
        if admitted then filled
        else { filled with overflowed := filled.overflowed || cap ≤ filled.slots.length }

/-- The resident of the highest affinity. -/
def promoted (first : CellResident) (others : List CellResident) : CellResident :=
  others.foldl (fun chosen resident =>
    if affinityPrecedes chosen resident then chosen else resident) first

/-- Refills the elites after one of them has gone. -/
def promote (cell : CellSlots) : CellSlots :=
  match cell.diversity with
  | [] => cell
  | first :: others =>
    if cell.eliteLen < riveroCellAffinityElites then
      { cell with diversity := (first :: others).erase (promoted first others) }.insertElite
        (promoted first others)
    else cell

def evict (slot : NodeIndex) (cell : CellSlots) : CellSlots :=
  if cell.elites.any fun resident => resident.slot = slot then
    { cell with elites := cell.elites.eraseP fun resident => resident.slot = slot }.promote
  else { cell with diversity := cell.diversity.eraseP fun resident => resident.slot = slot }

variable {cell : CellSlots}

theorem insertElite_slots : (cell.insertElite resident).slots.Perm (resident :: cell.slots) :=
  (insertAfter_perm _ _ _).append_right _

theorem insertDiversity_slots (key : UInt64) (resident : CellResident)
    (cap affinityElites : Nat) (cell : CellSlots) :
    (cell.insertDiversity key resident cap affinityElites).1.slots.Subperm
      (resident :: cell.slots) := by
  unfold insertDiversity
  extract_lets maxDiversity priority earlier
  have whole : (cell.elites ++ insertAfter earlier resident cell.diversity).Perm
      (resident :: cell.slots) :=
    ((insertAfter_perm earlier resident cell.diversity).append_left _).trans perm_middle
  split
  · exact (sublist_cons_self _ _).subperm
  · split
    · exact (((dropLast_sublist _).append_left _).subperm).trans whole.subperm
    · exact whole.subperm

/-- An insertion brings in no other resident. -/
theorem insertWithLimits_slots (key : UInt64) (fineCode : UInt32) (slot : NodeIndex)
    (cap affinityElites : Nat) (cell : CellSlots) :
    (cell.insertWithLimits key fineCode slot cap affinityElites).slots.Subperm
        (⟨slot, fineCode⟩ :: cell.slots) ∧
      ((cell.slots.map CellResident.slot).Nodup →
        ((cell.insertWithLimits key fineCode slot cap affinityElites).slots.map
          CellResident.slot).Nodup) := by
  have distinct {slots : List CellResident} (among : slots.Subperm (⟨slot, fineCode⟩ :: cell.slots))
      (fresh : ¬ (cell.slots.any fun resident => resident.slot = slot) = true)
      (nodup : (cell.slots.map CellResident.slot).Nodup) :
      (slots.map CellResident.slot).Nodup := by
    obtain ⟨part, same, sublist⟩ := among
    rw [← (same.map CellResident.slot).nodup_iff]
    refine (sublist.map _).nodup (nodup_cons.mpr ⟨?_, nodup⟩)
    simpa using fresh
  unfold insertWithLimits
  split
  · exact ⟨(sublist_cons_self _ _).subperm, id⟩
  rename_i fresh
  suffices among : List.Subperm (CellSlots.slots _) (⟨slot, fineCode⟩ :: cell.slots) from
    ⟨among, distinct among fresh⟩
  split
  · exact insertElite_slots.subperm
  split
  · exact (sublist_cons_self _ _).subperm
  rename_i eliteTail tail
  split
  · -- the last elite makes room and competes for a place among the others
    obtain ⟨elites, split⟩ := getLast?_eq_some_iff.mp tail
    refine (insertDiversity_slots _ _ _ _ _).trans (List.Perm.subperm ?_)
    refine ((insertElite_slots).cons _).trans ((List.Perm.swap _ _ _).trans (List.Perm.cons _ ?_))
    simp only [slots, split, dropLast_concat, append_assoc, singleton_append]
    exact perm_middle.symm
  · split
    rename_i filled admitted inserted
    have among := insertDiversity_slots key ⟨slot, fineCode⟩ cap affinityElites cell
    rw [inserted] at among
    split
    · exact among
    · exact among

theorem promoted_mem (first : CellResident) : promoted first others ∈ first :: others := by
  unfold promoted
  induction others generalizing first with
  | nil => exact mem_singleton.mpr rfl
  | cons other others ih =>
    rw [foldl_cons]
    split
    · exact cons_subset_cons _ (subset_cons_self _ _) (ih first)
    · exact mem_cons_of_mem _ (ih other)

theorem promote_slots : cell.promote.slots.Perm cell.slots := by
  unfold promote
  split
  · rfl
  · rename_i first others rest
    split
    · refine insertElite_slots.trans ?_
      simp only [slots, rest]
      refine perm_middle.symm.trans (List.Perm.append_left _ ?_)
      exact (perm_cons_erase (promoted_mem first)).symm
    · rfl

theorem evict_slots :
    (cell.evict slot).slots.Perm (cell.slots.eraseP fun resident => resident.slot = slot) := by
  unfold evict
  by_cases among : (cell.elites.any fun resident => resident.slot = slot) = true
  · rw [if_pos among]
    obtain ⟨resident, mem, same⟩ := any_eq_true.mp among
    refine (promote_slots).trans (List.Perm.of_eq ?_)
    exact (@eraseP_append_left _ (fun resident => decide (resident.slot = slot)) resident same
      cell.elites cell.diversity mem).symm
  · rw [if_neg among]
    have absent : ∀ resident ∈ cell.elites, ¬ decide (resident.slot = slot) = true := by
      intro resident mem same
      exact among (any_eq_true.mpr ⟨resident, mem, same⟩)
    rw [slots, slots, eraseP_append_right _ absent]

theorem slot_ne_of_mem_evict (distinct : (cell.slots.map CellResident.slot).Nodup)
    (mem : resident ∈ (cell.evict slot).slots) : resident ∈ cell.slots ∧ resident.slot ≠ slot := by
  have kept := (evict_slots).mem_iff.mp mem
  refine ⟨mem_of_mem_eraseP kept, fun same => ?_⟩
  by_cases present : ∃ other ∈ cell.slots, other.slot = slot
  · obtain ⟨other, held, rfl⟩ := present
    obtain ⟨found, pre, after, absent, here, whole, rest⟩ :=
      @exists_of_eraseP _ (fun resident => decide (resident.slot = other.slot)) _ _ held
        (decide_eq_true rfl)
    rw [rest] at kept
    rw [whole, map_append, map_cons, nodup_append, nodup_cons] at distinct
    rcases mem_append.mp kept with early | late
    · exact absent resident early (decide_eq_true same)
    · exact distinct.2.1.1 (mem_map.mpr ⟨resident, late, same.trans (of_decide_eq_true here).symm⟩)
  · exact present ⟨resident, mem_of_mem_eraseP kept, same⟩

theorem nodup_evict (distinct : (cell.slots.map CellResident.slot).Nodup) :
    ((cell.evict slot).slots.map CellResident.slot).Nodup := by
  rw [((evict_slots).map _).nodup_iff]
  exact ((eraseP_sublist).map _).nodup distinct

end CellSlots

/-- What the coordinates of one foundation yield: the cells in which a vector is registered, each
    with its fine code, and the cells that are probed for it, each with its query code. -/
structure Foundation where
  insertCells : List (UInt64 × UInt32)
  lookupCells : List (UInt64 × UInt32)
  deriving DecidableEq

abbrev RiveroAddress := List Foundation

/-- The cells in which a vector of this address may be registered. -/
def RiveroAddress.keys (addr : RiveroAddress) : List UInt64 :=
  (addr.flatMap Foundation.insertCells).map Prod.fst

structure RankedResident where
  dot : Int
  l1Distance : Nat
  slot : NodeIndex
  deriving DecidableEq

def rankedResidentOrder (lhs rhs : RankedResident) : Ordering :=
  (compare rhs.dot lhs.dot).then
    ((compare lhs.l1Distance rhs.l1Distance).then (compare lhs.slot rhs.slot))

/-- The best residents for a query code, all of them if the budget allows. -/
def appendBestSlice (residents : List CellResident) (queryCode : UInt32) (budget : Nat) :
    List RankedResident :=
  let ranked := residents.map fun resident =>
    let (dot, l1Distance) := projectedSimilarity queryCode resident.projectedCode
    (⟨dot, l1Distance, resident.slot⟩ : RankedResident)
  if residents.length ≤ budget then ranked
  else (ranked.insertionSort fun lhs rhs => (rankedResidentOrder lhs rhs).isLE).take budget

structure VotedCandidate where
  slot : NodeIndex
  votes : Nat
  dotSum : Int
  l1Sum : Nat
  deriving DecidableEq

def votedCandidateOrder (lhs rhs : VotedCandidate) : Ordering :=
  (compare rhs.votes lhs.votes).then ((compare rhs.dotSum lhs.dotSum).then
    ((compare lhs.l1Sum rhs.l1Sum).then (compare lhs.slot rhs.slot)))

def voted (admissions : List RankedResident) (slot : NodeIndex) : VotedCandidate :=
  let own := admissions.filter fun admission => admission.slot = slot
  ⟨slot, own.length, (own.map RankedResident.dot).sum, (own.map RankedResident.l1Distance).sum⟩

structure RiveroTerritoryIndex where
  cells : AList fun _ : UInt64 => CellSlots

namespace RiveroTerritoryIndex

def new : RiveroTerritoryIndex := ⟨∅⟩

def cell (key : UInt64) (terr : RiveroTerritoryIndex) : CellSlots := (terr.cells.lookup key).getD {}

def insertCell (slot : NodeIndex) (terr : RiveroTerritoryIndex) (entry : UInt64 × UInt32) :
    RiveroTerritoryIndex :=
  ⟨terr.cells.insert entry.1 ((terr.cell entry.1).insertWithLimits entry.1 entry.2 slot
    riveroCellCapacity riveroCellAffinityElites)⟩

/-- The strict configuration registers a slot under its first foundations. -/
def insert (addr : RiveroAddress) (slot : NodeIndex) (terr : RiveroTerritoryIndex) :
    RiveroTerritoryIndex :=
  ((addr.take riveroFoundations).flatMap Foundation.insertCells).foldl (insertCell slot)
    terr

def evictCell (slot : NodeIndex) (terr : RiveroTerritoryIndex) (key : UInt64) :
    RiveroTerritoryIndex :=
  match terr.cells.lookup key with
  | none => terr
  | some cell => ⟨terr.cells.insert key (cell.evict slot)⟩

open RiveroAddress

def evict (addr : RiveroAddress) (slot : NodeIndex) (terr : RiveroTerritoryIndex) :
    RiveroTerritoryIndex :=
  (keys addr).foldl (evictCell slot) terr

/-- `with_candidates_config` for the strict configuration. -/
def withCandidates (addr : RiveroAddress) (terr : RiveroTerritoryIndex) : List NodeIndex :=
  let cells := (addr.take riveroFoundations).flatMap Foundation.lookupCells
  let admissions := cells.flatMap fun entry =>
    appendBestSlice (terr.cell entry.1).slots entry.2 strictCellBudget
  let slots := (admissions.map RankedResident.slot).dedup
  let candidates := (slots.map (voted admissions)).insertionSort
    fun lhs rhs => (votedCandidateOrder lhs rhs).isLE
  (candidates.take riveroQueryCandidateCap).map VotedCandidate.slot

variable {terr : RiveroTerritoryIndex}

theorem cell_insertCell (key : UInt64) : (terr.insertCell slot entry).cell key =
      if key = entry.1 then (terr.cell entry.1).insertWithLimits entry.1 entry.2 slot
        riveroCellCapacity riveroCellAffinityElites
      else terr.cell key := by
  unfold insertCell cell
  split
  · rename_i same
    subst same
    rw [AList.lookup_insert, Option.getD_some]
  · rename_i other
    rw [AList.lookup_insert_ne other]

theorem cell_evictCell : (terr.evictCell slot evicted).cell key =
      if key = evicted then (terr.cell evicted).evict slot else terr.cell key := by
  unfold evictCell cell
  split
  · rename_i absent
    split
    · rename_i same
      subst same
      rw [absent]
      rfl
    · rfl
  · rename_i held present
    split
    · rename_i same
      subst same
      rw [AList.lookup_insert, present, Option.getD_some, Option.getD_some]
    · rename_i other
      rw [AList.lookup_insert_ne other]

theorem mem_appendBestSlice (mem : ranked ∈ appendBestSlice residents queryCode budget) :
    ∃ resident ∈ residents, resident.slot = ranked.slot := by
  have among : ranked ∈ residents.map fun resident =>
      (⟨(projectedSimilarity queryCode resident.projectedCode).1,
        (projectedSimilarity queryCode resident.projectedCode).2, resident.slot⟩ :
          RankedResident) := by
    unfold appendBestSlice at mem
    split at mem
    · exact mem
    · exact (perm_insertionSort _ _).mem_iff.mp (mem_of_mem_take mem)
  obtain ⟨resident, held, rfl⟩ := mem_map.mp among
  exact ⟨resident, held, rfl⟩

@[simp] theorem withCandidates_nil : terr.withCandidates [] = [] := rfl

/-- Every candidate resides in some cell. -/
theorem resident_of_mem_withCandidates (mem : slot ∈ terr.withCandidates addr) :
    ∃ key, ∃ resident ∈ (terr.cell key).slots, resident.slot = slot := by
  obtain ⟨candidate, taken, rfl⟩ := mem_map.mp mem
  have sorted := (perm_insertionSort _ _).mem_iff.mp (mem_of_mem_take taken)
  obtain ⟨slot, among, rfl⟩ := mem_map.mp sorted
  obtain ⟨ranked, admitted, rfl⟩ := mem_map.mp (mem_dedup.mp among)
  obtain ⟨entry, -, best⟩ := mem_flatMap.mp admitted
  exact ⟨entry.1, mem_appendBestSlice best⟩

/-- Every resident is live and resides where its address says, once in each cell. -/
structure Registered (addr : NodeIndex → RiveroAddress) (live : NodeIndex → Prop)
    (terr : RiveroTerritoryIndex) : Prop where
  distinct : ∀ key, ((terr.cell key).slots.map CellResident.slot).Nodup
  resident : ∀ key, ∀ resident ∈ (terr.cell key).slots,
    live resident.slot ∧ key ∈ keys (addr resident.slot)

variable {live : NodeIndex → Prop}

theorem registered_new : Registered addr live new where
  distinct _ := nodup_nil
  resident _ _ := nofun

section
variable (registered : Registered addr live terr)
include registered

theorem Registered.congr {alive : NodeIndex → Prop}
    (still : ∀ slot, live slot → alive slot ∧ others slot = addr slot) :
    Registered others alive terr where
  distinct := registered.distinct
  resident key resident mem := by
    obtain ⟨held, addressed⟩ := registered.resident key resident mem
    obtain ⟨alive, same⟩ := still _ held
    exact ⟨alive, same ▸ addressed⟩

theorem Registered.insertCell (held : live slot)
    {entry : UInt64 × UInt32} (own : entry.1 ∈ keys (addr slot)) :
    Registered addr live (terr.insertCell slot entry) := by
  have inserted := (terr.cell entry.1).insertWithLimits_slots entry.1 entry.2 slot
    riveroCellCapacity riveroCellAffinityElites
  constructor
  · intro key
    rw [cell_insertCell]
    split
    · exact inserted.2 (registered.distinct entry.1)
    · exact registered.distinct key
  · intro key resident mem
    rw [cell_insertCell] at mem
    split at mem
    · rename_i same
      subst same
      rcases mem_cons.mp (inserted.1.subset mem) with rfl | old
      · exact ⟨held, own⟩
      · exact registered.resident _ resident old
    · exact registered.resident key resident mem

theorem Registered.insert (held : live slot) :
    Registered addr live (terr.insert (addr slot) slot) := by
  have own : ∀ entry ∈ ((addr slot).take riveroFoundations).flatMap Foundation.insertCells,
      entry.1 ∈ keys (addr slot) := by
    intro entry mem
    obtain ⟨foundation, taken, cell⟩ := mem_flatMap.mp mem
    exact mem_map_of_mem (mem_flatMap.mpr ⟨foundation, mem_of_mem_take taken, cell⟩)
  unfold RiveroTerritoryIndex.insert
  generalize ((addr slot).take riveroFoundations).flatMap Foundation.insertCells = ents at own
  induction ents generalizing terr with
  | nil => exact registered
  | cons entry ents ih =>
    exact ih (registered.insertCell held (own entry mem_cons_self))
      (forall_mem_cons.mp own).2

theorem Registered.evictCell (slot : NodeIndex) (evicted : UInt64) :
    Registered addr live (terr.evictCell slot evicted) ∧
      ∀ key, ∀ resident ∈ ((terr.evictCell slot evicted).cell key).slots,
        resident ∈ (terr.cell key).slots ∧ (key = evicted → resident.slot ≠ slot) := by
  have kept : ∀ key, ∀ resident ∈ ((terr.evictCell slot evicted).cell key).slots,
      resident ∈ (terr.cell key).slots ∧ (key = evicted → resident.slot ≠ slot) := by
    intro key resident mem
    rw [cell_evictCell] at mem
    split at mem
    · rename_i same
      subst same
      have left := CellSlots.slot_ne_of_mem_evict (registered.distinct key) mem
      exact ⟨left.1, fun _ => left.2⟩
    · rename_i other
      exact ⟨mem, fun same => absurd same other⟩
  refine ⟨⟨fun key => ?_, fun key resident mem => ?_⟩, kept⟩
  · rw [cell_evictCell]
    split
    · exact CellSlots.nodup_evict (registered.distinct evicted)
    · exact registered.distinct key
  · exact registered.resident key resident (kept key resident mem).1

/-- After an eviction the slot resides nowhere. -/
theorem Registered.evict (slot : NodeIndex) :
    Registered addr (fun other => live other ∧ other ≠ slot)
      (terr.evict (addr slot) slot) := by
  have swept : ∀ keys : List UInt64, ∀ terr, Registered addr live terr →
      (∀ key ∉ keys, ∀ resident ∈ (terr.cell key).slots,
        key ∈ RiveroAddress.keys (addr slot) → resident.slot ≠ slot) →
      Registered addr live (keys.foldl (RiveroTerritoryIndex.evictCell slot) terr) ∧
        ∀ key, ∀ resident ∈ ((keys.foldl (RiveroTerritoryIndex.evictCell slot) terr).cell
          key).slots, key ∈ RiveroAddress.keys (addr slot) → resident.slot ≠ slot := by
    intro keys
    induction keys with
    | nil => exact fun terr held clean => ⟨held, fun key => clean key not_mem_nil⟩
    | cons first keys ih =>
      intro terr held clean
      obtain ⟨after, kept⟩ := held.evictCell slot first
      refine ih _ after fun key later resident mem own => ?_
      by_cases here : key = first
      · exact (kept key resident mem).2 here
      · exact clean key (by simp [here, later]) resident (kept key resident mem).1 own
  obtain ⟨after, clean⟩ := swept (keys (addr slot)) terr registered
    fun key absent _ _ own => absurd own absent
  refine ⟨after.distinct, fun key resident mem => ?_⟩
  obtain ⟨held, own⟩ := after.resident key resident mem
  refine ⟨⟨held, fun same => ?_⟩, own⟩
  exact clean key resident mem (same ▸ own) same

theorem Registered.candidate_live (mem : slot ∈ terr.withCandidates query) : live slot := by
  obtain ⟨key, resident, held, rfl⟩ := resident_of_mem_withCandidates mem
  exact (registered.resident key resident held).1

end
end RiveroTerritoryIndex
end HoloSphere.Rivero
