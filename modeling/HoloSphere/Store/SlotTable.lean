import Mathlib.Data.Finset.Insert

/-! # Append-only slot tables

A table of keyed slots that only grows: a key map points at the newest slot of a
key, and a slot dies by its number entering the tombstones.  Slot numbers are
stored modulo `m`, so positions are told apart only while the table holds at most
`m` slots.  A sound table has at most one live slot per key, the one its map
points at.
-/

namespace HoloSphere.Store
open Function List

structure SlotTable (κ ν : Type) where
  slots : List (κ × ν) := []
  slotOf : κ → Option Nat := fun _ => none
  tombstones : Finset Nat := ∅

namespace SlotTable
variable {κ ν : Type}

def bury (tbl : SlotTable κ ν) (slot : Nat) : SlotTable κ ν :=
  { tbl with tombstones := insert slot tbl.tombstones }

/-- The slot that the map holds for a key dies. -/
def kill (key : κ) (tbl : SlotTable κ ν) : SlotTable κ ν :=
  match tbl.slotOf key with
  | none => tbl
  | some slot => tbl.bury slot

def push [DecidableEq κ] (m : Nat) (key : κ) (val : ν) (tbl : SlotTable κ ν) : SlotTable κ ν :=
  { tbl with
    slots := tbl.slots ++ [(key, val)]
    slotOf := update tbl.slotOf key (some (tbl.slots.length % m)) }

/-- A new version of a key buries the one before. -/
def put [DecidableEq κ] (m : Nat) (key : κ) (val : ν) (tbl : SlotTable κ ν) : SlotTable κ ν :=
  (tbl.kill key).push m key val

/-- Only keys that the map does not hold yet are taken. -/
def absorb [DecidableEq κ] (m : Nat) (tbl : SlotTable κ ν) (entry : κ × ν) : SlotTable κ ν :=
  match tbl.slotOf entry.1 with
  | none => tbl.push m entry.1 entry.2
  | some _ => tbl

/-- The slot at a position, unless its number is buried. -/
def liveAt (m : Nat) (tbl : SlotTable κ ν) (pos : Nat) : Option (κ × ν) :=
  if pos % m ∈ tbl.tombstones then none else tbl.slots[pos]?

def live (m : Nat) (tbl : SlotTable κ ν) : List (κ × ν) :=
  (range tbl.slots.length).filterMap (tbl.liveAt m)

def valueFor [DecidableEq κ] (key : κ) (entry : κ × ν) : Option ν :=
  if entry.1 = key then some entry.2 else none

def versions [DecidableEq κ] (m : Nat) (key : κ) (tbl : SlotTable κ ν) : List ν :=
  (tbl.live m).filterMap (valueFor key)

structure Sound (m : Nat) (tbl : SlotTable κ ν) : Prop where
  fits : tbl.slots.length ≤ m
  named : ∀ key slot, tbl.slotOf key = some slot → ∃ val, tbl.slots[slot]? = some (key, val)
  current : ∀ slot entry, tbl.slots[slot]? = some entry → slot ∉ tbl.tombstones →
    tbl.slotOf entry.1 = some slot
  buried : ∀ slot ∈ tbl.tombstones, slot < tbl.slots.length

theorem Sound.empty (m : Nat) : Sound m ({} : SlotTable κ ν) :=
  ⟨Nat.zero_le m, nofun, by simp, by simp⟩

variable {tbl : SlotTable κ ν}

theorem mem_live : entry ∈ tbl.live m ↔ ∃ pos, tbl.liveAt m pos = some entry := by
  unfold live
  rw [mem_filterMap]
  constructor
  · rintro ⟨pos, -, found⟩
    exact ⟨pos, found⟩
  · rintro ⟨pos, found⟩
    refine ⟨pos, ?_, found⟩
    unfold liveAt at found
    split at found
    · cases found
    · exact List.mem_range.mpr (List.getElem?_eq_some_iff.mp found).1

theorem Sound.liveAt (h : Sound m tbl) (hin : pos < tbl.slots.length) : tbl.liveAt m pos =
      if pos ∈ tbl.tombstones then none else tbl.slots[pos]? := by
  unfold SlotTable.liveAt
  have fits := h.fits
  rw [Nat.mod_eq_of_lt (by omega)]

/-- A function that answers at one position only. -/
theorem filterMap_range_single {β : Type} (f : Nat → Option β)
    (hin : pos < bound) (only : ∀ other, other < bound → other ≠ pos → f other = none) :
    (range bound).filterMap f = (f pos).toList := by
  induction bound with
  | zero => cases hin
  | succ bound ih =>
    rw [range_succ, filterMap_append]
    by_cases last : pos = bound
    · subst last
      have none : (range pos).filterMap f = [] := by
        rw [filterMap_eq_nil_iff]
        intro other mem
        have below := mem_range.mp mem
        exact only other (by omega) below.ne
      rw [none]
      cases here : f pos <;> simp [here]
    · have rest := ih (by omega) fun other below => only other (by omega)
      simp [rest, only bound (Nat.lt_succ_self bound) (Ne.symm last)]

theorem Sound.kill (h : Sound m tbl) (key : κ) : Sound m (tbl.kill key) := by
  unfold SlotTable.kill
  cases found : tbl.slotOf key with
  | none => exact h
  | some slot =>
    obtain ⟨val, here⟩ := h.named key slot found
    refine ⟨h.fits, h.named, ?_, ?_⟩
    · intro other entry there alive
      exact h.current other entry there fun dead => alive (Finset.mem_insert_of_mem dead)
    · intro other dead
      rcases Finset.mem_insert.mp dead with rfl | old
      · exact (List.getElem?_eq_some_iff.mp here).1
      · exact h.buried other old

@[simp] theorem kill_slots : (tbl.kill key).slots = tbl.slots := by
  unfold kill bury
  cases tbl.slotOf key with
  | none | some => rfl

@[simp] theorem kill_slotOf : (tbl.kill key).slotOf = tbl.slotOf := by
  unfold kill bury
  cases tbl.slotOf key with
  | none | some => rfl

theorem kill_absent (absent : tbl.slotOf key = none) : tbl.kill key = tbl := by
  simp [kill, absent]

theorem kill_tombstones (found : tbl.slotOf key = some slot) :
    (tbl.kill key).tombstones = insert slot tbl.tombstones := by
  simp [kill, bury, found]

theorem tombstones_subset_kill (tbl : SlotTable κ ν) :
    tbl.tombstones ⊆ (tbl.kill key).tombstones := by
  cases found : tbl.slotOf key with
  | none => rw [kill_absent found]
  | some slot =>
    rw [kill_tombstones found]
    exact Finset.subset_insert slot _

/-- The slot that the map holds for the key, if any, is dead already. -/
def Cleared (key : κ) (tbl : SlotTable κ ν) : Prop :=
  ∀ slot ∈ tbl.slotOf key, slot ∈ tbl.tombstones

instance (key : κ) (tbl : SlotTable κ ν) : Decidable (tbl.Cleared key) :=
  inferInstanceAs (Decidable (∀ slot ∈ tbl.slotOf key, slot ∈ tbl.tombstones))

theorem Cleared.kill (cleared : tbl.Cleared key) : tbl.kill key = tbl := by
  cases found : tbl.slotOf key with
  | none => exact kill_absent found
  | some slot => simp [SlotTable.kill, bury, found, cleared slot found]

theorem cleared_kill : (tbl.kill key).Cleared key := by
  intro slot found
  rw [kill_slotOf] at found
  rw [kill_tombstones found]
  exact Finset.mem_insert_self slot _

theorem mem_live_of_kill (mem : entry ∈ (tbl.kill key).live m) : entry ∈ tbl.live m := by
  obtain ⟨pos, found⟩ := mem_live.mp mem
  refine mem_live.mpr ⟨pos, ?_⟩
  unfold SlotTable.liveAt at found ⊢
  rw [kill_slots] at found
  split at found
  case isTrue => cases found
  case isFalse alive =>
    exact (if_neg fun dead => alive (tombstones_subset_kill tbl dead)).trans found

variable [DecidableEq κ]

theorem mem_versions : val ∈ tbl.versions m key ↔ (key, val) ∈ tbl.live m := by
  unfold versions
  rw [mem_filterMap]
  constructor
  · rintro ⟨⟨key', value'⟩, mem, found⟩
    unfold valueFor at found
    split at found
    case isTrue same =>
      cases found
      cases same
      exact mem
    case isFalse => cases found
  · intro mem
    exact ⟨(key, val), mem, if_pos rfl⟩

/-- A sound table has no live slot of a key but the one its map points at. -/
theorem Sound.versions_eq (h : Sound m tbl) (key : κ) : tbl.versions m key =
      match tbl.slotOf key with
      | none => []
      | some slot => if slot ∈ tbl.tombstones then [] else
          ((tbl.slots[slot]?).map Prod.snd).toList := by
  have versions : tbl.versions m key = (range tbl.slots.length).filterMap
      fun pos => (tbl.liveAt m pos).bind (valueFor key) := by
    unfold SlotTable.versions live
    rw [filterMap_filterMap]
  have elsewhere : ∀ pos, pos < tbl.slots.length → tbl.slotOf key ≠ some pos →
      (tbl.liveAt m pos).bind (valueFor key) = none := by
    intro pos hin other
    rw [h.liveAt hin]
    split
    · rfl
    case isFalse alive =>
      rw [getElem?_eq_getElem hin, Option.bind_some]
      refine if_neg ?_
      intro same
      have mapped := h.current pos _ (getElem?_eq_getElem hin) alive
      rw [same] at mapped
      exact other mapped
  rw [versions]
  cases found : tbl.slotOf key with
  | none =>
    rw [filterMap_eq_nil_iff]
    intro pos mem
    exact elsewhere pos (mem_range.mp mem) (by rw [found]; simp)
  | some slot =>
    obtain ⟨val, here⟩ := h.named key slot found
    have hin := (List.getElem?_eq_some_iff.mp here).1
    simp only
    rw [filterMap_range_single _ hin]
    · rw [h.liveAt hin, here]
      split
      · rfl
      · simp [valueFor]
    · intro other bound apart
      refine elsewhere other bound ?_
      rw [found]
      exact fun same => apart (Option.some.inj same).symm

theorem Sound.versions_length (h : Sound m tbl) (key : κ) : (tbl.versions m key).length ≤ 1 := by
  rw [h.versions_eq key]
  cases tbl.slotOf key with
  | none => simp
  | some slot =>
    simp only
    split
    · simp
    · cases tbl.slots[slot]? with
      | none | some => simp

theorem Sound.kill_versions_self (h : Sound m tbl) (key : κ) :
    (tbl.kill key).versions m key = [] := by
  rw [(h.kill key).versions_eq key]
  cases found : tbl.slotOf key with
  | none => simp [found]
  | some slot => simp [found, kill_tombstones found]

theorem Sound.kill_versions_other (h : Sound m tbl) (apart : other ≠ key) :
    (tbl.kill key).versions m other = tbl.versions m other := by
  rw [(h.kill key).versions_eq other, h.versions_eq other, kill_slotOf, kill_slots]
  cases found : tbl.slotOf other with
  | none => rfl
  | some slot =>
    cases mine : tbl.slotOf key with
    | none => rw [kill_absent mine]
    | some slot' =>
      have different : slot ≠ slot' := by
        rintro rfl
        obtain ⟨val, here⟩ := h.named other slot found
        obtain ⟨value', there⟩ := h.named key slot mine
        rw [here] at there
        exact apart (congrArg Prod.fst (Option.some.inj there))
      simp [kill_tombstones mine, different]

@[simp] theorem push_slots : (tbl.push m key val).slots = tbl.slots ++ [(key, val)] := rfl

@[simp] theorem push_tombstones : (tbl.push m key val).tombstones = tbl.tombstones := rfl

section
variable (h : Sound m tbl)
include h

section
variable (room : tbl.slots.length < m)
include room

theorem Sound.push (dead : tbl.Cleared key) (val : ν) :
    Sound m (tbl.push m key val) where
  fits := by
    show (tbl.slots ++ [(key, val)]).length ≤ m
    rw [length_append, length_singleton]
    omega
  named other slot found := by
    show ∃ value', (tbl.slots ++ [(key, val)])[slot]? = some (other, value')
    change update tbl.slotOf key (some (tbl.slots.length % m)) other = some slot at found
    by_cases same : other = key
    · subst same
      rw [update_self, Nat.mod_eq_of_lt room] at found
      cases found
      exact ⟨val, by simp⟩
    · rw [update_of_ne same] at found
      obtain ⟨value', here⟩ := h.named other slot found
      refine ⟨value', ?_⟩
      rw [List.getElem?_append_left (List.getElem?_eq_some_iff.mp here).1, here]
  current slot entry here alive := by
    change (tbl.slots ++ [(key, val)])[slot]? = some entry at here
    show update tbl.slotOf key (some (tbl.slots.length % m)) entry.1 = some slot
    by_cases old : slot < tbl.slots.length
    · rw [getElem?_append_left old] at here
      have mapped := h.current slot entry here alive
      rw [update_of_ne]
      · exact mapped
      · intro same
        rw [same] at mapped
        exact alive (dead slot mapped)
    · rw [getElem?_append_right (by omega)] at here
      obtain ⟨hin, value'⟩ := List.getElem?_eq_some_iff.mp here
      have last : slot = tbl.slots.length := by
        have : slot - tbl.slots.length < 1 := hin
        omega
      subst last
      simp only [Nat.sub_self, getElem_cons_zero] at value'
      rw [← value', update_self, Nat.mod_eq_of_lt room]
  buried slot mem := by
    show slot < (tbl.slots ++ [(key, val)]).length
    have below := h.buried slot mem
    rw [length_append]
    omega

theorem Sound.push_versions_self
    (dead : tbl.Cleared key) :
    (tbl.push m key val).versions m key = [val] := by
  rw [(h.push room dead val).versions_eq key]
  have fresh : tbl.slots.length ∉ tbl.tombstones := by
    intro mem
    have below := h.buried _ mem
    omega
  simp [SlotTable.push, Nat.mod_eq_of_lt room, fresh]

theorem Sound.push_versions_other
    (apart : other ≠ key) (dead : tbl.Cleared key) :
    (tbl.push m key val).versions m other = tbl.versions m other := by
  rw [(h.push room dead val).versions_eq other, h.versions_eq other]
  have same : (tbl.push m key val).slotOf other = tbl.slotOf other := update_of_ne apart _ _
  rw [same]
  cases found : tbl.slotOf other with
  | none => rfl
  | some slot =>
    obtain ⟨value', here⟩ := h.named other slot found
    have hin := (List.getElem?_eq_some_iff.mp here).1
    simp [push_tombstones, push_slots, getElem?_append_left hin]

theorem Sound.put (key : κ) (val : ν) : Sound m (tbl.put m key val) :=
  (h.kill key).push (by rwa [kill_slots]) cleared_kill val

theorem Sound.put_versions_self : (tbl.put m key val).versions m key = [val] :=
  (h.kill key).push_versions_self (by rwa [kill_slots]) cleared_kill

theorem Sound.put_versions_other (apart : other ≠ key) (val : ν) :
    (tbl.put m key val).versions m other = tbl.versions m other := by
  unfold SlotTable.put
  rw [(h.kill key).push_versions_other (by rwa [kill_slots]) apart cleared_kill,
    h.kill_versions_other apart]

end
end

/-- A table under construction: nothing is buried yet. -/
structure Fresh (m : Nat) (tbl : SlotTable κ ν) : Prop where
  sound : Sound m tbl
  alive : tbl.tombstones = ∅

theorem Fresh.versions_eq (h : Fresh m tbl) (key : κ) :
    tbl.versions m key = [] ↔ tbl.slotOf key = none := by
  rw [h.sound.versions_eq key]
  cases found : tbl.slotOf key with
  | none => simp
  | some slot =>
    obtain ⟨val, here⟩ := h.sound.named key slot found
    simp [h.alive, here]

theorem Fresh.absorb (h : Fresh m tbl) (room : tbl.slots.length < m) (entry : κ × ν) :
    Fresh m (tbl.absorb m entry) := by
  unfold SlotTable.absorb
  cases free : tbl.slotOf entry.1 with
  | none => exact ⟨h.sound.push room (by simp [Cleared, free]) entry.2, h.alive⟩
  | some slot => exact h

theorem Fresh.absorb_versions (h : Fresh m tbl) (room : tbl.slots.length < m) :
    (tbl.absorb m entry).versions m key =
      if tbl.versions m key = [] then (valueFor key entry).toList
      else tbl.versions m key := by
  unfold SlotTable.absorb
  cases free : tbl.slotOf entry.1 with
  | none =>
    have dead : tbl.Cleared entry.1 := by simp [Cleared, free]
    by_cases same : entry.1 = key
    · have none := (h.versions_eq key).mpr (by rw [← same, free])
      simp only [none, if_true, valueFor, if_pos same]
      rw [← same]
      exact h.sound.push_versions_self room dead
    · simp only [valueFor, if_neg same]
      rw [h.sound.push_versions_other room (Ne.symm same) dead]
      split
      case isTrue none => rw [none]; rfl
      case isFalse => rfl
  | some slot =>
    simp only
    split
    case isTrue none =>
      have absent := (h.versions_eq key).mp none
      have apart : entry.1 ≠ key := by
        intro same
        rw [same, absent] at free
        cases free
      simp [none, valueFor, apart]
    case isFalse => rfl

theorem length_absorb (tbl : SlotTable κ ν) (entry : κ × ν) :
    (tbl.absorb m entry).slots.length ≤ tbl.slots.length + 1 := by
  unfold absorb
  cases tbl.slotOf entry.1 with
  | none => simp [push]
  | some slot => exact Nat.le_succ _

/-- Absorbing takes some of the entries, in their order. -/
theorem foldl_absorb_slots (ents : List (κ × ν)) (tbl : SlotTable κ ν) :
    ∃ taken, taken.Sublist ents ∧
      (ents.foldl (SlotTable.absorb m) tbl).slots = tbl.slots ++ taken := by
  induction ents generalizing tbl with
  | nil => exact ⟨[], .slnil, (append_nil _).symm⟩
  | cons entry rest ih =>
    obtain ⟨taken, among, slots⟩ := ih (tbl.absorb m entry)
    cases free : tbl.slotOf entry.1 with
    | none =>
      refine ⟨entry :: taken, among.cons_cons entry, ?_⟩
      rw [foldl_cons, slots]
      simp [absorb, free]
    | some slot =>
      refine ⟨taken, among.cons entry, ?_⟩
      rw [foldl_cons, slots]
      simp [absorb, free]

theorem Fresh.foldl_absorb (ents : List (κ × ν)) (h : Fresh m tbl)
    (room : tbl.slots.length + ents.length ≤ m) :
    Fresh m (ents.foldl (SlotTable.absorb m) tbl) ∧
      ∀ key, (ents.foldl (SlotTable.absorb m) tbl).versions m key =
        if tbl.versions m key = [] then (ents.filterMap (valueFor key)).head?.toList
        else tbl.versions m key := by
  induction ents generalizing tbl with
  | nil =>
    refine ⟨h, ?_⟩
    intro key
    split
    case isTrue none => exact none
    case isFalse => rfl
  | cons entry rest ih =>
    rw [length_cons] at room
    have one : tbl.slots.length < m := by omega
    have size := length_absorb (m := m) tbl entry
    obtain ⟨fresh, versions⟩ := ih (h.absorb one entry) (by omega)
    refine ⟨fresh, ?_⟩
    intro key
    rw [foldl_cons, versions key, h.absorb_versions one]
    cases held : tbl.versions m key with
    | cons val others => simp
    | nil =>
      cases here : valueFor key entry with
      | none | some => simp [here]

end SlotTable
end HoloSphere.Store
