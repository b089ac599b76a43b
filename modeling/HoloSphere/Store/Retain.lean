import Mathlib.Data.List.AList

/-! # Maps with entries changed or dropped -/

namespace HoloSphere.Store
variable {α β : Type}

theorem nodupKeys_filterMap (map : AList fun _ : α => β) (change : β → Option β) :
    (map.entries.filterMap fun entry => (change entry.2).map fun val =>
      (⟨entry.1, val⟩ : Sigma fun _ : α => β)).NodupKeys := by
  have kept := map.nodupKeys
  generalize map.entries = entries at kept
  rw [List.nodupKeys_iff_pairwise] at kept ⊢
  refine kept.filterMap _ ?_
  intro first second apart other held another left
  simp only [Option.map_eq_some_iff] at held left
  obtain ⟨_, -, rfl⟩ := held
  obtain ⟨_, -, rfl⟩ := left
  exact apart

/-- What is left of a map when each value is changed or dropped. -/
def retain (change : β → Option β) (map : AList fun _ : α => β) : AList fun _ : α => β :=
  ⟨map.entries.filterMap fun entry => (change entry.2).map fun val => ⟨entry.1, val⟩,
    nodupKeys_filterMap map change⟩

theorem lookup_retain [DecidableEq α] (change : β → Option β) (map : AList fun _ : α => β)
    (key : α) : (retain change map).lookup key = (map.lookup key).bind change := by
  ext val
  rw [← Option.mem_def, AList.mem_lookup_iff, Option.bind_eq_some_iff]
  constructor
  · intro mem
    obtain ⟨entry, held, kept⟩ := List.mem_filterMap.mp mem
    obtain ⟨after, done, same⟩ := Option.map_eq_some_iff.mp kept
    cases same
    exact ⟨entry.2, AList.mem_lookup_iff.mpr held, done⟩
  · rintro ⟨before, found, done⟩
    exact List.mem_filterMap.mpr ⟨_, AList.mem_lookup_iff.mp found, by rw [done]; rfl⟩

/-- Nothing is dropped exactly if every value that is looked up stays. -/
theorem length_le_retain [DecidableEq α] {change : β → Option β} {map : AList fun _ : α => β} :
    map.entries.length ≤ (retain change map).entries.length ↔
      ∀ key, ∀ val ∈ map.lookup key, (change val).isSome := by
  have shorter : (retain change map).entries.length ≤ map.entries.length :=
    List.length_filterMap_le _ _
  rw [← (Nat.le_antisymm_iff.trans (and_iff_right shorter)), retain,
    List.filterMap_length_eq_length]
  simp only [Option.isSome_map]
  exact ⟨fun kept key val found => kept _ (AList.mem_lookup_iff.mp found),
    fun kept entry mem => kept entry.1 entry.2 (AList.mem_lookup_iff.mpr mem)⟩

end HoloSphere.Store
