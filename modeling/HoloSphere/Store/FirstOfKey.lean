import HoloSphere.Store.Selection
import Mathlib.Data.List.Induction

/-! # The first item of each key

Items are sorted, and of the items that share a key only the first is kept.  The result
depends only on which items there are.  Taking the first few results from a part of the
items gives the right answer exactly if these results are in the part.
-/

namespace HoloSphere.Store
open List hiding count
variable {ι κ : Type} [LinearOrder ι] [DecidableEq κ] {key : ι → κ} {items : List ι}

omit [LinearOrder ι] in
/-- The items in their order, without those whose key has come before. -/
def keepFirst (key : ι → κ) (items : List ι) : List ι :=
  items.foldl (fun kept item => if key item ∈ kept.map key then kept else kept ++ [item]) []

def firstOfKey (key : ι → κ) (items : List ι) : List ι :=
  keepFirst key (items.insertionSort (· ≤ ·))

omit [LinearOrder ι] in
theorem keepFirst_concat (key : ι → κ) : keepFirst key (items ++ [item]) =
      if key item ∈ (keepFirst key items).map key then keepFirst key items
      else keepFirst key items ++ [item] := by
  simp [keepFirst, foldl_append]

/-- What is kept of a sorted list: the least item of each key. -/
structure Leads (key : ι → κ) (items kept : List ι) : Prop where
  ascending : kept.Pairwise (· < ·)
  distinct : (kept.map key).Nodup
  covers : ∀ item ∈ items, ∃ fst ∈ kept, key fst = key item
  mem_iff : ∀ item, item ∈ kept ↔
    item ∈ items ∧ ∀ other ∈ items, key other = key item → item ≤ other

omit [LinearOrder ι] in
theorem keepFirst_sublist (key : ι → κ) (items : List ι) : keepFirst key items <+ items := by
  induction items using reverseRecOn with
  | nil => exact .slnil
  | append_singleton items last ih =>
    rw [keepFirst_concat]
    split
    · exact ih.trans (sublist_append_left ..)
    · exact ih.append_right _

omit [LinearOrder ι] in
theorem nodup_keepFirst (key : ι → κ) (items : List ι) : ((keepFirst key items).map key).Nodup := by
  induction items using reverseRecOn with
  | nil => exact nodup_nil
  | append_singleton items last ih =>
    rw [keepFirst_concat]
    split
    · exact ih
    case isFalse fresh =>
      rw [map_append, map_singleton, ← concat_eq_append]
      exact ih.concat fresh

theorem covers_keepFirst (key : ι → κ) (sorted : items.Pairwise (· ≤ ·)) :
    ∀ item ∈ items, ∃ fst ∈ keepFirst key items, key fst = key item ∧ fst ≤ item := by
  induction items using reverseRecOn with
  | nil => simp
  | append_singleton items last ih =>
    obtain ⟨earlier, -, below⟩ := pairwise_append.mp sorted
    intro item mem
    rw [keepFirst_concat]
    rcases mem_append.mp mem with among | final
    · obtain ⟨fst, kept, leads⟩ := ih earlier item among
      refine ⟨fst, ?_, leads⟩
      split
      · exact kept
      · exact mem_append_left _ kept
    · cases mem_singleton.mp final
      split
      case isTrue seen =>
        obtain ⟨fst, kept, same⟩ := mem_map.mp seen
        exact ⟨fst, kept, same, below fst ((keepFirst_sublist ..).mem kept) last mem_cons_self⟩
      · exact ⟨last, by simp, rfl, le_rfl⟩

theorem leads_keepFirst (key : ι → κ) (sorted : items.Pairwise (· ≤ ·)) :
    Leads key items (keepFirst key items) := by
  have part := keepFirst_sublist key items
  have uniq := nodup_keepFirst key items
  have covers := covers_keepFirst key sorted
  refine ⟨?_, uniq, fun item mem => ?_, fun item => ⟨fun kept => ?_, ?_⟩⟩
  · exact ((sorted.sublist part).and uniq.of_map).imp fun both => lt_of_le_of_ne both.1 both.2
  · obtain ⟨fst, kept, same, -⟩ := covers item mem
    exact ⟨fst, kept, same⟩
  · refine ⟨part.mem kept, fun other among same => ?_⟩
    obtain ⟨fst, first, equal, le⟩ := covers other among
    rwa [← inj_on_of_nodup_map uniq first kept (equal.trans same)]
  · rintro ⟨mem, least⟩
    obtain ⟨fst, kept, same, le⟩ := covers item mem
    rwa [le_antisymm (least fst (part.mem kept) same) le]

theorem leads_firstOfKey (key : ι → κ) (items : List ι) :
    Leads key items (firstOfKey key items) := by
  obtain ⟨ascending, uniq, covers, mem_iff⟩ :=
    leads_keepFirst key (pairwise_insertionSort (· ≤ ·) items)
  simp only [mem_insertionSort] at covers mem_iff
  exact ⟨ascending, uniq, covers, mem_iff⟩

theorem firstOfKey_congr (same : ∀ item, item ∈ items ↔ item ∈ others) :
    firstOfKey key items = firstOfKey key others := by
  have fst := leads_firstOfKey key items
  have snd := leads_firstOfKey key others
  refine fst.ascending.eq_of_mem_iff snd.ascending fun item => ?_
  rw [fst.mem_iff, snd.mem_iff]
  simp [same]

/-- A list that splits in two ascending parts has the first part at its beginning. -/
theorem take_of_leading {ranked few : List ι} (ascending : ranked.Pairwise (· < ·))
    (leading : few.Pairwise (· < ·)) (among : ∀ item ∈ few, item ∈ ranked)
    (later : ∀ item ∈ ranked, item ∉ few → ∀ other ∈ few, other < item) :
    ranked.take few.length = few := by
  have split : ranked = few ++ ranked.filter (· ∉ few) := by
    refine ascending.eq_of_mem_iff ?_ fun item => ?_
    · refine pairwise_append.mpr ⟨leading, ascending.sublist filter_sublist, ?_⟩
      intro other mem item outside
      obtain ⟨hin, missing⟩ := mem_filter.mp outside
      exact later item hin (by simpa using missing) other mem
    · by_cases mem : item ∈ few
      · simp [mem, among item mem]
      · simp [mem]
  rw [split]
  exact take_left

/-- The first results of a part of the items are those of all exactly if the part has them. -/
theorem take_firstOfKey_eq_iff (part : others ⊆ items) :
    (firstOfKey key others).take count = (firstOfKey key items).take count ↔
      ∀ item ∈ (firstOfKey key items).take count, item ∈ others := by
  have all := leads_firstOfKey key items
  have some := leads_firstOfKey key others
  constructor
  · intro same item mem
    rw [← same] at mem
    exact ((some.mem_iff item).mp (mem_of_mem_take mem)).1
  · intro held
    -- the wanted results lead the items of the part as well
    have wanted : ∀ item ∈ (firstOfKey key items).take count, item ∈ firstOfKey key others := by
      intro item mem
      obtain ⟨-, least⟩ := (all.mem_iff item).mp (mem_of_mem_take mem)
      exact (some.mem_iff item).mpr ⟨held item mem, fun other among => least other (part among)⟩
    have leading : ((firstOfKey key items).take count).Pairwise (· < ·) :=
      all.ascending.sublist (take_sublist _ _)
    have later : ∀ item ∈ firstOfKey key others, item ∉ (firstOfKey key items).take count →
        ∀ other ∈ (firstOfKey key items).take count, other < item := by
      intro item mem outside other taken
      have hin := part ((some.mem_iff item).mp mem).1
      obtain ⟨fst, leads, same⟩ := all.covers item hin
      have below : fst ≤ item := ((all.mem_iff fst).mp leads).2 item hin same.symm
      have beyond : fst ∉ (firstOfKey key items).take count := by
        intro taken
        have equal := inj_on_of_nodup_map some.distinct (wanted fst taken) mem same
        rw [equal] at taken
        exact outside taken
      have order := all.ascending
      rw [← take_append_drop count (firstOfKey key items)] at leads order
      exact lt_of_lt_of_le ((pairwise_append.mp order).2.2 other taken fst
        ((mem_append.mp leads).resolve_left beyond)) below
    have begins := take_of_leading some.ascending leading wanted later
    have fewer : (firstOfKey key others).length ≤ (firstOfKey key items).length := by
      have keys : (firstOfKey key others).map key ⊆ (firstOfKey key items).map key := by
        rintro _ mem
        obtain ⟨item, kept, rfl⟩ := mem_map.mp mem
        exact mem_map.mpr (all.covers item (part ((some.mem_iff item).mp kept).1))
      simpa using (subperm_of_subset some.distinct keys).length_le
    rw [← begins, length_take, take_eq_take_iff]
    omega

theorem mem_take_iff_of_sorted {sorted : List ι} (order : sorted.Pairwise (· ≤ ·)) :
    item ∈ sorted.take count ↔ item ∈ sorted ∧ (sorted.filter (· < item)).length < count := by
  induction sorted generalizing count with
  | nil => simp
  | cons fst rest ih =>
    obtain ⟨least, order⟩ := pairwise_cons.mp order
    cases count with
    | zero => simp
    | succ count =>
      rw [take_succ_cons, mem_cons, mem_cons, ih order, filter_cons]
      by_cases pre : fst < item
      · have apart : item ≠ fst := pre.ne'
        simp [pre, apart]
      · have none : rest.filter (· < item) = [] := by
          rw [filter_eq_nil_iff]
          intro other mem
          simpa using le_trans (not_lt.mp pre) (least other mem)
        have early : item ∈ rest → item = fst := fun mem =>
          le_antisymm (not_lt.mp pre) (least item mem)
        simp only [pre, none, decide_false, Bool.false_eq_true, if_false, length_nil,
          Nat.succ_pos, and_true]
        exact ⟨Or.imp_right And.left, fun among => .inl (among.elim id early)⟩

theorem mem_best_iff :
    item ∈ best count items ↔ item ∈ items ∧ (items.filter (· < item)).length < count := by
  have counted : ((items.insertionSort (· ≤ ·)).filter (· < item)).length =
      (items.filter (· < item)).length :=
    ((perm_insertionSort (· ≤ ·) items).filter _).length_eq
  rw [best, mem_take_iff_of_sorted (pairwise_insertionSort (· ≤ ·) items), counted,
    mem_insertionSort]

end HoloSphere.Store
