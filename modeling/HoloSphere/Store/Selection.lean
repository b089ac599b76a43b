import Mathlib.Data.List.Sort
import Mathlib.Order.MinMax

/-! # The first items of a list

The first `count` items of a list, the smallest first.  They can be found by looking at the
items one at a time and keeping at most `count` of them, and an item may be passed over as soon
as `count` items are known that come before it.
-/

namespace HoloSphere.Store
open List hiding count
variable {ι : Type} [LinearOrder ι] {items : List ι}

def best (count : Nat) (items : List ι) : List ι := (items.insertionSort (· ≤ ·)).take count

@[simp] theorem best_nil (count : Nat) : best count ([] : List ι) = [] := by
  simp [best]

@[simp] theorem length_best : (best count items).length = min count items.length := by
  simp [best]

theorem pairwise_best (count : Nat) (items : List ι) : (best count items).Pairwise (· ≤ ·) :=
  (pairwise_insertionSort (· ≤ ·) items).sublist (take_sublist _ _)

theorem mem_of_mem_best (mem : item ∈ best count items) : item ∈ items :=
  (mem_insertionSort (· ≤ ·)).mp (mem_of_mem_take mem)

theorem nodup_map_best {β : Type} {f : ι → β} (uniq : (items.map f).Nodup) :
    ((best count items).map f).Nodup := by
  rw [← ((perm_insertionSort (· ≤ ·) items).map f).nodup_iff] at uniq
  exact ((take_sublist _ _).map f).nodup uniq

theorem le_of_best_cons (selected : best count items = fst :: rest) (mem : item ∈ items) :
    fst ≤ item := by
  have sorted := pairwise_insertionSort (· ≤ ·) items
  rw [← mem_insertionSort (· ≤ ·)] at mem
  unfold best at selected
  cases ranked : items.insertionSort (· ≤ ·) with
  | nil => simp [ranked] at mem
  | cons least others =>
    rw [ranked] at selected sorted mem
    cases count with
    | zero => cases selected
    | succ count =>
      cases selected
      rcases mem_cons.mp mem with rfl | later
      · exact le_rfl
      · exact (pairwise_cons.mp sorted).1 item later

theorem best_perm (same : items.Perm others) : best count items = best count others := by
  have sorted : items.insertionSort (· ≤ ·) = others.insertionSort (· ≤ ·) := by
    apply Perm.eq_of_pairwise' (pairwise_insertionSort _ _) (pairwise_insertionSort _ _)
    exact (perm_insertionSort _ _).trans (same.trans (perm_insertionSort _ _).symm)
  rw [best, best, sorted]

theorem best_of_length_le (few : items.length ≤ count) :
    best count items = items.insertionSort (· ≤ ·) :=
  take_of_length_le (by simpa using few)

theorem take_orderedInsert_take : ((items.take count).orderedInsert (· ≤ ·) item).take count =
      (items.orderedInsert (· ≤ ·) item).take count := by
  induction items generalizing count with
  | nil => simp
  | cons fst rest ih =>
    cases count with
    | zero => simp
    | succ count =>
      by_cases pre : item ≤ fst
      · cases count with
        | zero => simp [pre]
        | succ count => simp [pre, take_take]
      · simp [pre, ih]

/-- What is best with one more item is found among what was best without it. -/
theorem best_cons : best count (item :: items) =
      ((best count items).orderedInsert (· ≤ ·) item).take count := by
  simp [best, take_orderedInsert_take]

theorem orderedInsert_of_forall_lt (later : ∀ other ∈ items, other < item) :
    items.orderedInsert (· ≤ ·) item = items ++ [item] := by
  induction items with
  | nil => rfl
  | cons fst rest ih =>
    have after : ¬ item ≤ fst := not_le.mpr (later fst mem_cons_self)
    have rest := ih (forall_mem_cons.mp later).2
    simp [after, rest]

theorem orderedInsert_concat (pre : item ≤ last) : (items ++ [last]).orderedInsert (· ≤ ·) item =
      items.orderedInsert (· ≤ ·) item ++ [last] := by
  induction items with
  | nil => simp [pre]
  | cons fst rest ih =>
    by_cases early : item ≤ fst
    · simp [early]
    · simp [early, ih]

/-- Items are passed over if none of those kept would make room for them. -/
theorem best_append_of_later (full : (best count items).length = count)
    (later : ∀ kept ∈ best count items, ∀ other ∈ others, kept < other) :
    best count (others ++ items) = best count items := by
  induction others with
  | nil => rfl
  | cons other others ih =>
    have rest := ih fun kept mem passed among =>
      later kept mem passed (mem_cons_of_mem _ among)
    have fst : ∀ kept ∈ best count items, kept < other :=
      fun kept mem => later kept mem other mem_cons_self
    rw [cons_append, best_cons, rest, orderedInsert_of_forall_lt fst,
      take_append_of_le_length full.ge, take_of_length_le full.le]

/-- The last of the items kept, if there are as many as may be kept, decides about the next. -/
theorem best_cons_of_full (selected : best count items = kept ++ [last])
    (full : kept.length + 1 = count) :
    best count (item :: items) =
      if item < last then kept.orderedInsert (· ≤ ·) item else kept ++ [last] := by
  have sorted := pairwise_best count items
  rw [selected] at sorted
  have below : ∀ other ∈ kept, other ≤ last :=
    fun other mem => (pairwise_append.mp sorted).2.2 other mem last mem_cons_self
  rw [best_cons, selected]
  rcases lt_trichotomy item last with pre | same | after
  · rw [if_pos pre, orderedInsert_concat pre.le]
    apply take_left'
    simp [orderedInsert_length, full]
  · rw [if_neg same.not_lt, same, orderedInsert_concat le_rfl, take_left']
    · apply Perm.eq_of_pairwise' _ sorted
      · exact (perm_orderedInsert _ last kept).trans (perm_append_singleton last kept).symm
      · exact (pairwise_append.mp sorted).1.orderedInsert last kept
    · simp [orderedInsert_length, full]
  · have all : ∀ other ∈ kept ++ [last], other < item := by
      intro other mem
      rcases mem_append.mp mem with early | final
      · exact (below other early).trans_lt after
      · exact (mem_singleton.mp final) ▸ after
    rw [if_neg after.not_gt, orderedInsert_of_forall_lt all]
    exact take_left' (by simp [full])

/-- Once there are as many items as may be kept, the kept ones only get better. -/
theorem exists_le_of_mem_best_cons (full : (best count items).length = count)
    (mem : other ∈ best count (item :: items)) : ∃ kept ∈ best count items, other ≤ kept := by
  rcases eq_nil_or_concat' (best count items) with none | ⟨kept, last, selected⟩
  · rw [none] at full
    simp [best, ← full] at mem
  · rw [selected] at full ⊢
    rw [best_cons_of_full selected (by simpa using full)] at mem
    split at mem
    · rename_i pre
      rcases (mem_orderedInsert _).mp mem with rfl | among
      · exact ⟨last, by simp, pre.le⟩
      · exact ⟨other, by simp [among], le_rfl⟩
    · exact ⟨other, mem, le_rfl⟩

section
variable {related : ι → ι → Prop}

omit [LinearOrder ι] in
theorem forall₂_of_forall {left right : List ι} (lengths : left.length = right.length)
    (all : ∀ fst ∈ left, ∀ snd ∈ right, related fst snd) :
    Forall₂ related left right :=
  forall₂_iff_zip.mpr ⟨lengths, fun mem => all _ (of_mem_zip mem).1 _ (of_mem_zip mem).2⟩

/-- An item that is inserted stands before later ones, and pushes the last one out. -/
theorem forall₂_take_orderedInsert (sorted : items.Pairwise (· ≤ ·))
    (matched : Forall₂ related items kept)
    (worse : ∀ other, item ≤ other → ∀ partner ∈ kept, related other partner) :
    Forall₂ related ((items.orderedInsert (· ≤ ·) item).take kept.length) kept := by
  induction matched with
  | nil => exact .nil
  | @cons fst partner rest kept here matched ih =>
    obtain ⟨least, sorted⟩ := pairwise_cons.mp sorted
    by_cases pre : item ≤ fst
    · have later : ∀ other ∈ (fst :: rest).take kept.length, item ≤ other := by
        intro other mem
        rcases mem_cons.mp (mem_of_mem_take mem) with rfl | among
        · exact pre
        · exact pre.trans (least other among)
      simp only [orderedInsert_cons, pre, if_true, length_cons, take_succ_cons]
      refine .cons (worse item le_rfl partner mem_cons_self) (forall₂_of_forall ?_ ?_)
      · have lengths := matched.length_eq
        simp [lengths]
      · intro other mem snd among
        exact worse other (later other mem) snd (mem_cons_of_mem _ among)
    · simp only [orderedInsert_cons, pre, if_false, length_cons, take_succ_cons]
      refine .cons here (ih sorted fun other after snd among => ?_)
      exact worse other after snd (mem_cons_of_mem _ among)

/-- The best of a longer list, place by place, against the best of a part of it. -/
theorem forall₂_best_append (full : (best count items).length = count)
    (same : ∀ kept ∈ best count items, related kept kept)
    (worse : ∀ item ∈ others, ∀ other, item ≤ other → ∀ kept ∈ best count items,
      related other kept) :
    Forall₂ related (best count (others ++ items)) (best count items) := by
  induction others with
  | nil => exact forall₂_same.mpr same
  | cons item others ih =>
    have matched := ih (forall_mem_cons.mp worse).2
    have next := forall₂_take_orderedInsert (pairwise_best _ _) matched (worse item mem_cons_self)
    rw [full] at next
    rwa [cons_append, best_cons]

end
end HoloSphere.Store
