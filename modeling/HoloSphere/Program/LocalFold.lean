import Mathlib.Data.List.Nodup

/-! # Loops of local updates

A loop over items with distinct keys, in which each item changes only what the state
holds under its own key.  What the loop leaves under a key is then what that one item
does to it, and everything else stays.
-/

namespace HoloSphere.Program
variable {σ ι κ ν : Type}

theorem foldl_keeps {view : σ → ν} (keeps : ∀ st item, view (step st item) = view st)
    (items : List ι) (st : σ) : view (items.foldl step st) = view st := by
  induction items generalizing st with
  | nil => rfl
  | cons item rest ih => exact (ih _).trans (keeps st item)

/-- Every prefix of a list of calls is good exactly if every call is allowed, where an
    allowed call keeps what makes a prefix good, and any other call ends it. -/
theorem forall_take_iff {calls : List ι} {allowed : ι → Prop} (holds good : List ι → Prop)
    (start : holds []) (sound : ∀ earlier, holds earlier → good earlier)
    (step : ∀ earlier, ∀ call ∈ calls, holds earlier → allowed call → holds (earlier ++ [call]))
    (needs : ∀ earlier call, holds earlier → good (earlier ++ [call]) → allowed call) :
    (∀ made, good (calls.take made)) ↔ ∀ call ∈ calls, allowed call := by
  have run (next : ∀ made (hin : made < calls.length), holds (calls.take made) →
      allowed calls[made]) (made : Nat) : holds (calls.take made) := by
    induction made with
    | zero => exact start
    | succ made ih =>
      by_cases hin : made < calls.length
      · rw [List.take_succ_eq_append_getElem hin]
        exact step _ _ (List.getElem_mem hin) ih (next made hin ih)
      · rw [List.take_of_length_le (by omega)] at ih ⊢
        exact ih
  constructor
  · intro always call mem
    obtain ⟨made, hin, rfl⟩ := List.getElem_of_mem mem
    have next (made : Nat) (hin : made < calls.length) (held : holds (calls.take made)) :=
      needs _ calls[made] held (List.take_succ_eq_append_getElem hin ▸ always (made + 1))
    exact next made hin (run next made)
  · exact fun all made => sound _ (run (fun made hin _ => all _ (List.getElem_mem hin)) made)

variable (view : σ → κ → ν) (key : ι → κ) (change : ι → ν → ν)

theorem foldl_elsewhere
    (there : ∀ st item other, other ≠ key item → view (step st item) other = view st other)
    {items : List ι} {other : κ} (absent : ∀ item ∈ items, other ≠ key item) (st : σ) :
    view (items.foldl step st) other = view st other := by
  induction items generalizing st with
  | nil => rfl
  | cons item rest ih =>
    have later := ih (List.forall_mem_cons.mp absent).2 (step st item)
    exact later.trans (there st item other (absent item List.mem_cons_self))

theorem foldl_local
    (here : ∀ st item, view (step st item) (key item) = change item (view st (key item)))
    (there : ∀ st item other, other ≠ key item → view (step st item) other = view st other)
    {items : List ι} (uniq : (items.map key).Nodup) (st : σ) (mem : item ∈ items) :
    view (items.foldl step st) (key item) = change item (view st (key item)) := by
  induction items generalizing st with
  | nil => cases mem
  | cons fst rest ih =>
    rw [List.map_cons, List.nodup_cons] at uniq
    obtain ⟨fresh, others⟩ := uniq
    rw [List.foldl_cons]
    rcases List.mem_cons.mp mem with rfl | later
    · have absent : ∀ next ∈ rest, key item ≠ key next := by
        intro next hin same
        apply fresh
        rw [same]
        exact List.mem_map_of_mem hin
      exact (foldl_elsewhere view key there absent _).trans (here st item)
    · have apart : key item ≠ key fst := by
        intro same
        apply fresh
        rw [← same]
        exact List.mem_map_of_mem later
      rw [ih others _ later, there st fst _ apart]

end HoloSphere.Program
