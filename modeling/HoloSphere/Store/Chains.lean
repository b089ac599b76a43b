import Mathlib.Data.List.Basic

/-! # Chains of pointers

Places that point to one another.  A chain from a place to the stop mark is the list of the
places on the way; a walk finds it, if it is given as many steps as the chain is long.
-/

namespace HoloSphere.Store

/-- Following the pointers leads over these places to the stop mark. -/
inductive Chain (pointer : Nat → Option Nat) (stop : Nat) : Nat → List Nat → Prop
  | stop : Chain pointer stop stop []
  | step {place next : Nat} {rest : List Nat} (apart : place ≠ stop)
      (points : pointer place = some next) (later : Chain pointer stop next rest) :
      Chain pointer stop place (place :: rest)

/-- The walk also ends at a place that is not there. -/
def walk (pointer : Nat → Option Nat) (stop : Nat) : Nat → Nat → Option (List Nat)
  | 0, _ => none
  | fuel + 1, place =>
    if place = stop then some []
    else
      match pointer place with
      | none => some []
      | some next => (walk pointer stop fuel next).map (place :: ·)

namespace Chain
variable {stop : Nat}

theorem walk_eq (chain : Chain pointer stop head places) (enough : places.length < fuel) :
    walk pointer stop fuel head = some places := by
  induction chain generalizing fuel with
  | stop =>
    cases fuel with
    | zero => cases enough
    | succ fuel => exact if_pos rfl
  | step apart points later ih =>
    cases fuel with
    | zero => cases enough
    | succ fuel =>
      rw [walk, if_neg apart, points]
      simp [ih (Nat.lt_of_succ_lt_succ enough)]

/-- Only the pointers on the way count. -/
theorem congr (chain : Chain pointer stop head places)
    (same : ∀ place ∈ places, other place = pointer place) : Chain other stop head places := by
  induction chain with
  | stop => exact .stop
  | step apart points later ih =>
    refine .step apart ((same _ List.mem_cons_self).trans points) (ih ?_)
    exact (List.forall_mem_cons.mp same).2

end Chain
end HoloSphere.Store
