import Mathlib.Data.List.Basic

/-! # Machines of guarded actions

A machine answers an action with its next state, or with nothing if the action is not
possible now.  A condition on actions, asked in the state before each of them, selects
the runs that a statement is about.
-/

namespace HoloSphere.Program
variable {σ α : Type} {allowed : σ → α → Prop} {holds : σ → Prop} {legal : α → Prop}

/-- The actions meet the condition one after the other, as far as they are possible. -/
def Throughout (act : σ → α → Option σ) (allowed : σ → α → Prop) : σ → List α → Prop
  | _, [] => True
  | state, action :: rest =>
    ∀ next, act state action = some next → allowed state action ∧ Throughout act allowed next rest

theorem Throughout.cons (done : act start action = some next) (now : allowed start action)
    (later : Throughout act allowed next rest) : Throughout act allowed start (action :: rest) := by
  intro other again
  rw [done] at again
  cases again
  exact ⟨now, later⟩

/-- The property holds in every state on the way. -/
def Always (act : σ → α → Option σ) (holds : σ → Prop) (start : σ) (actions : List α) : Prop :=
  ∀ count state, (actions.take count).foldlM act start = some state → holds state

theorem always_nil : Always act holds start [] ↔ holds start := by
  simp [Always]

theorem always_cons : Always act holds start (action :: rest) ↔
      holds start ∧ ∀ next, act start action = some next → Always act holds next rest := by
  constructor
  · intro always
    refine ⟨always 0 start rfl, fun next done count state ran => ?_⟩
    apply always (count + 1) state
    rw [List.take_succ_cons, List.foldlM_cons, done]
    exact ran
  · rintro ⟨initially, later⟩ count state ran
    cases count with
    | zero =>
      cases ran
      exact initially
    | succ count =>
      obtain ⟨next, done, rest⟩ := Option.bind_eq_some_iff.mp ran
      exact later next done count state rest

/-- A property that every step keeps holds along the run. -/
theorem Throughout.always (permitted : Throughout act allowed start actions)
    (initially : holds start)
    (kept : ∀ state action next, holds state → allowed state action →
      act state action = some next → holds next) : Always act holds start actions := by
  induction actions generalizing start with
  | nil => exact always_nil.mpr initially
  | cons action rest ih =>
    rw [always_cons]
    refine ⟨initially, fun next done => ?_⟩
    obtain ⟨now, later⟩ := permitted next done
    exact ih later (kept start action next initially now done)

theorem Always.of_step (initially : holds start)
    (kept : ∀ state action next, holds state → act state action = some next → holds next) :
    Always act holds start actions := by
  induction actions generalizing start with
  | nil => exact always_nil.mpr initially
  | cons action rest ih =>
    exact always_cons.mpr ⟨initially, fun next done => ih (kept start action next initially done)⟩

/-- If the condition is what one step needs, it is what the whole run needs. -/
theorem always_iff_throughout (invariant : σ → Prop)
    (exact : ∀ state action next, invariant state → holds state → legal action →
      act state action = some next → invariant next ∧ (holds next ↔ allowed state action))
    (lawful : ∀ action ∈ actions, legal action) (wellFormed : invariant start)
    (initially : holds start) :
    Always act holds start actions ↔ Throughout act allowed start actions := by
  induction actions generalizing start with
  | nil => exact iff_of_true (always_nil.mpr initially) trivial
  | cons action rest ih =>
    obtain ⟨fst, others⟩ := List.forall_mem_cons.mp lawful
    rw [always_cons]
    constructor
    · rintro ⟨-, later⟩ next done
      obtain ⟨kept, needs⟩ := exact start action next wellFormed initially fst done
      have after : holds next := later next done 0 next rfl
      exact ⟨needs.mp after, (ih others kept after).mp (later next done)⟩
    · intro permitted
      refine ⟨initially, fun next done => ?_⟩
      obtain ⟨now, later⟩ := permitted next done
      obtain ⟨kept, needs⟩ := exact start action next wellFormed initially fst done
      exact (ih others kept (needs.mpr now)).mpr later

end HoloSphere.Program
