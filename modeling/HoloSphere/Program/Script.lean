import Mathlib.Data.List.Basic

/-! # Scripts of fallible steps

A script is a list of steps performed one after the other on a state.  A step
answers with a value or a failure and says in both cases which state it leaves.
A script stops at the first failure and keeps what was done before it.
-/

namespace HoloSphere.Program
variable {σ ι κ ε : Type} (perform : ι → σ → σ × Except ε Unit)

def run : List ι → σ → σ × Except ε Unit
  | [], st => (st, .ok ())
  | step :: rest, st =>
    match perform step st with
    | (next, .ok ()) => run rest next
    | (next, .error e) => (next, .error e)

def Completes (script : List ι) (st : σ) : Prop := (run perform script st).2 = .ok ()

variable {perform}

@[simp] theorem run_nil (st : σ) : run perform [] st = (st, .ok ()) := rfl

theorem run_cons_ok (performed : (perform step st).2 = .ok ()) :
    run perform (step :: rest) st = run perform rest (perform step st).1 := by
  generalize outc : perform step st = ans at performed ⊢
  obtain ⟨next, res⟩ := ans
  simp only at performed
  simp [run, outc, performed]

theorem run_cons_error (failed : (perform step st).2 = .error e) :
    run perform (step :: rest) st = perform step st := by
  generalize outc : perform step st = ans at failed ⊢
  obtain ⟨next, res⟩ := ans
  simp only at failed
  simp [run, outc, failed]

theorem run_singleton : run perform [step] st = perform step st := by
  cases performed : (perform step st).2 with
  | ok =>
    rw [run_cons_ok performed, run_nil, ← performed]
  | error e => exact run_cons_error performed

theorem completes_cons : Completes perform (step :: rest) st ↔
      (perform step st).2 = .ok () ∧ Completes perform rest (perform step st).1 := by
  cases performed : (perform step st).2 with
  | ok => simp [Completes, run_cons_ok performed]
  | error e => simp [Completes, run_cons_error performed, performed]

theorem run_append (front rest : List ι) (st : σ) :
    run perform (front ++ rest) st = match run perform front st with
      | (mid, .ok ()) => run perform rest mid
      | (mid, .error e) => (mid, .error e) := by
  induction front generalizing st with
  | nil => rfl
  | cons step front ih =>
    rw [List.cons_append, run, run]
    rcases perform step st with ⟨next, e | _⟩
    · rfl
    · exact ih next

/-- A script that fails does so at one of its steps, after all the steps before it. -/
theorem run_error_split (failed : (run perform script st).2 = .error e) :
    ∃ front step back, script = front ++ step :: back ∧ Completes perform front st ∧
      (perform step (run perform front st).1).2 = .error e := by
  induction script generalizing st with
  | nil => cases failed
  | cons step rest ih =>
    cases performed : (perform step st).2 with
    | ok =>
      rw [run_cons_ok performed] at failed
      obtain ⟨front, culprit, back, rfl, done, stopped⟩ := ih failed
      refine ⟨step :: front, culprit, back, rfl, ?_, ?_⟩
      · rw [Completes, run_cons_ok performed]
        exact done
      · rw [run_cons_ok performed]
        exact stopped
    | error found =>
      rw [run_cons_error performed, performed] at failed
      cases failed
      exact ⟨[], step, rest, rfl, rfl, performed⟩

/-- What a failed script leaves is what its failing step leaves. -/
theorem run_of_split (done : Completes perform front st)
    (stopped : (perform step (run perform front st).1).2 = .error e) :
    run perform (front ++ step :: back) st = perform step (run perform front st).1 := by
  rw [run_append]
  rcases reached : run perform front st with ⟨mid, e | _⟩
  · cases (congrArg Prod.snd reached).symm.trans done
  · rw [reached] at stopped
    exact run_cons_error stopped

theorem run_map {items : List α} {f : α → ι} {g : α → κ} {other : κ → σ → σ × Except ε Unit}
    (same : ∀ item ∈ items, ∀ st, perform (f item) st = other (g item) st) (st : σ) :
    run perform (items.map f) st = run other (items.map g) st := by
  induction items generalizing st with
  | nil => rfl
  | cons item rest ih =>
    rw [List.map_cons, List.map_cons, run, run, same item List.mem_cons_self]
    rcases other (g item) st with ⟨next, e | _⟩
    · rfl
    · exact ih (List.forall_mem_cons.mp same).2 next

/-- A step that is itself a script may be written out in its place. -/
theorem run_flatMap (refines : ∀ step st, perform step st = run fine (parts step) st)
    (script : List ι) (st : σ) :
    run perform script st = run fine (script.flatMap parts) st := by
  induction script generalizing st with
  | nil => rfl
  | cons step rest ih =>
    rw [List.flatMap_cons, run_append, ← refines, run]
    rcases perform step st with ⟨next, e | _⟩
    · rfl
    · exact ih next

/-- A property that every step keeps, performed or not, holds after the script. -/
theorem run_keeps {holds : σ → Prop}
    (keeps : ∀ step st, holds st → holds (perform step st).1) (script : List ι)
    (start : holds st) : holds (run perform script st).1 := by
  induction script generalizing st with
  | nil => exact start
  | cons step rest ih =>
    cases performed : (perform step st).2 with
    | ok =>
      rw [run_cons_ok performed]
      exact ih (keeps step st start)
    | error e =>
      rw [run_cons_error performed]
      exact keeps step st start

end HoloSphere.Program
