import HoloSphere.Graph.Analytics.Projection
import Mathlib.Data.Fintype.Card
import Mathlib.Order.Bounds.Basic

/-! # The k-core decomposition

`KCoreDecomposition::compute` removes the nodes of small degree, level by level.  A core is
taken as what it is for: a set of nodes in which every member has enough edges.
-/

namespace HoloSphere.Graph.Analytics
open Finset
variable (proj : GraphProjection n)

/-- The edges of `v`, out and in, whose other end is in the set. -/
def degreeIn (set : Finset (Fin n)) (v : Fin n) : Nat :=
  (proj.outNeighbors v).countP (· ∈ set) + (proj.inNeighbors v).countP (· ∈ set)

def Dense (set : Finset (Fin n)) (k : Nat) : Prop := ∀ v ∈ set, k ≤ degreeIn proj set v

/-- `k` is the largest number for which `v` is in a dense set. -/
def CoreNumber (v : Fin n) (k : Nat) : Prop := IsGreatest {k | ∃ set, v ∈ set ∧ Dense proj set k} k

theorem degreeIn_mono {set larger : Finset (Fin n)} (sub : set ⊆ larger) :
    degreeIn proj set v ≤ degreeIn proj larger v := by
  have count : ∀ list : List (Fin n), list.countP (· ∈ set) ≤ list.countP (· ∈ larger) :=
    fun list => List.countP_mono_left fun w _ mem => by simpa using sub (by simpa using mem)
  exact Nat.add_le_add (count _) (count _)

variable {set : Finset (Fin n)} {v : Fin n}

theorem countP_erase (mem : v ∈ set) (list : List (Fin n)) :
    list.countP (· ∈ set.erase v) = list.countP (· ∈ set) - list.count v := by
  have split : list.countP (· ∈ set.erase v) + list.count v = list.countP (· ∈ set) := by
    induction list with
    | nil => rfl
    | cons w list ih =>
      rw [List.countP_cons, List.countP_cons, List.count_cons, ← ih]
      by_cases same : w = v
      · simp [same, mem]
        omega
      · simp [same]
        omega
  omega

theorem count_le_countP (mem : v ∈ set)
    (list : List (Fin n)) : list.count v ≤ list.countP (· ∈ set) :=
  List.countP_mono_left fun w _ same => by simpa [beq_iff_eq.mp same] using mem

theorem degreeIn_erase (mem : v ∈ set) (w : Fin n) :
    degreeIn proj (set.erase v) w = degreeIn proj set w -
      (proj.outNeighbors v).count w - (proj.inNeighbors v).count w := by
  have out := count_le_countP mem (proj.outNeighbors w)
  have back := count_le_countP mem (proj.inNeighbors w)
  simp only [degreeIn, countP_erase mem, proj.transpose v w, ← proj.transpose w v]
  omega

section

structure Peeling (n : Nat) where
  deg : Fin n → Nat
  coreness : Fin n → Nat
  /-- The nodes marked in `removed`. -/
  removed : Finset (Fin n)

/-- The loop over the neighbours of a removed node. -/
def reduce (removed : Finset (Fin n)) (deg : Fin n → Nat) (neighbours : List (Fin n)) :
    Fin n → Nat :=
  neighbours.foldl
    (fun deg nb => if nb ∉ removed then Function.update deg nb (deg nb - 1) else deg) deg

theorem reduce_apply (deg : Fin n → Nat) (live : v ∉ removed) :
    reduce removed deg neighbours v = deg v - neighbours.count v := by
  unfold reduce
  induction neighbours generalizing deg with
  | nil => simp
  | cons nb neighbours ih =>
    rw [List.foldl_cons, ih]
    by_cases same : nb = v
    · subst same
      simp [live]
      omega
    · split <;> simp [Function.update_of_ne (Ne.symm same), same]

variable (k : Nat)

def remove (st : Peeling n) (v : Fin n) : Peeling n :=
  let removed := insert v st.removed
  { deg := reduce removed (reduce removed st.deg (proj.outNeighbors v))
      (proj.inNeighbors v)
    coreness := Function.update st.coreness v k
    removed }

/-- One round of the inner loop, with the flag `changed`. -/
def visit (st : Peeling n × Bool) (v : Fin n) : Peeling n × Bool :=
  if v ∉ st.1.removed ∧ st.1.deg v ≤ k then (remove proj k st.1 v, true)
  else st

def sweep (st : Peeling n) : Peeling n × Bool := (List.finRange n).foldl (visit proj k) (st, false)

/-- What holds along removals holds after a sweep. -/
theorem sweep_rule {motive : Peeling n → Prop}
    (step : ∀ st v, motive st → v ∉ st.removed → st.deg v ≤ k →
      motive (remove proj k st v)) (start : motive st) :
    motive (sweep proj k st).1 := by
  refine List.foldlRecOn (motive := fun st : Peeling n × Bool => motive st.1) _ _ start ?_
  intro pre holds v _
  unfold visit
  split
  · next guard => exact step _ v holds guard.1 guard.2
  · exact holds

theorem sweep_cases : ((sweep proj k st).2 = true ∧
        st.removed.card < (sweep proj k st).1.removed.card) ∨
      (sweep proj k st = (st, false) ∧ ∀ v ∉ st.removed, k < st.deg v) := by
  have run : ∀ (vs : List (Fin n)) (st : Peeling n) (changed : Bool),
      let after := vs.foldl (visit proj k) (st, changed)
      (after.2 = true ∧ st.removed.card < after.1.removed.card) ∨
        (after = (st, changed) ∧ ∀ v ∈ vs, v ∉ st.removed → k < st.deg v) := by
    intro vs
    induction vs with
    | nil => exact fun st changed => .inr ⟨rfl, by simp⟩
    | cons v vs ih =>
      intro st changed
      simp only [List.foldl_cons, visit]
      split
      · next guard =>
          have more : st.removed.card < (remove proj k st v).removed.card := by
            simp [remove, guard.1]
          left
          rcases ih (remove proj k st v) true with ⟨changes, larger⟩ | ⟨same, -⟩
          · exact ⟨changes, more.trans larger⟩
          · rw [same]
            exact ⟨rfl, more⟩
      · next guard =>
          rcases ih st changed with grown | ⟨same, rest⟩
          · exact .inl grown
          · refine .inr ⟨same, List.forall_mem_cons.mpr ⟨fun live => ?_, rest⟩⟩
            exact not_le.mp fun le => guard ⟨live, le⟩
  simpa [sweep] using run (List.finRange n) st false

theorem removed_lt {st after : Peeling n} (more : st.removed.card < after.removed.card) :
    n - after.removed.card < n - st.removed.card := by
  have all := after.removed.card_le_univ
  rw [Fintype.card_fin] at all
  omega

def peel (st : Peeling n) : Peeling n :=
  let swept := sweep proj k st
  if swept.2 then peel swept.1 else swept.1
termination_by n - st.removed.card
decreasing_by
  rcases sweep_cases proj k with ⟨-, more⟩ | ⟨same, -⟩
  · exact removed_lt more
  · have changed : (sweep proj k st).2 = true := ‹_›
    simp [same] at changed

theorem peel_rule {motive : Peeling n → Prop}
    (step : ∀ st v, motive st → v ∉ st.removed → st.deg v ≤ k →
      motive (remove proj k st v)) (start : motive st) :
    motive (peel proj k st) ∧ ∀ v ∉ (peel proj k st).removed, k < (peel proj k st).deg v := by
  fun_induction peel proj k st with
  | case1 st swept changed ih => exact ih (sweep_rule proj k step start)
  | case2 st swept unchanged =>
    rcases sweep_cases proj k with ⟨changed, -⟩ | ⟨same, above⟩
    · exact absurd changed unchanged
    · simp only [swept, same]
      exact ⟨start, above⟩

theorem peel_removes {st : Peeling n} (live : v ∉ st.removed) (low : st.deg v ≤ k) :
    st.removed.card < (peel proj k st).removed.card := by
  rcases sweep_cases proj k with ⟨changed, more⟩ | ⟨-, above⟩
  · rw [peel, if_pos changed]
    refine more.trans_le (peel_rule proj k
      (motive := fun after => (sweep proj k st).1.removed.card ≤ after.removed.card)
      (fun pre w grown _ _ => ?_) le_rfl).1
    exact grown.trans (card_le_card (subset_insert _ _))
  · exact absurd (above v live) (not_lt.mpr low)

def minDeg (st : Peeling n) : Nat :=
  (((List.finRange n).filter (· ∉ st.removed)).map st.deg).min?.getD 0

theorem minDeg_spec {st : Peeling n} (rem : st.removed.card < n) :
    (∃ v ∉ st.removed, st.deg v = minDeg st) ∧ ∀ v ∉ st.removed, minDeg st ≤ st.deg v := by
  unfold minDeg
  cases least : (((List.finRange n).filter (· ∉ st.removed)).map st.deg).min? with
  | none =>
    have all : st.removed = univ := by
      simpa [eq_univ_iff_forall] using least
    simp [all] at rem
  | some value =>
    rw [List.min?_eq_some_iff] at least
    simpa using least

/-- The outer loop; `remaining` counts the nodes that are not removed.  The increment of `k`
    panics where it overflows. -/
def levels (k : Nat) (st : Peeling n) : Option (Peeling n) :=
  if h : st.removed.card < n then
    let level := max k (minDeg st)
    if level + 1 < 2 ^ 32 then levels (level + 1) (peel proj level st) else none
  else some st
termination_by n - st.removed.card
decreasing_by
  obtain ⟨v, live, least⟩ := (minDeg_spec h).1
  exact removed_lt (peel_removes proj _ live (least ▸ le_max_right _ _))

structure KCoreDecomposition (n : Nat) where
  coreness : Fin n → Nat
  maxCoreness : Nat

/-- The degrees are cast to `u32`. -/
def start : Peeling n where
  deg v := ((proj.outNeighbors v).length + (proj.inNeighbors v).length) % 2 ^ 32
  coreness _ := 0
  removed := ∅

/-- The degrees of `0..n as NodeIndex` are collected, and the first level reads one for every
    node. -/
def KCoreDecomposition.compute : Option (KCoreDecomposition n) :=
  if (indices n).length < n then none
  else
    (levels proj 0 (start proj)).map fun st =>
      ⟨st.coreness, ((List.finRange n).map st.coreness).max?.getD 0⟩

end

section
variable {proj}

/-- The degrees are those among the remaining nodes, and the removed nodes are settled. -/
structure Sound (proj : GraphProjection n) (st : Peeling n) : Prop where
  degrees : ∀ v ∉ st.removed, st.deg v = degreeIn proj st.removedᶜ v
  settled : ∀ v ∈ st.removed, CoreNumber proj v (st.coreness v)

/-- While nodes of degree `k` are removed: no set of a larger density has lost a node, and each
    node that remains is in one of density `k`. -/
structure AtLevel (proj : GraphProjection n) (k : Nat) (st : Peeling n) : Prop
    extends Sound proj st where
  kept : ∀ set j, Dense proj set j → k < j → ∀ v ∈ set, v ∉ st.removed
  dense : ∀ v ∉ st.removed, ∃ set, v ∈ set ∧ Dense proj set k

theorem AtLevel.lt_deg (h : AtLevel proj k st) {set : Finset (Fin n)} {j : Nat}
    (dense : Dense proj set j) (above : k < j) {v : Fin n} (mem : v ∈ set) :
    k < st.deg v := by
  have stays := h.kept set j dense above
  have hin : set ⊆ st.removedᶜ := fun w mem => by simpa using stays w mem
  rw [h.degrees v (stays v mem)]
  exact above.trans_le ((dense v mem).trans (degreeIn_mono proj hin))

theorem AtLevel.remove (h : AtLevel proj k st) (live : v ∉ st.removed)
    (low : st.deg v ≤ k) : AtLevel proj k (remove proj k st v) where
  degrees w stays := by
    have others : w ∉ insert v st.removed := stays
    have pre : w ∉ st.removed := fun gone => others (mem_insert_of_mem gone)
    simp only [Analytics.remove, reduce_apply _ others, h.degrees w pre, compl_insert]
    rw [degreeIn_erase _ (by simpa using live)]
  settled w gone := by
    by_cases same : w = v
    · subst same
      simp only [Analytics.remove, Function.update_self]
      refine ⟨h.dense w live, fun j ⟨set, mem, dense⟩ => not_lt.mp fun above => ?_⟩
      exact absurd (h.lt_deg dense above mem) (not_lt.mpr low)
    · have pre : w ∈ st.removed := by simpa [Analytics.remove, same] using gone
      simpa [Analytics.remove, same] using h.settled w pre
  kept set j dense above w mem := by
    have stays := h.kept set j dense above w mem
    have differs : w ≠ v := by
      rintro rfl
      exact absurd (h.lt_deg dense above mem) (not_lt.mpr low)
    simp [Analytics.remove, differs, stays]
  dense w stays := h.dense w fun gone => stays (mem_insert_of_mem gone)

/-- Before a level at least `k`: every remaining node has degree `k`. -/
theorem AtLevel.of_sound (h : Sound proj st)
    (kept : ∀ set j, Dense proj set j → k ≤ j → ∀ v ∈ set, v ∉ st.removed)
    (above : ∀ v ∉ st.removed, k ≤ st.deg v) (rem : st.removed.card < n) :
    AtLevel proj (max k (minDeg st)) st where
  toSound := h
  kept set j dense large := kept set j dense (by omega)
  dense v live := by
    refine ⟨st.removedᶜ, by simpa using live, fun w mem => ?_⟩
    have stays : w ∉ st.removed := by simpa using mem
    rw [← h.degrees w stays]
    exact max_le (above w stays) ((minDeg_spec rem).2 w stays)

/-- No node is in a set of density `2 ^ 32 - 1`. -/
def Shallow (proj : GraphProjection n) : Prop :=
  ∀ set, Dense proj set (2 ^ 32 - 1) → ∀ v, v ∉ set

theorem AtLevel.small (h : AtLevel proj k st) (shallow : Shallow proj)
    (rem : st.removed.card < n) : k + 1 < 2 ^ 32 := by
  obtain ⟨v, live, -⟩ := (minDeg_spec rem).1
  obtain ⟨set, mem, dense⟩ := h.dense v live
  by_contra large
  exact shallow set (fun w hin => (by omega : 2 ^ 32 - 1 ≤ k).trans (dense w hin)) v mem

theorem levels_settled (shallow : Shallow proj) (h : Sound proj st)
    (kept : ∀ set j, Dense proj set j → k ≤ j → ∀ v ∈ set, v ∉ st.removed)
    (above : ∀ v ∉ st.removed, k ≤ st.deg v) :
    ∃ after, levels proj k st = some after ∧ ∀ v, CoreNumber proj v (after.coreness v) := by
  fun_induction levels proj k st with
  | case1 k st rem level room ih =>
    have start := AtLevel.of_sound h kept above rem
    obtain ⟨after, higher⟩ := peel_rule proj level
      (fun pre w holds live low => holds.remove live low) start
    exact ih after.toSound (fun set j dense large => after.kept set j dense large) higher
  | case2 k st rem level full =>
    exact absurd ((AtLevel.of_sound h kept above rem).small shallow rem) full
  | case3 k st full =>
    have all : st.removed = univ := by
      rw [← card_eq_iff_eq_univ, Fintype.card_fin]
      exact le_antisymm (by simpa using st.removed.card_le_univ) (not_lt.mp full)
    exact ⟨st, rfl, fun v => h.settled v (by simp [all])⟩

/-- A run that ends has given every node less than the last `u32`. -/
theorem coreness_small (small : ∀ v, st.coreness v + 1 < 2 ^ 32)
    (done : levels proj k st = some after) (v : Fin n) : after.coreness v + 1 < 2 ^ 32 := by
  fun_induction levels proj k st with
  | case1 k st rem level room ih =>
    refine ih (peel_rule proj level (motive := fun st => ∀ v, st.coreness v + 1 < 2 ^ 32)
      (fun pre w holds _ _ v => ?_) small).1 done
    by_cases same : v = w
    · simpa [Analytics.remove, same] using room
    · simpa [Analytics.remove, same] using holds v
  | case2 k st rem level full => cases done
  | case3 k st full =>
    cases done
    exact small v

open KCoreDecomposition

/-- Every node gets the largest density of a set that contains it. -/
def GivesCoreNumbers (proj : GraphProjection n) : Prop :=
  ∃ res, compute proj = some res ∧ ∀ v, CoreNumber proj v (res.coreness v)

theorem GivesCoreNumbers.small (h : GivesCoreNumbers proj) : n < 2 ^ 32 := by
  obtain ⟨res, computed, -⟩ := h
  unfold compute at computed
  split at computed
  · cases computed
  · exact of_not_not fun large => ‹¬ _› (length_indices_lt.mpr large)

theorem GivesCoreNumbers.shallow (h : GivesCoreNumbers proj) : Shallow proj := by
  obtain ⟨res, computed, cores⟩ := h
  unfold compute at computed
  split at computed
  · cases computed
  · obtain ⟨after, done, rfl⟩ := Option.map_eq_some_iff.mp computed
    intro set dense v mem
    have few := coreness_small (by simp [start]) done v
    have many := (cores v).2 ⟨set, mem, dense⟩
    dsimp only at many
    omega

/-- For every projection whose degrees fit in `u32`: the coreness of a node is the largest
    density of a set that contains it just if the nodes can be counted by a `u32` and no
    coreness is the last one. -/
theorem gives_core_numbers_iff (proj : GraphProjection n)
    (fits : ∀ v, (proj.outNeighbors v).length + (proj.inNeighbors v).length < 2 ^ 32) :
    GivesCoreNumbers proj ↔ n < 2 ^ 32 ∧ Shallow proj := by
  refine ⟨fun h => ⟨h.small, h.shallow⟩, fun ⟨small, shallow⟩ => ?_⟩
  have sound : Sound proj (start proj) := by
    refine ⟨fun v _ => ?_, by simp [start]⟩
    simpa [start, degreeIn, List.countP_eq_length.mpr] using fits v
  obtain ⟨after, done, settled⟩ := levels_settled shallow sound (by simp [start])
    fun v _ => Nat.zero_le _
  exact ⟨⟨after.coreness, _⟩, by
    rw [compute, if_neg (mt length_indices_lt.mp (not_not_intro small)), done]; rfl, settled⟩

/-- As many nodes as there are indices make it panic. -/
theorem indexless_nodes_have_no_coreness : compute (isolated (2 ^ 32)) = none ∧
    ¬ GivesCoreNumbers (isolated (2 ^ 32)) :=
  ⟨if_pos (length_indices_lt.mpr (lt_irrefl _)), fun h => lt_irrefl _ h.small⟩

/-- Two edges from the first of two nodes to the second. -/
def twoEdges : GraphProjection 2 where
  outNeighbors u := if u = 0 then [1, 1] else []
  inNeighbors v := if v = 1 then [0, 0] else []
  transpose := by decide
  indexed u v _ := ⟨u.isLt.trans (by decide), v.isLt.trans (by decide)⟩

theorem two_edges_make_a_core : GivesCoreNumbers twoEdges := by
  refine (gives_core_numbers_iff twoEdges (by decide)).mpr ⟨by decide, fun set dense v mem => ?_⟩
  have many := dense v mem
  have few := @degreeIn_mono _ twoEdges v _ _ (subset_univ set)
  have all : ∀ v, degreeIn twoEdges univ v ≤ 2 := by decide
  have two := all v
  omega

end
end HoloSphere.Graph.Analytics
