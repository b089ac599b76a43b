import HoloSphere.Graph.Query.LogicalPlan
import Mathlib.Data.Multiset.Bind

/-! # The optimiser of logical plans

`Optimizer::optimise` merges a filter into the scan below it and swaps neighbouring
expansions.  The estimate of the fan-out, which decides whether they are swapped, is a
parameter.
-/

namespace HoloSphere.Graph.Query
open Function List
variable {F C : Type} [LT C] [DecidableLT C]

def pushFiltersDown : LogicalPlan F → LogicalPlan F
  | .filter (.nodeScan binding label existing) preds =>
    .nodeScan binding label (existing ++ preds)
  | .filter input preds => .filter (pushFiltersDown input) preds
  | .expand input op => .expand (pushFiltersDown input) op
  | .optionalExpand input op => .optionalExpand (pushFiltersDown input) op
  | .limit input count => .limit (pushFiltersDown input) count
  | .project input bindings => .project (pushFiltersDown input) bindings
  | plan => plan

/-- `estimate_expand_fanout` with the statistics. -/
abbrev Fanout (C : Type) := Option RelTypeId → Direction → UInt8 → UInt8 → C

def Fanout.estimate (fanout : Fanout C) (op : ExpandOp) : C :=
  fanout op.relTypeFilter op.direction op.minHops op.maxHops

/-- The upper expansion is put over its input, and the two change places if neither needs the
    other and the upper one is cheaper. -/
def placeExpand (fanout : Fanout C) (upper : ExpandOp) : LogicalPlan F → LogicalPlan F
  | .expand input lower =>
    if (input.outputBindings.contains lower.srcBinding &&
        input.outputBindings.contains upper.srcBinding &&
        lower.dstBinding != upper.srcBinding && upper.dstBinding != lower.srcBinding &&
        lower.dstBinding != upper.dstBinding) = true ∧
        fanout.estimate upper < fanout.estimate lower then
      .expand (.expand input upper) lower
    else .expand (.expand input lower) upper
  | input => .expand input upper

def reorderExpands (fanout : Fanout C) : LogicalPlan F → LogicalPlan F
  | .expand input op => placeExpand fanout op (reorderExpands fanout input)
  | .optionalExpand input op => .optionalExpand (reorderExpands fanout input) op
  | .filter input preds => .filter (reorderExpands fanout input) preds
  | .limit input count => .limit (reorderExpands fanout input) count
  | .project input bindings => .project (reorderExpands fanout input) bindings
  | plan => plan

def recurseWithoutReorder : LogicalPlan F → LogicalPlan F
  | .expand input op => .expand (recurseWithoutReorder input) op
  | .optionalExpand input op => .optionalExpand (recurseWithoutReorder input) op
  | .filter input preds => .filter (recurseWithoutReorder input) preds
  | .limit input count => .limit (recurseWithoutReorder input) count
  | .project input bindings => .project (recurseWithoutReorder input) bindings
  | plan => plan

def reorderExpandsByCost (stats : Option (Fanout C)) (plan : LogicalPlan F) : LogicalPlan F :=
  match stats with
  | none => recurseWithoutReorder plan
  | some fanout => reorderExpands fanout plan

def optimise (plan : LogicalPlan F) (stats : Option (Fanout C)) : LogicalPlan F :=
  reorderExpandsByCost stats (pushFiltersDown plan)

section
variable {N E : Type} {graph : QueriedGraph F N E}

def LogicalPlan.bindings : LogicalPlan F → List SymbolId
  | .nodeScan binding _ _ | .vectorSeed binding _ => [binding]
  | .expand input op | .optionalExpand input op => input.bindings ++ op.added
  | .filter input _ | .project input _ | .limit input _ => input.bindings

def LogicalPlan.NoLimit : LogicalPlan F → Prop
  | .nodeScan _ _ _ | .vectorSeed _ _ => True
  | .expand input _ | .optionalExpand input _ | .filter input _ | .project input _ => input.NoLimit
  | .limit _ _ => False

theorem extend_congr (agree : symbol ∉ op.added → row symbol = other symbol) :
    extend op row rel dst symbol = extend op other rel dst symbol := by
  by_cases added : symbol ∈ op.added
  · unfold extend
    by_cases isDst : symbol = op.dstBinding
    · simp [isDst]
    · have isRel : op.relBinding = some symbol := by simpa [ExpandOp.added, isDst] using added
      simp [isRel, update_of_ne isDst]
  · rw [extend_other added, extend_other added, agree added]

theorem unbound_of_mem (mem : row ∈ rows graph plan) (fresh : symbol ∉ plan.bindings) :
    row symbol = none := by
  induction plan generalizing row with
  | nodeScan binding label preds =>
    obtain ⟨node, -, rfl⟩ := mem_map.mp (mem_of_mem_filter mem)
    exact update_of_ne (ne_of_not_mem_cons fresh) _ _
  | vectorSeed binding seed =>
    obtain ⟨node, -, rfl⟩ := mem_map.mp mem
    exact update_of_ne (ne_of_not_mem_cons fresh) _ _
  | filter input preds ih => exact ih (mem_of_mem_filter mem) fresh
  | limit input count ih => exact ih (mem_of_mem_take mem) fresh
  | project input bindings ih =>
    obtain ⟨pre, isRow, rfl⟩ := mem_map.mp mem
    simp [ih isRow fresh]
  | expand input op ih | optionalExpand input op ih =>
    obtain ⟨pre, isRow, isNext⟩ := mem_flatMap.mp mem
    obtain ⟨rel, dst, rfl⟩ := exists_extend (by first | exact .inl isNext | exact .inr isNext)
    simp only [LogicalPlan.bindings, mem_append, not_or] at fresh
    rw [extend_other fresh.2, ih isRow fresh.1]

end

section
variable {N E : Type} (graph : QueriedGraph F N E)

/-- An expansion does not change what another one starts from. -/
theorem following_extend (differs : lower.dstBinding ≠ upper.srcBinding)
    (unbound : ∀ rel ∈ lower.relBinding, row rel = none) (pair : E × N) :
    following graph upper (extend lower row (.relationship pair.1) (.node pair.2)) =
      following graph upper row := by
  unfold following nodeAt extend
  rw [update_of_ne differs.symm]
  cases isRel : lower.relBinding with
  | none => rfl
  | some rel =>
    by_cases same : upper.srcBinding = rel
    · simp [same, unbound rel isRel]
    · simp [update_of_ne same]

theorem extend_comm (disjoint : ∀ symbol ∈ upper.added, symbol ∉ lower.added) :
    extend upper (extend lower row rel dst) rel' dst' =
      extend lower (extend upper row rel' dst') rel dst := by
  funext symbol
  by_cases added : symbol ∈ upper.added
  · rw [extend_other (disjoint symbol added)]
    exact extend_congr fun missing => absurd added missing
  · rw [extend_other added]
    exact extend_congr fun _ => (extend_other added).symm

theorem expandRow_comm (independent : lower.dstBinding ≠ upper.srcBinding ∧
      upper.dstBinding ≠ lower.srcBinding)
    (disjoint : ∀ symbol ∈ upper.added, symbol ∉ lower.added)
    (unbound : ∀ symbol ∈ lower.added ++ upper.added, row symbol = none) :
    ((expandRow graph upper row).flatMap (expandRow graph lower)).Perm
      ((expandRow graph lower row).flatMap (expandRow graph upper)) := by
  have fresh : ∀ op : ExpandOp, (∀ symbol ∈ op.added, row symbol = none) →
      ∀ rel ∈ op.relBinding, row rel = none :=
    fun op free rel isRel => free rel (by simp [ExpandOp.added, Option.mem_def.mp isRel])
  rw [forall_mem_append] at unbound
  have first := following_extend graph independent.1 (fresh lower unbound.1)
  have snd := following_extend graph independent.2 (fresh upper unbound.2)
  simp only [expandRow, flatMap_map, first, snd, extend_comm disjoint]
  rw [← Multiset.coe_eq_coe, ← Multiset.coe_bind, ← Multiset.coe_bind]
  simp only [← Multiset.map_coe]
  exact Multiset.bind_map_comm _ _

theorem placeExpand_spec (fanout : Fanout C) (uniq : (plan.bindings ++ upper.added).Nodup) :
    (rows graph (placeExpand fanout upper plan)).Perm (rows graph (.expand plan upper)) ∧
      (placeExpand fanout upper plan).bindings.Perm (plan.bindings ++ upper.added) := by
  unfold placeExpand
  split
  · next input lower =>
      split
      · next swaps =>
          simp only [Bool.and_eq_true, bne_iff_ne] at swaps
          simp only [LogicalPlan.bindings, append_assoc] at uniq ⊢
          obtain ⟨-, addedOnce, apart⟩ := nodup_append.mp uniq
          have disjoint := (nodup_append.mp addedOnce).2.2
          refine ⟨?_, (perm_append_comm).append_left _⟩
          simp only [rows, flatMap_assoc]
          refine List.Perm.flatMap_left _ fun row mem => expandRow_comm graph
            ⟨swaps.1.1.1.2, swaps.1.1.2⟩ ?_ fun symbol added => unbound_of_mem mem ?_
          · exact fun symbol isUpper isLower => disjoint symbol isLower symbol isUpper rfl
          · exact fun bound => apart symbol bound symbol added rfl
      · exact ⟨.rfl, .rfl⟩
  · exact ⟨.rfl, .rfl⟩

end

section
variable {N E : Type} (graph : QueriedGraph F N E)

theorem pushFiltersDown_spec (plan : LogicalPlan F) :
    rows graph (pushFiltersDown plan) = rows graph plan ∧
      (pushFiltersDown plan).bindings = plan.bindings ∧
      ((pushFiltersDown plan).NoLimit ↔ plan.NoLimit) := by
  fun_induction pushFiltersDown plan with
  | case1 binding label existing preds =>
    refine ⟨?_, rfl, Iff.rfl⟩
    simp only [rows, filter_filter]
    exact filter_congr fun row _ => by simp [satisfies, Bool.and_comm]
  | _ => simp_all [rows, LogicalPlan.bindings, LogicalPlan.NoLimit]

theorem recurseWithoutReorder_eq : recurseWithoutReorder plan = plan := by
  induction plan <;> simp_all [recurseWithoutReorder]

theorem reorderExpands_spec (fanout : Fanout C) (noLimit : plan.NoLimit)
    (uniq : plan.bindings.Nodup) :
    (rows graph (reorderExpands fanout plan)).Perm (rows graph plan) ∧
      (reorderExpands fanout plan).bindings.Perm plan.bindings := by
  induction plan with
  | nodeScan | vectorSeed => exact ⟨.rfl, .rfl⟩
  | filter input preds ih =>
    obtain ⟨same, names⟩ := ih noLimit uniq
    exact ⟨same.filter _, names⟩
  | project input bindings ih =>
    obtain ⟨same, names⟩ := ih noLimit uniq
    exact ⟨same.map _, names⟩
  | limit => cases noLimit
  | optionalExpand input op ih =>
    obtain ⟨same, names⟩ := ih noLimit (nodup_append.mp uniq).1
    exact ⟨same.flatMap_right _, names.append_right _⟩
  | expand input op ih =>
    obtain ⟨same, names⟩ := ih noLimit (nodup_append.mp uniq).1
    have renamed := names.append_right op.added
    obtain ⟨placed, order⟩ := placeExpand_spec graph fanout (renamed.nodup_iff.mpr uniq)
    exact ⟨placed.trans (same.flatMap_right _), order.trans renamed⟩

/-- For every plan without `Limit` whose bindings are distinct, all statistics and every graph:
    the optimised plan denotes the same rows as often. -/
theorem optimised_rows_perm (stats : Option (Fanout C))
    (plan : LogicalPlan F) (noLimit : plan.NoLimit) (uniq : plan.bindings.Nodup) :
    (rows graph (optimise plan stats)).Perm (rows graph plan) := by
  obtain ⟨pushed, names, limits⟩ := pushFiltersDown_spec graph plan
  rw [← pushed]
  unfold optimise reorderExpandsByCost
  cases stats with
  | none => rw [recurseWithoutReorder_eq]
  | some fanout =>
    exact (reorderExpands_spec graph fanout (limits.mpr noLimit) (names ▸ uniq)).1

/-- The cheaper of two expansions from one node is the upper one. -/
def twoExpands : LogicalPlan Unit :=
  .expand (.expand (.nodeScan 0 none []) ⟨0, some 3, 1, some 1, .outgoing, 1, 1⟩)
    ⟨0, some 4, 2, some 2, .incoming, 1, 1⟩

def lastCheaper : Fanout Nat := fun relType _ _ _ => if relType = some 2 then 0 else 1

/-- Two nodes; each has a relationship of every type to the other one. -/
def pairGraph : QueriedGraph Unit Bool Nat where
  scan _ := [false, true]
  seeds _ := []
  matching _ _ _ _ node := [(0, !node), (1, !node)]
  holds _ _ := true

theorem swapped_expands_have_the_same_rows : optimise twoExpands (some lastCheaper) ≠ twoExpands ∧
      (rows pairGraph (optimise twoExpands (some lastCheaper))).Perm (rows pairGraph twoExpands) :=
  ⟨by decide, optimised_rows_perm pairGraph (some lastCheaper) twoExpands trivial (by decide)⟩

end
end HoloSphere.Graph.Query
