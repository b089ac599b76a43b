import HoloSphere.Graph.Analytics.Projection
import Mathlib.Data.Set.Card
import Mathlib.Order.Lattice.Nat

/-! # Weakly connected components

`ConnectedComponents::compute`: a union-find forest over all edges, then the roots numbered in
the order in which they are met.
-/

namespace HoloSphere.Graph.Analytics
open Function List
section
variable {V : Type}

/-- A parent has a larger rank, so the way to a root ends. -/
structure UnionFind (V : Type) where
  parent : V → V
  rank : V → Nat
  ranked : ∀ x, parent x ≠ x → rank x < rank (parent x)

namespace UnionFind

def new : UnionFind V := ⟨id, fun _ => 0, fun _ differs => absurd rfl differs⟩

theorem rank_le (forest : UnionFind V) (x : V) : forest.rank x ≤ forest.rank (forest.parent x) := by
  by_cases top : forest.parent x = x
  · rw [top]
  · exact (forest.ranked x top).le

/-- How far the rank of `x` is below the largest one. -/
def height [Fintype V] (forest : UnionFind V) (x : V) : Nat :=
  Finset.univ.sup forest.rank - forest.rank x

theorem height_parent [Fintype V] (forest : UnionFind V) (h : forest.parent x ≠ x) :
    forest.height (forest.parent x) < forest.height x := by
  have below := forest.ranked x h
  have top := Finset.le_sup (f := forest.rank) (Finset.mem_univ (forest.parent x))
  unfold height
  omega

variable [DecidableEq V]

/-- One step of `find` compresses the path: `x` gets its grandparent as parent. -/
def split (forest : UnionFind V) (x : V) : UnionFind V where
  parent := update forest.parent x (forest.parent (forest.parent x))
  rank := forest.rank
  ranked y differs := by
    by_cases same : y = x
    · subst same
      simp only [update_self] at differs ⊢
      have inner : forest.parent y ≠ y := fun top => differs (by rw [top, top])
      exact (forest.ranked y inner).trans_le (forest.rank_le _)
    · simp only [update_of_ne same] at differs ⊢
      exact forest.ranked y differs

/-- The root `b` is hung below the root `a`, whose rank grows if the two are equal. -/
def link (forest : UnionFind V) (a b : V) (top : forest.parent a = a) (differ : a ≠ b)
    (rank_le : forest.rank b ≤ forest.rank a) : UnionFind V where
  parent := update forest.parent b a
  rank :=
    if forest.rank a = forest.rank b then update forest.rank a (forest.rank a + 1)
    else forest.rank
  ranked y moved := by
    by_cases same : y = b
    · subst same
      split <;> simp [update_of_ne differ.symm] <;> omega
    · simp only [update_of_ne same] at moved ⊢
      have notA : y ≠ a := fun isA => moved (by rw [isA, top])
      have grows := forest.ranked y moved
      split
      · rw [update_of_ne notA]
        by_cases up : forest.parent y = a
        · simp [up] at grows ⊢
          omega
        · rwa [update_of_ne up]
      · exact grows

def find [Fintype V] (forest : UnionFind V) (x : V) : V × UnionFind V :=
  if forest.parent x = x then (x, forest)
  else find (forest.split x) (forest.parent x)
termination_by forest.height x
decreasing_by exact forest.height_parent ‹_›

def root [Fintype V] (forest : UnionFind V) (x : V) : V :=
  if forest.parent x = x then x else forest.root (forest.parent x)
termination_by forest.height x
decreasing_by exact forest.height_parent ‹_›

variable [Fintype V] {forest : UnionFind V}

theorem root_of_top (h : forest.parent x = x) : forest.root x = x := by
  rw [root, if_pos h]

@[simp] theorem root_parent : forest.root (forest.parent x) = forest.root x := by
  by_cases h : forest.parent x = x
  · rw [h]
  · conv_rhs => rw [root, if_neg h]

/-- Only `root` is constant along parents and the identity on roots. -/
theorem eq_root {f : V → V} (along : ∀ x, f (forest.parent x) = f x)
    (top : ∀ x, forest.parent x = x → f x = x) (x : V) : f x = forest.root x := by
  fun_induction root forest x with
  | case1 x h => exact top x h
  | case2 x h ih => rw [← along, ih]

theorem parent_root : forest.parent (forest.root x) = forest.root x := by
  fun_induction root forest x with
  | case1 x h => exact h
  | case2 x h ih => exact ih

theorem root_split (x y : V) : (forest.split x).root y = forest.root y := by
  refine (eq_root (fun y => ?_) (fun y top => ?_) y).symm
  · by_cases same : y = x <;> simp [split, same]
  · refine root_of_top (of_not_not fun moved => ?_)
    by_cases same : y = x
    · subst same
      simp only [split, update_self] at top
      have up := forest.ranked y moved
      have back := forest.rank_le (forest.parent y)
      rw [top] at back
      omega
    · exact moved (by simpa [split, same] using top)

theorem find_spec (forest : UnionFind V) (x : V) :
    (forest.find x).1 = forest.root x ∧ ∀ y, (forest.find x).2.root y = forest.root y := by
  fun_induction find forest x with
  | case1 forest x h => exact ⟨(root_of_top h).symm, fun y => rfl⟩
  | case2 forest x h ih => simpa [root_split] using ih

theorem top_iff : forest.parent x = x ↔ forest.root x = x :=
  ⟨root_of_top, fun same => same ▸ parent_root⟩

theorem find_top (forest : UnionFind V) (x : V) :
    (forest.find x).2.parent (forest.find x).1 = (forest.find x).1 := by
  obtain ⟨found, kept⟩ := forest.find_spec x
  rw [top_iff, kept, found, ← top_iff, parent_root]

theorem find_keeps_top (h : forest.parent y = y) (x : V) : (forest.find x).2.parent y = y := by
  rw [top_iff, (forest.find_spec x).2, ← top_iff, h]

theorem root_link (top : forest.parent a = a) (bottom : forest.parent b = b) (differ : a ≠ b)
    (le : forest.rank b ≤ forest.rank a) (y : V) :
    (forest.link a b top differ le).root y = if forest.root y = b then a else forest.root y := by
  refine (eq_root (f := fun y => if forest.root y = b then a else forest.root y)
    (fun y => ?_) (fun y fixed => ?_) y).symm
  · by_cases same : y = b
    · simp [link, same, root_of_top top, root_of_top bottom, differ]
    · simp [link, same]
  · have notB : y ≠ b := by
      rintro rfl
      exact differ (by simpa [link] using fixed)
    have isTop : forest.parent y = y := by simpa [link, notB] using fixed
    simp [root_of_top isTop, notB]

def union (forest : UnionFind V) (a b : V) : UnionFind V :=
  let foundA := forest.find a
  let foundB := foundA.2.find b
  if same : foundA.1 = foundB.1 then foundB.2
  else if less : foundB.2.rank foundA.1 < foundB.2.rank foundB.1 then
    foundB.2.link foundB.1 foundA.1 (find_top _ b) (Ne.symm same) less.le
  else
    foundB.2.link foundA.1 foundB.1 (find_keeps_top (find_top _ a) b) same (not_lt.mp less)

/-- One of the two roots takes the place of the other. -/
theorem union_spec (forest : UnionFind V) : ∃ upper lower,
    (upper = forest.root a ∧ lower = forest.root b ∨
      upper = forest.root b ∧ lower = forest.root a) ∧
      ∀ x, (forest.union a b).root x = if forest.root x = lower then upper else forest.root x := by
  obtain ⟨foundA, keptA⟩ := forest.find_spec a
  obtain ⟨foundB, keptB⟩ := (forest.find a).2.find_spec b
  have top := find_keeps_top (find_top forest a) b
  have bottom := find_top (forest.find a).2 b
  rw [keptA] at foundB
  unfold union
  dsimp only
  split
  · next same =>
      refine ⟨forest.root a, forest.root b, .inl ⟨rfl, rfl⟩, fun x => ?_⟩
      split <;> simp_all
  · split
    · refine ⟨_, _, .inr ⟨foundB, foundA⟩, fun x => ?_⟩
      rw [root_link _ top, keptB, keptA]
    · refine ⟨_, _, .inl ⟨foundA, foundB⟩, fun x => ?_⟩
      rw [root_link _ bottom, keptB, keptA]

end UnionFind

/-- The roots of some nodes, each looked up in the forest that the one before left. -/
def findAll [Fintype V] [DecidableEq V] : UnionFind V → List V → List V
  | _, [] => []
  | forest, v :: vs => (forest.find v).1 :: findAll (forest.find v).2 vs

theorem findAll_eq [Fintype V] [DecidableEq V] (vs : List V) :
    findAll forest vs = vs.map forest.root := by
  induction vs generalizing forest with
  | nil => rfl
  | cons v vs ih =>
    obtain ⟨found, kept⟩ := forest.find_spec v
    simp [findAll, ih, found, kept]

end

section
variable {V : Type} [DecidableEq V]

/-- `label_map` as the list of its keys in the order of their insertion: the label of a key is
    its position, and the next label is the length. -/
def relabel (labels : List V) : List V → List Nat × List V
  | [] => ([], labels)
  | r :: raw =>
    let labels := if r ∈ labels then labels else labels ++ [r]
    let rest := relabel labels raw
    (labels.idxOf r :: rest.1, rest.2)

theorem relabel_spec (raw labels : List V) (uniq : labels.Nodup) :
    (relabel labels raw).2.Nodup ∧ labels <+: (relabel labels raw).2 ∧
      (∀ r, r ∈ (relabel labels raw).2 ↔ r ∈ labels ∨ r ∈ raw) ∧
      (relabel labels raw).1 = raw.map (relabel labels raw).2.idxOf := by
  induction raw generalizing labels with
  | nil => exact ⟨uniq, prefix_rfl, by simp [relabel], rfl⟩
  | cons r raw ih =>
    rw [relabel]
    set more := if r ∈ labels then labels else labels ++ [r] with isMore
    have known : r ∈ more := by grind
    have longer : labels <+: more := by
      rw [isMore]
      split <;> simp
    have once : more.Nodup := by
      rw [isMore]
      split
      · exact uniq
      · next fresh => exact nodup_append.mpr ⟨uniq, by simp, by grind⟩
    obtain ⟨nodup, extended, mems, same⟩ := ih more once
    refine ⟨nodup, longer.trans extended, fun x => ?_, ?_⟩
    · rw [mems, isMore]
      split <;> grind
    · obtain ⟨added, isLast⟩ := extended
      rw [map_cons, ← same, ← isLast, idxOf_append_of_mem known]

def countSizes (number : Nat) (component : List Nat) : List Nat :=
  component.foldl (fun sizes c => sizes.modify c (· + 1)) (replicate number 0)

theorem length_foldl_modify (component sizes : List Nat) :
    (component.foldl (fun sizes c => sizes.modify c (· + 1)) sizes).length = sizes.length := by
  induction component generalizing sizes with
  | nil => rfl
  | cons c component ih => simp [ih]

theorem foldl_modify (component sizes : List Nat) :
    (component.foldl (fun sizes c => sizes.modify c (· + 1)) sizes)[c]? =
      sizes[c]?.map (· + component.count c) := by
  induction component generalizing sizes with
  | nil => simp
  | cons d component ih =>
    rw [foldl_cons, ih, getElem?_modify]
    cases sizes[c]? <;> grind

end

section

structure ConnectedComponents where
  component : List Nat
  numComponents : Nat
  componentSizes : List Nat

def unionAll (proj : GraphProjection n) : UnionFind (Fin n) :=
  (indices n).foldl (fun forest u =>
    (proj.outNeighbors u).foldl (fun forest v => forest.union u v) forest) .new

/-- There are parents for `0..n as u32`, and a neighbour past them is a panic. -/
def ConnectedComponents.compute (proj : GraphProjection n) : Option ConnectedComponents :=
  if (indices n).all fun u => (proj.outNeighbors u).all fun v => v.val < n % 2 ^ 32 then
    let raw := findAll (unionAll proj) (indices n)
    let labelled := relabel [] raw
    some
      { component := labelled.1
        numComponents := labelled.2.length
        componentSizes := countSizes labelled.2.length labelled.1 }
  else none

/-- Nodes joined by a path that ignores the directions of the edges. -/
def Linked (proj : GraphProjection n) : Fin n → Fin n → Prop :=
  Relation.ReflTransGen fun u v => v ∈ proj.outNeighbors u ∨ u ∈ proj.outNeighbors v

theorem Linked.symm (h : Linked proj u v) : Linked proj v u :=
  Relation.ReflTransGen.mono (fun _ _ => Or.symm) _ _ h.swap

def linked (proj : GraphProjection n) : Setoid (Fin n) :=
  ⟨Linked proj, fun _ => .refl, .symm, .trans⟩

variable (proj : GraphProjection n)

/-- Roots stay in the component, and the edges `done` join nodes of one root. -/
structure Merged (forest : UnionFind (Fin n)) (done : List (Fin n × Fin n)) : Prop where
  inside : ∀ x, Linked proj x (forest.root x)
  joined : ∀ edge ∈ done, forest.root edge.1 = forest.root edge.2

variable {proj}

theorem Merged.union (h : Merged proj forest done) (edge : v ∈ proj.outNeighbors u) :
    Merged proj (forest.union u v) (done ++ [(u, v)]) := by
  obtain ⟨upper, lower, roots, moved⟩ := forest.union_spec
  have near : Linked proj (forest.root u) (forest.root v) :=
    (h.inside u).symm.trans (.head (.inl edge) (h.inside v))
  refine ⟨fun x => ?_, fun other mem => ?_⟩
  · rw [moved]
    split
    · next isLower =>
        refine (h.inside x).trans (isLower ▸ ?_)
        rcases roots with ⟨rfl, rfl⟩ | ⟨rfl, rfl⟩
        · exact near.symm
        · exact near
    · exact h.inside x
  · rcases mem_append.mp mem with pre | now
    · rw [moved, moved, h.joined other pre]
    · obtain rfl := mem_singleton.mp now
      rcases roots with ⟨rfl, rfl⟩ | ⟨rfl, rfl⟩ <;> simp [moved]

def edges (proj : GraphProjection n) : List (Fin n × Fin n) :=
  (finRange n).flatMap fun u => (proj.outNeighbors u).map fun v => (u, v)

theorem Merged.foldl (h : Merged proj forest done) (more : List (Fin n × Fin n))
    (edges : ∀ edge ∈ more, edge.2 ∈ proj.outNeighbors edge.1) :
    Merged proj (more.foldl (fun forest edge => forest.union edge.1 edge.2) forest)
      (done ++ more) := by
  induction more generalizing forest done with
  | nil => simpa using h
  | cons edge more ih =>
    have fst := h.union (edges edge mem_cons_self)
    simpa using ih fst (forall_mem_cons.mp edges).2

theorem root_eq_iff (small : n < 2 ^ 32) {u v : Fin n} :
    (unionAll proj).root u = (unionAll proj).root v ↔ Linked proj u v := by
  have start : Merged proj .new [] :=
    ⟨fun x => by rw [UnionFind.root_of_top rfl]; exact .refl, by simp⟩
  have merged : Merged proj (unionAll proj) (edges proj) := by
    have all := start.foldl (edges proj) fun edge mem => by
      simp only [edges, mem_flatMap, mem_map] at mem
      obtain ⟨u, -, v, out, rfl⟩ := mem
      exact out
    simpa [edges, unionAll, indices_eq small, foldl_flatMap, foldl_map] using all
  constructor
  · intro same
    exact (merged.inside u).trans (same ▸ (merged.inside v).symm)
  · intro path
    induction path with
    | refl => rfl
    | tail _ edge ih =>
      rw [ih]
      rcases edge with out | back
      · exact merged.joined (_, _) (by simp [edges, out])
      · exact (merged.joined (_, _) (by simp [edges, back])).symm

theorem count_map_finRange (f : Fin n → Nat) (v : Fin n) :
    ((finRange n).map f).count (f v) = Set.ncard {u | f u = f v} := by
  have filtered : {u | f u = f v} = (Finset.univ.filter fun u => f u = f v : Finset (Fin n)) := by
    simp
  rw [filtered, Set.ncard_coe_finset, count, countP_map, countP_eq_length_filter,
    ← toFinset_card_of_nodup ((nodup_finRange n).filter _)]
  exact congrArg Finset.card (by ext; simp)

/-- Two nodes get one number just if they are linked, and the numbers and sizes are those of the
    classes. -/
def ConnectedComponents.AreClasses (proj : GraphProjection n) (res : ConnectedComponents) : Prop :=
  (∀ u v : Fin n, res.component[u.val]? = res.component[v.val]? ↔ Linked proj u v) ∧
    res.component.length = n ∧ res.numComponents = Nat.card (Quotient (linked proj)) ∧
    res.componentSizes.length = res.numComponents ∧
    ∀ v : Fin n, ∃ number, res.component[v.val]? = some number ∧
      res.componentSizes[number]? = some (Set.ncard {u | Linked proj u v})

open ConnectedComponents

theorem areClasses (small : n < 2 ^ 32) (proj : GraphProjection n) :
    ∃ res, compute proj = some res ∧ res.AreClasses proj := by
  set forest := unionAll proj with isForest
  obtain ⟨uniq, -, mems, same⟩ := relabel_spec ((finRange n).map forest.root) [] nodup_nil
  set labels := (relabel [] ((finRange n).map forest.root)).2 with isLabels
  refine ⟨_, if_pos ?_, ?_⟩
  · rw [Nat.mod_eq_of_lt small]
    simp
  simp only [AreClasses, indices_eq small, ← isForest, findAll_eq, ← isLabels, same, map_map]
  have isRoot : ∀ r, r ∈ labels ↔ ∃ v, forest.root v = r := by simpa using mems
  have number : ∀ u v, labels.idxOf (forest.root u) = labels.idxOf (forest.root v) ↔
      Linked proj u v := fun u v => by
    rw [idxOf_inj ((isRoot _).mpr ⟨u, rfl⟩), isForest, root_eq_iff small]
  have numbered : ∀ v : Fin n, ((finRange n).map (labels.idxOf ∘ forest.root))[v.val]? =
      some (labels.idxOf (forest.root v)) := by simp
  have classes : linked proj = Setoid.ker forest.root :=
    Setoid.ext fun u v => (root_eq_iff small).symm
  refine ⟨fun u v => ?_, by simp, ?_, ?_, fun v => ⟨_, numbered v, ?_⟩⟩
  · rw [numbered, numbered, Option.some_inj, number]
  · have isRange : Set.range forest.root = labels.toFinset := by
      ext r
      simp [isRoot]
    rw [classes, Nat.card_congr (Setoid.quotientKerEquivRange _), isRange, Nat.card_coe_set_eq,
      Set.ncard_coe_finset, toFinset_card_of_nodup uniq]
  · simp [countSizes, length_foldl_modify]
  · have hin : labels.idxOf (forest.root v) < labels.length :=
      idxOf_lt_length_iff.mpr ((isRoot _).mpr ⟨v, rfl⟩)
    have size := count_map_finRange (labels.idxOf ∘ forest.root) v
    simp only [comp_apply, number] at size
    simp [countSizes, foldl_modify, size, hin]

theorem length_relabel (labels raw : List V) [DecidableEq V] :
    (relabel labels raw).1.length = raw.length := by
  induction raw generalizing labels with
  | nil => rfl
  | cons r raw ih => simp [relabel, ih]

theorem small_of_areClasses (computed : compute proj = some res) (classes : res.AreClasses proj) :
    n < 2 ^ 32 := by
  obtain ⟨-, length, -⟩ := classes
  unfold compute at computed
  split at computed
  · cases computed
    rw [length_relabel, findAll_eq, length_map] at length
    exact of_not_not fun large => (length_indices_lt.mpr large).ne length
  · cases computed

/-- For every projection: the components are the classes of linked nodes just if the nodes can
    be counted by a `u32`. -/
theorem components_are_classes_iff (proj : GraphProjection n) :
    (∃ res, compute proj = some res ∧ res.AreClasses proj) ↔ n < 2 ^ 32 := by
  constructor
  · rintro ⟨res, computed, classes⟩
    exact small_of_areClasses computed classes
  · exact fun small => areClasses small proj

/-- As many nodes as there are indices get no component at all. -/
theorem indexless_nodes_have_no_component :
    compute (isolated (2 ^ 32)) = some ⟨[], 0, []⟩ ∧ ¬ ∃ res,
      compute (isolated (2 ^ 32)) = some res ∧ res.AreClasses (isolated (2 ^ 32)) := by
  have none : indices (2 ^ 32) = [] := by rw [indices, Nat.mod_self, take_zero]
  refine ⟨by simp only [compute, none]; rfl, ?_⟩
  rintro ⟨res, computed, classes⟩
  exact lt_irrefl _ (small_of_areClasses computed classes)

end
end HoloSphere.Graph.Analytics
