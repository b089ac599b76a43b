import HoloSphere.Graph.Query.Ast
import HoloSphere.Graph.Sealing

/-! # Expansion over several hops

The `Expand` operator of `executor.rs`: one hop lists the neighbours, several hops are a
breadth-first traversal with one set of visited nodes for all depths.  The neighbours are what
the block of a generation visits, before its seal or after it.
-/

namespace HoloSphere.Graph.Query

section
variable {N : Type} (edge : N → N → Prop) (u : N)

/-- A path from `u` without repeated nodes: the nodes on it, its end and its edges. -/
inductive SimplePath : List N → N → Nat → Prop
  | start : SimplePath [u] u 0
  | step {seen : List N} {v w : N} {k : Nat} (pre : SimplePath seen v k) (next : edge v w)
      (fresh : w ∉ seen) : SimplePath (w :: seen) w (k + 1)

def Joined (least most : Nat) (v : N) : Prop :=
  ∃ seen k, least ≤ k ∧ k ≤ most ∧ SimplePath edge u seen v k

def Within : Nat → N → Prop
  | 0, v => v = u
  | k + 1, v => Within k v ∨ ∃ w, Within k w ∧ edge w v

/-- `v` is `k` edges away from `u` and no fewer. -/
def Layer (k : Nat) (v : N) : Prop := Within edge u k v ∧ ∀ j < k, ¬ Within edge u j v

variable {edge u}

theorem Within.mono (h : Within edge u j v) (le : j ≤ k) : Within edge u k v := by
  induction le with
  | refl => exact h
  | step _ ih => exact .inl ih

theorem SimplePath.within (h : SimplePath edge u seen v k) : Within edge u k v := by
  induction h with
  | start => rfl
  | step _ next _ ih => exact .inr ⟨_, ih, next⟩

theorem Within.exists_layer (h : Within edge u k v) : ∃ j ≤ k, Layer edge u j v := by
  induction k with
  | zero => exact ⟨0, Nat.le_refl _, h, by simp⟩
  | succ k ih =>
    by_cases sooner : Within edge u k v
    · obtain ⟨j, le, layer⟩ := ih sooner
      exact ⟨j, by omega, layer⟩
    · exact ⟨k + 1, Nat.le_refl _, h, fun j lt near => sooner (near.mono (by omega))⟩

theorem layer_succ : Layer edge u (k + 1) v ↔
    ¬ Within edge u k v ∧ ∃ w, Layer edge u k w ∧ edge w v := by
  constructor
  · rintro ⟨near | ⟨w, near, next⟩, least⟩
    · exact absurd near (least k (by omega))
    · refine ⟨least k (by omega), w, ⟨near, fun j lt sooner => ?_⟩, next⟩
      exact least (j + 1) (by omega) (.inr ⟨w, sooner, next⟩)
  · rintro ⟨far, w, layer, next⟩
    exact ⟨.inr ⟨w, layer.1, next⟩, fun j lt near => far (near.mono (by omega))⟩

theorem within_succ : Within edge u (k + 1) v ↔
    Within edge u k v ∨ ∃ w, Layer edge u k w ∧ edge w v := by
  constructor
  · intro near
    by_cases sooner : Within edge u k v
    · exact .inl sooner
    · exact .inr (layer_succ.mp ⟨near, fun j lt fst => sooner (fst.mono (by omega))⟩).2
  · rintro (near | ⟨w, layer, next⟩)
    · exact .inl near
    · exact .inr ⟨w, layer.1, next⟩

theorem Layer.simplePath (h : Layer edge u k v) :
    ∃ seen, SimplePath edge u seen v k ∧ ∀ x ∈ seen, Within edge u k x := by
  induction k generalizing v with
  | zero =>
    obtain rfl : v = u := h.1
    exact ⟨[v], .start, by simp [Within]⟩
  | succ k ih =>
    obtain ⟨far, w, layer, next⟩ := layer_succ.mp h
    obtain ⟨seen, path, near⟩ := ih layer
    refine ⟨v :: seen, path.step next fun again => far (near v again), ?_⟩
    simpa using ⟨h.1, fun x mem => .inl (near x mem)⟩

theorem Layer.empty_of_le (empty : ∀ v, ¬ Layer edge u k v) (le : k ≤ j) (v : N) :
    ¬ Layer edge u j v := by
  induction le generalizing v with
  | refl => exact empty v
  | step _ ih =>
    intro layer
    obtain ⟨-, w, pre, -⟩ := layer_succ.mp layer
    exact ih w pre

theorem simplePath_zero : (∃ seen, SimplePath edge u seen v 0) ↔ v = u := by
  constructor
  · rintro ⟨seen, path⟩
    exact path.within
  · rintro rfl
    exact ⟨[v], .start⟩

theorem simplePath_one : (∃ seen, SimplePath edge u seen v 1) ↔ edge u v ∧ v ≠ u := by
  constructor
  · rintro ⟨seen, path⟩
    cases path with
    | step pre next fresh =>
      cases pre with
      | start => exact ⟨next, fun same => fresh (by simp [same])⟩
  · rintro ⟨next, differs⟩
    exact ⟨[v, u], .step .start next (by simpa using differs)⟩

theorem joined_of_most_le_one (single : most ≤ 1) : Joined edge u least most v ↔
      (least = 0 ∧ v = u) ∨ (least ≤ 1 ∧ most = 1 ∧ edge u v ∧ v ≠ u) := by
  rw [← @simplePath_zero N edge, ← simplePath_one]
  constructor
  · rintro ⟨seen, k, lower, upper, path⟩
    obtain rfl | rfl : k = 0 ∨ k = 1 := by omega
    · exact .inl ⟨by omega, seen, path⟩
    · exact .inr ⟨lower, by omega, seen, path⟩
  · rintro (⟨lower, seen, path⟩ | ⟨lower, upper, seen, path⟩)
    · exact ⟨seen, 0, by omega, by omega, path⟩
    · exact ⟨seen, 1, lower, by omega, path⟩

/-- What a traversal with one visited set reports: the neighbours for a single hop, else the
    nodes at a distance within the bounds. -/
def InReach (edge : N → N → Prop) (u : N) (least most : Nat) (v : N) : Prop :=
  if most ≤ 1 then edge u v else ∃ k, max least 1 ≤ k ∧ k ≤ most ∧ Layer edge u k v

/-- For more than one hop: no node has a path from `u` of too few edges and another one within
    the bounds. -/
def SourceFits (edge : N → N → Prop) (least most : Nat) (u : N) : Prop :=
  (most = 0 ∧ ∀ v, edge u v ↔ v = u) ∨ (most = 1 ∧ (edge u u ↔ least = 0)) ∨
    (2 ≤ most ∧ 1 ≤ least ∧ ∀ v, ¬ (Joined edge u 0 (least - 1) v ∧ Joined edge u least most v))

theorem inReach_exact_iff (bounds : least ≤ most) :
    (∀ v, InReach edge u least most v ↔ Joined edge u least most v) ↔
      SourceFits edge least most u := by
  unfold InReach
  by_cases single : most ≤ 1
  · simp only [if_pos single, joined_of_most_le_one single, SourceFits]
    obtain rfl | rfl : most = 0 ∨ most = 1 := by omega
    · simp [show least = 0 by omega]
    · grind
  · have several : 2 ≤ most := by omega
    simp only [if_neg single, SourceFits]
    constructor
    · intro exact
      refine .inr (.inr ⟨several, ?_, ?_⟩)
      · by_contra zero
        obtain ⟨k, lower, -, -, far⟩ := (exact u).mpr ⟨[u], 0, by omega, by omega, .start⟩
        exact far 0 (by omega) rfl
      · rintro v ⟨⟨_, j, -, few, path⟩, joined⟩
        obtain ⟨k, lower, -, -, far⟩ := (exact v).mpr joined
        exact far j (by omega) path.within
    · rintro (⟨zero, -⟩ | ⟨one, -⟩ | ⟨-, positive, unmixed⟩) v
      · omega
      · omega
      · constructor
        · rintro ⟨k, lower, upper, layer⟩
          obtain ⟨seen, path, -⟩ := layer.simplePath
          exact ⟨seen, k, by omega, upper, path⟩
        · rintro ⟨walked, k, lower, upper, path⟩
          obtain ⟨j, le, layer⟩ := path.within.exists_layer
          obtain ⟨seen, shortest, -⟩ := layer.simplePath
          refine ⟨j, ?_, by omega, layer⟩
          by_contra few
          exact unmixed v ⟨⟨seen, j, by omega, by omega, shortest⟩, walked, k, lower, upper, path⟩

theorem SimplePath.start_mem (h : SimplePath edge u seen v k) : u ∈ seen := by
  induction h with
  | start => exact List.mem_cons_self
  | step _ _ _ ih => exact List.mem_cons_of_mem _ ih

/-- With one as the lower bound every source fits. -/
theorem sourceFits_of_least_one (several : 2 ≤ most) : SourceFits edge 1 most u := by
  refine .inr (.inr ⟨several, Nat.le_refl _, ?_⟩)
  rintro v ⟨⟨_, j, -, few, near⟩, _, k, lower, -, path⟩
  obtain rfl : j = 0 := by omega
  obtain rfl : v = u := near.within
  cases path with
  | start => omega
  | step pre next fresh => exact fresh pre.start_mem

/-! A traversal goes on from live nodes only, but it may run into a dead one. -/

section
variable {live : N → Prop} (starts : ∀ v w, edge v w → live v)
include starts

theorem within_live (alive : live v) :
    Within (fun v w => edge v w ∧ live w) u k v ↔ Within edge u k v := by
  induction k generalizing v with
  | zero => rfl
  | succ k ih =>
    constructor
    · rintro (near | ⟨w, near, next, -⟩)
      · exact .inl ((ih alive).mp near)
      · exact .inr ⟨w, (ih (starts w v next)).mp near, next⟩
    · rintro (near | ⟨w, near, next⟩)
      · exact .inl ((ih alive).mpr near)
      · exact .inr ⟨w, (ih (starts w v next)).mpr near, next, alive⟩

theorem inReach_live : InReach (fun v w => edge v w ∧ live w) u least most v ↔
      InReach edge u least most v ∧ live v := by
  by_cases alive : live v
  · simp only [InReach, Layer, within_live starts alive, alive, and_true]
  · refine iff_of_false (fun reach => ?_) fun reach => alive reach.2
    unfold InReach at reach
    split at reach
    · exact alive reach.2
    · obtain ⟨k, lower, -, layer⟩ := reach
      obtain ⟨j, rfl⟩ : ∃ j, k = j + 1 := ⟨k - 1, by omega⟩
      obtain ⟨-, w, -, -, lives⟩ := layer_succ.mp layer
      exact alive lives

theorem live_of_inReach (reach : InReach edge u least most v)
    (joined : Joined (fun v w => edge v w ∧ live w) u least most v) : live v := by
  obtain ⟨seen, k, lower, upper, path⟩ := joined
  cases path with
  | step _ next _ => exact next.2
  | start =>
    unfold InReach at reach
    split at reach
    · exact starts u u reach
    · obtain ⟨k, lower, -, -, far⟩ := reach
      exact absurd rfl (far 0 (by omega))

/-- What is reported is joined by live nodes just if the bounds fit the source and no dead node
    is reported. -/
theorem inReach_live_exact_iff (bounds : least ≤ most) : (∀ v, InReach edge u least most v ↔
        Joined (fun v w => edge v w ∧ live w) u least most v) ↔
      SourceFits (fun v w => edge v w ∧ live w) least most u ∧
        ∀ v, InReach edge u least most v → live v := by
  rw [← inReach_exact_iff bounds]
  simp only [inReach_live starts]
  constructor
  · intro exact
    have alive : ∀ v, InReach edge u least most v → live v := fun v reach =>
      live_of_inReach starts reach ((exact v).mp reach)
    refine ⟨fun v => ?_, alive⟩
    rw [← exact v]
    exact ⟨And.left, fun reach => ⟨reach, alive v reach⟩⟩
  · rintro ⟨exact, alive⟩ v
    rw [← exact v]
    exact ⟨fun reach => ⟨reach, alive v reach⟩, And.left⟩

end
end

section
variable {N : Type} [DecidableEq N]

/-- The variables of the traversal from one source. -/
structure Traversal (N : Type) where
  visited : List N
  nextFrontier : List N
  reachedAtDepth : List N

def collect (minH depth : Nat) (st : Traversal N) (v : N) : Traversal N :=
  if v ∈ st.visited then st
  else
    { visited := v :: st.visited
      nextFrontier := st.nextFrontier ++ [v]
      reachedAtDepth :=
        if minH ≤ depth then st.reachedAtDepth ++ [v] else st.reachedAtDepth }

/-- The iterations of the loop over the depths that remain after `done` ones; without an answer
    if the neighbours of a node have no end. -/
def traverse (near : N → Option (List N)) (minH : Nat) :
    Nat → Nat → Traversal N → Option (Traversal N)
  | 0, _, st => some st
  | rounds + 1, done, st => do
    let st ← st.nextFrontier.foldlM
      (fun st u => (near u).map fun vs => vs.foldl (collect minH (done + 1)) st)
      { st with nextFrontier := [] }
    if st.nextFrontier.isEmpty then some st else traverse near minH rounds (done + 1) st

def fanout (near : N → Option (List N)) (minHops maxHops : Nat) (src : N) : Option (List N) :=
  let minH := max minHops 1
  let maxH := max maxHops 1
  if maxH = 1 then near src
  else (traverse near minH maxH 0 ⟨[src], [src], []⟩).map Traversal.reachedAtDepth

variable {near : N → Option (List N)} {edge : N → N → Prop} (minH : Nat)

theorem foldl_collect (depth : Nat) (vs : List N) (st : Traversal N) :
    let after := vs.foldl (collect minH depth) st
    (∀ v, v ∈ after.visited ↔ v ∈ st.visited ∨ v ∈ vs) ∧ (∀ v, v ∈ after.nextFrontier ↔
        v ∈ st.nextFrontier ∨ (v ∉ st.visited ∧ v ∈ vs)) ∧
      ∀ v, v ∈ after.reachedAtDepth ↔
        v ∈ st.reachedAtDepth ∨ (minH ≤ depth ∧ v ∉ st.visited ∧ v ∈ vs) := by
  induction vs generalizing st with
  | nil => simp
  | cons x vs ih =>
    obtain ⟨seen, next, reached⟩ := ih (collect minH depth st x)
    simp only [List.foldl_cons]
    refine ⟨fun v => ?_, fun v => ?_, fun v => ?_⟩
    · rw [seen]
      unfold collect
      split <;> grind
    · rw [next]
      unfold collect
      split <;> grind
    · rw [reached]
      unfold collect
      split <;> grind

/-- The frontier is the layer at `done` edges, and the visited nodes are all up to it. -/
structure AtDepth (edge : N → N → Prop) (src : N) (done : Nat) (st : Traversal N) : Prop where
  visited : ∀ v, v ∈ st.visited ↔ Within edge src done v
  frontier : ∀ v, v ∈ st.nextFrontier ↔ Layer edge src done v

section
variable (follows : ∀ u, ∃ vs, near u = some vs ∧ ∀ v, v ∈ vs ↔ edge u v)
include follows

theorem AtDepth.next (h : AtDepth edge src done st) : ∃ after, st.nextFrontier.foldlM
      (fun st u => (near u).map fun vs => vs.foldl (collect minH (done + 1)) st)
      { st with nextFrontier := [] } = some after ∧ AtDepth edge src (done + 1) after ∧
    ∀ v, v ∈ after.reachedAtDepth ↔
      v ∈ st.reachedAtDepth ∨ (minH ≤ done + 1 ∧ Layer edge src (done + 1) v) := by
  choose listed here follows using follows
  obtain ⟨seen, next, reached⟩ := foldl_collect minH (done + 1)
    (st.nextFrontier.flatMap listed) { st with nextFrontier := [] }
  have reach : ∀ v, v ∈ st.nextFrontier.flatMap listed ↔ ∃ w, Layer edge src done w ∧ edge w v := by
    simp [h.frontier, follows]
  have layer : ∀ v, v ∉ st.visited ∧ v ∈ st.nextFrontier.flatMap listed ↔
      Layer edge src (done + 1) v := by
    intro v
    rw [layer_succ, h.visited, reach]
  refine ⟨(st.nextFrontier.flatMap listed).foldl (collect minH (done + 1))
    { st with nextFrontier := [] }, ?_, ⟨fun v => ?_, fun v => ?_⟩, fun v => ?_⟩
  · simp only [here, Option.map_some]
    rw [List.foldl_flatMap]
    exact List.foldlM_pure
  · rw [seen, h.visited, reach, within_succ]
  · rw [next, layer]
    simp
  · rw [reached, layer]

theorem mem_traverse (rounds done : Nat) (st : Traversal N) (h : AtDepth edge src done st) :
    ∃ after, traverse near minH rounds done st = some after ∧
      ∀ v, v ∈ after.reachedAtDepth ↔ v ∈ st.reachedAtDepth ∨
        ∃ k, done < k ∧ k ≤ done + rounds ∧ minH ≤ k ∧ Layer edge src k v := by
  induction rounds generalizing done st with
  | zero => exact ⟨st, rfl, fun v => by simp; omega⟩
  | succ rounds ih =>
    obtain ⟨after, folded, deeper, reached⟩ := h.next minH follows
    simp only [traverse, folded, Option.bind_eq_bind, Option.bind_some]
    split
    · next last =>
        have none : ∀ v, ¬ Layer edge src (done + 1) v := by
          intro v layer
          rw [← deeper.frontier, List.isEmpty_iff.mp last] at layer
          cases layer
        refine ⟨after, rfl, fun v => ?_⟩
        rw [reached]
        refine or_congr_right ⟨fun now => absurd now.2 (none v), ?_⟩
        rintro ⟨k, lt, -, -, layer⟩
        exact absurd layer (Layer.empty_of_le none lt v)
    · obtain ⟨final, rest, found⟩ := ih _ _ deeper
      refine ⟨final, rest, fun v => ?_⟩
      rw [found, reached, or_assoc]
      refine or_congr_right ⟨?_, ?_⟩
      · rintro (⟨le, layer⟩ | ⟨k, lt, le, rest⟩)
        · exact ⟨done + 1, by omega, by omega, le, layer⟩
        · exact ⟨k, by omega, by omega, rest⟩
      · rintro ⟨k, lt, le, least, layer⟩
        by_cases fst : k = done + 1
        · exact .inl ⟨fst ▸ least, fst ▸ layer⟩
        · exact .inr ⟨k, by omega, by omega, least, layer⟩

/-- The traversal from a source ends with the nodes in reach. -/
theorem fanout_eq (minHops maxHops : Nat) (u : N) : ∃ vs, fanout near minHops maxHops u = some vs ∧
      ∀ v, v ∈ vs ↔ InReach edge u minHops maxHops v := by
  unfold fanout InReach
  by_cases single : maxHops ≤ 1
  · obtain ⟨vs, here, mems⟩ := follows u
    exact ⟨vs, by rw [if_pos (by omega), here], fun v => by rw [if_pos single, mems]⟩
  · have start : AtDepth edge u 0 ⟨[u], [u], []⟩ := ⟨by simp [Within], by simp [Layer, Within]⟩
    obtain ⟨after, ended, mems⟩ := mem_traverse (max minHops 1) follows (max maxHops 1) 0 _ start
    refine ⟨_, by rw [if_neg (by omega), ended]; rfl, fun v => ?_⟩
    rw [if_neg single, mems]
    simp only [List.not_mem_nil, false_or]
    refine exists_congr fun k => ⟨?_, ?_⟩
    · rintro ⟨-, le, least, layer⟩
      exact ⟨least, by omega, layer⟩
    · rintro ⟨least, le, layer⟩
      exact ⟨by omega, by omega, least, layer⟩

end
end

section
variable (relFilter : Option Graph.RelTypeId) (dirn : Direction)

/-- The neighbours that an expansion visits from a node. -/
def expandBoth (block : AdjacencyBlock) (node : NodeIndex) : Option (List NodeIndex) := do
  let outgoing ← if dirn ≠ .incoming then block.expandOut node relFilter else some []
  let incoming ← if dirn ≠ .outgoing then block.expandIn node relFilter else some []
  some ((outgoing ++ incoming).map Prod.fst)

/-- The source and the destination of each row; a missing destination is the null row of an
    optional expansion. -/
def expandRows (minHops maxHops : Nat) (opt : Bool) (sources : List NodeIndex)
    (gen : GraphGeneration) : Option (List (NodeIndex × Option NodeIndex)) := do
  let block ← gen.adjacency
  let rows ← sources.mapM fun src =>
    (fanout (expandBoth relFilter dirn block) minHops maxHops src).map fun destinations =>
      if opt && destinations.isEmpty then [(src, none)]
      else destinations.map fun dst => (src, some dst)
  some rows.flatten

def Direction.takes (dirn : Direction) : Side → Bool
  | .out => dirn ≠ .incoming
  | .into => dirn ≠ .outgoing

/-- A live relationship that leads from the live node `u` to `v`, dead or alive. -/
def Follows (gen : GraphGeneration) (u v : NodeIndex) : Prop :=
  gen.nodes.isLive u = true ∧ ∃ side delta, dirn.takes side ∧ gen.edgeDelta = some delta ∧
    ∃ edge ∈ incident side u delta, admitsType relFilter edge.relType = true ∧ side.other edge = v

/-- The relationships of the graph: both ends are live. -/
def Related (gen : GraphGeneration) (u v : NodeIndex) : Prop :=
  Follows relFilter dirn gen u v ∧ gen.nodes.isLive v = true

variable {relFilter dirn}

theorem expandBoth_eq {led : Side → NodeIndex → NodeIndex → Prop} (visited : ∀ side node,
      ∃ visits, AdjacencyBlock.expand side node relFilter block = some visits ∧
        ∀ v, v ∈ visits.map Prod.fst ↔ led side node v) (u : NodeIndex) :
    ∃ vs, expandBoth relFilter dirn block u = some vs ∧
      ∀ v, v ∈ vs ↔ ∃ side, dirn.takes side ∧ led side u v := by
  obtain ⟨outgoing, out, leads⟩ := visited .out u
  obtain ⟨incoming, into, back⟩ := visited .into u
  have sides : ∀ v, (∃ side, dirn.takes side ∧ led side u v) ↔
      (dirn ≠ .incoming ∧ led .out u v) ∨ (dirn ≠ .outgoing ∧ led .into u v) := by
    intro v
    constructor
    · rintro ⟨side | side, taken, leads⟩
      · exact .inl ⟨of_decide_eq_true taken, leads⟩
      · exact .inr ⟨of_decide_eq_true taken, leads⟩
    · rintro (⟨taken, leads⟩ | ⟨taken, leads⟩)
      · exact ⟨.out, decide_eq_true taken, leads⟩
      · exact ⟨.into, decide_eq_true taken, leads⟩
  simp only [AdjacencyBlock.expand] at out into
  simp only [expandBoth, out, into, sides, ← leads, ← back]
  cases dirn <;> simp

theorem expandRows_eq {edge : NodeIndex → NodeIndex → Prop} (here : gen.adjacency = some block)
    (follows : ∀ u, ∃ vs, expandBoth relFilter dirn block u = some vs ∧ ∀ v, v ∈ vs ↔ edge u v)
    (minHops maxHops : Nat) (sources : List NodeIndex) :
    ∃ rows, expandRows relFilter dirn minHops maxHops false sources gen = some rows ∧
      ∀ u v, (u, some v) ∈ rows ↔ u ∈ sources ∧ InReach edge u minHops maxHops v := by
  choose reached ended mems using fanout_eq follows minHops maxHops
  refine ⟨sources.flatMap fun src => (reached src).map fun dst => (src, some dst), ?_, ?_⟩
  · simp only [expandRows, here, ended, Option.bind_eq_bind, Option.bind_some, Option.map_some]
    rw [List.flatMap_def, ← Option.pure_def, List.mapM_pure]
    rfl
  · simp [mems, and_left_comm]

end

open GraphMutationApplier

theorem mem_expandDelta (threaded : ∀ side, Threaded side nodes delta) (side : Side)
    (node : NodeIndex) : ∃ visits,
      AdjacencyBlock.expand side node relFilter (.delta nodes delta) = some visits ∧
        ∀ v, v ∈ visits.map Prod.fst ↔ nodes.isLive node = true ∧ ∃ edge ∈ incident side node delta,
          admitsType relFilter edge.relType = true ∧ side.other edge = v := by
  rw [expand_delta]
  by_cases live : nodes.isLive node = true
  · obtain ⟨record, found⟩ := NodeArena.get_of_live live
    obtain ⟨visits, expanded, perm⟩ := expandDelta_perm (threaded side) found
    refine ⟨visits, expanded, fun v => ?_⟩
    rw [(perm.map Prod.fst).mem_iff]
    simp [visit, live, and_assoc]
  · refine ⟨[], ?_, by simp [live]⟩
    simp [AdjacencyBlock.expandDelta, NodeArena.get, live]

theorem mem_expandPacked (side : Side) (node : NodeIndex) : ∃ visits,
      AdjacencyBlock.expand side node relFilter (.immutable (.build nodes delta nodes.slots.length)
        (.build nodes delta nodes.slots.length)) = some visits ∧
      ∀ v, v ∈ visits.map Prod.fst ↔ (nodes.isLive node = true ∧
        ∃ edge ∈ incident side node delta, admitsType relFilter edge.relType = true ∧
          side.other edge = v) ∧ nodes.isLive v = true := by
  rw [expand_built]
  refine ⟨_, rfl, fun v => ?_⟩
  by_cases hin : node < nodes.slots.length
  · rw [if_neg (Nat.not_le.mpr hin),
      ((expandPacked_perm side delta hin relFilter).map Prod.fst).mem_iff]
    simp [visit]
    grind
  · rw [if_pos (Nat.not_lt.mp hin)]
    refine iff_of_false List.not_mem_nil fun held => ?_
    obtain ⟨record, found⟩ := NodeArena.get_of_live held.1.1
    exact hin (NodeArena.lt_of_get found)

section
variable (relFilter : Option Graph.RelTypeId) (dirn : Direction) (minHops maxHops : Nat)
  (sources : List NodeIndex)

/-- The expansion over a pinned generation ends, and its rows are the pairs that paths of the
    graph without repeated nodes join within the bounds. -/
def ExpandsExactly (graph pinned : GraphGeneration) : Prop :=
  ∃ rows, expandRows relFilter dirn minHops maxHops false sources pinned = some rows ∧
    ∀ u v, (u, some v) ∈ rows ↔
      u ∈ sources ∧ Joined (Related relFilter dirn graph) u minHops maxHops v

variable {relFilter dirn minHops maxHops sources} {app : GraphMutationApplier}

theorem expandsExactly_iff {edge : NodeIndex → NodeIndex → Prop} {pinned : GraphGeneration}
    (here : pinned.adjacency = some block)
    (follows : ∀ u, ∃ vs, expandBoth relFilter dirn block u = some vs ∧ ∀ v, v ∈ vs ↔ edge u v) :
    ExpandsExactly relFilter dirn minHops maxHops sources graph pinned ↔
      ∀ u ∈ sources, ∀ v, InReach edge u minHops maxHops v ↔
        Joined (Related relFilter dirn graph) u minHops maxHops v := by
  obtain ⟨rows, expanded, mems⟩ := expandRows_eq here follows minHops maxHops sources
  simp only [ExpandsExactly, expanded, Option.some.injEq, exists_eq_left', mems,
    and_congr_right_iff]
  exact forall_congr' fun u => forall_comm

theorem follows_open (sound : app.Sound delta)
    (threaded : ∀ side, Threaded side app.generation.nodes delta) (u : NodeIndex) : ∃ vs,
      expandBoth relFilter dirn (.delta app.generation.nodes delta) u = some vs ∧
        ∀ v, v ∈ vs ↔ Follows relFilter dirn app.generation u v := by
  obtain ⟨vs, here, mems⟩ := expandBoth_eq (mem_expandDelta threaded) u
  refine ⟨vs, here, fun v => ?_⟩
  rw [mems]
  simp [Follows, sound.opened, and_left_comm]

theorem follows_sealed (sound : app.Sound delta) (u : NodeIndex) : ∃ vs,
      expandBoth relFilter dirn (.immutable
        (.build app.generation.nodes delta app.generation.nodes.slots.length)
        (.build app.generation.nodes delta app.generation.nodes.slots.length)) u = some vs ∧
        ∀ v, v ∈ vs ↔ Related relFilter dirn app.generation u v := by
  obtain ⟨vs, here, mems⟩ := expandBoth_eq mem_expandPacked u
  refine ⟨vs, here, fun v => ?_⟩
  rw [mems]
  constructor
  · rintro ⟨side, taken, ⟨live, led⟩, alive⟩
    exact ⟨⟨live, side, delta, taken, sound.opened, led⟩, alive⟩
  · rintro ⟨⟨live, side, other, taken, opened, led⟩, alive⟩
    obtain rfl := Option.some.inj (opened.symm.trans sound.opened)
    exact ⟨side, taken, ⟨live, led⟩, alive⟩

/-- For every graph that mutations have built, direction, type filter, bounds and sources: the
    pairs of the rows are those joined by a path without repeated nodes within the bounds, just
    if each source fits and, before the seal, no dead node is in its reach. -/
theorem expand_rows_exact_iff (gen : Nat) (ops : List GraphMutation)
    (numbered : ((new (.newMutable gen)).applyEach ops).EdgesNumbered)
    (relFilter : Option Graph.RelTypeId) (dirn : Direction) (minHops maxHops : Nat)
    (bounds : minHops ≤ maxHops) (sources : List NodeIndex) :
    let graph := ((new (.newMutable gen)).applyEach ops).generation
    (ExpandsExactly relFilter dirn minHops maxHops sources graph graph ↔
      ∀ u ∈ sources, SourceFits (Related relFilter dirn graph) minHops maxHops u ∧
        ∀ v, InReach (Follows relFilter dirn graph) u minHops maxHops v →
          graph.nodes.isLive v = true) ∧
    (ExpandsExactly relFilter dirn minHops maxHops sources graph graph.sealGeneration.1 ↔
      ∀ u ∈ sources, SourceFits (Related relFilter dirn graph) minHops maxHops u) := by
  obtain ⟨delta, sound⟩ := exists_sound gen ops
  have threaded := (sound.linked (numbered delta sound.opened)).threaded
  constructor
  · rw [expandsExactly_iff sound.adjacency_open (follows_open sound threaded)]
    exact forall₂_congr fun u _ => inReach_live_exact_iff (fun _ _ follows => follows.1) bounds
  · rw [expandsExactly_iff sound.seals.2 (follows_sealed sound)]
    exact forall₂_congr fun u _ => inReach_exact_iff bounds

end

/-- Relationships from 0 to 1, from 0 to 2 and from 2 to 1. -/
def shortcut : List GraphMutation :=
  [.createNode "a" [] ∅ none, .createNode "b" [] ∅ none, .createNode "c" [] ∅ none,
    .createRelationship 1 "a" "b" 0 ∅ 0x3F800000, .createRelationship 2 "a" "c" 0 ∅ 0x3F800000,
    .createRelationship 3 "c" "b" 0 ∅ 0x3F800000]

theorem shortcut_numbered : ((new (.newMutable 0)).applyEach shortcut).EdgesNumbered := by
  intro delta opened
  cases opened
  decide +kernel

theorem shortcut_ends (delta : EdgeDelta) (opened : ((new (.newMutable 0)).applyEach
      shortcut).generation.edgeDelta = some delta) :
    ∀ edge ∈ (EdgeDelta.liveEdges delta).map Prod.snd, ((new (.newMutable 0)).applyEach
      shortcut).generation.nodes.isLive edge.dstNode = true := by
  cases opened
  decide +kernel

theorem hops_from_one_are_exact : let graph := ((new (.newMutable 0)).applyEach shortcut).generation
    ExpandsExactly none .outgoing 1 2 [0] graph graph := by
  refine (expand_rows_exact_iff 0 shortcut shortcut_numbered none .outgoing 1 2 (by decide)
    [0]).1.mpr fun u _ => ⟨sourceFits_of_least_one (by decide), ?_⟩
  rintro v ⟨k, lower, -, layer⟩
  obtain ⟨j, rfl⟩ : ∃ j, k = j + 1 := ⟨k - 1, by omega⟩
  obtain ⟨-, w, -, -, side, delta, taken, opened, edge, mem, -, rfl⟩ := layer_succ.mp layer
  cases side with
  | into => cases taken
  | out => exact shortcut_ends delta opened edge (List.mem_filter.mp mem).1

/-- Node 1 has a path of two edges from 0, but it is visited at depth one. -/
theorem longer_path_is_missed : let graph := ((new (.newMutable 0)).applyEach shortcut).generation
    ((new (.newMutable 0)).applyEach shortcut).EdgesNumbered ∧
      ¬ ExpandsExactly none .outgoing 2 2 [0] graph graph := by
  refine ⟨shortcut_numbered, ?_⟩
  rintro ⟨rows, expanded, exact⟩
  have empty : rows = [] := Option.some.inj (expanded.symm.trans (by decide +kernel))
  have path : SimplePath (Related none .outgoing
      ((new (.newMutable 0)).applyEach shortcut).generation) 0 [1, 2, 0] 1 2 :=
    .step (.step .start ⟨⟨rfl, .out, _, rfl, rfl, by decide +kernel⟩, rfl⟩ (by decide))
      ⟨⟨rfl, .out, _, rfl, rfl, by decide +kernel⟩, rfl⟩ (by decide)
  have missed := (exact 0 1).mpr ⟨List.mem_cons_self, _, 2, Nat.le_refl _, Nat.le_refl _, path⟩
  rw [empty] at missed
  cases missed

end HoloSphere.Graph.Query
