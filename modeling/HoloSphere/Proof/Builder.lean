import HoloSphere.Proof.Envelope
import HoloSphere.Proof.Stages

/-! # Building proof trees

`TreeBuilder` and `SemanticProofTree::build` of `proof/tree.rs` over exact real numbers.  A
region is split in two by spherical 2-means from three pairs of pivots, or in the middle if none
of them divides it.  However it is split, the tree that comes out covers the slots, and each node
has the envelope of the vectors below it.
-/

namespace HoloSphere.Proof
open Geometry Finset List

def proofLeafTarget : ℕ := 32

def samplePairs (sampleSize : ℕ) : List (ℕ × ℕ) :=
  (List.range sampleSize).flatMap fun i =>
    (range' (i + 1) (min sampleSize (i + 32) - (i + 1))).map fun j => (i, j)

/-- `compute_manifold_profile`, of which only the verdict is used. -/
noncomputable def computeIsSpatiallyPrunable (vecs : List VectorEmbedding)
    (slots : List NodeIndex) (dim : ℕ) : Bool :=
  let sampleSize := min 256 slots.length
  if sampleSize < 8 ∨ dim = 0 then true
  else
    let cosines := (samplePairs sampleSize).filterMap fun pair =>
      let slotI := slots.getD pair.1 0
      let slotJ := slots.getD pair.2 0
      if slotI < vecs.length ∧ slotJ < vecs.length then
        some (VectorEmbedding.dotProduct (vecs.getD slotI []) (vecs.getD slotJ []))
      else none
    let samples := cosines.length
    if samples = 0 then true
    else
      let meanCos := cosines.sum / samples
      let variance := max ((cosines.map fun s => s * s).sum / samples - meanCos * meanCos) 0
      let expectedIsotropicVar := 1 / max ((dim * 2 : ℕ) : ℝ) 1
      let anisotropyRatio := variance / max expectedIsotropicVar 1e-7
      decide (3 ≤ anisotropyRatio)

section
variable (vecs : List VectorEmbedding) (dim : ℕ)

def cosine (pivot : VectorEmbedding) (slot : NodeIndex) : ℝ :=
  dot (range dim) (VectorEmbedding.coordinate (vecs.getD slot [])) pivot.coordinate

structure Trial where
  left : List NodeIndex := []
  right : List NodeIndex := []
  pivotA : VectorEmbedding
  pivotB : VectorEmbedding

noncomputable def centroidOf (slots : List NodeIndex) : VectorEmbedding :=
  computeNormalizedCentroid dim (slots.map fun slot => vecs.getD slot [])

/-- The rounds of 2-means, which end early if one side is empty. -/
noncomputable def twoMeans (members : List NodeIndex) : ℕ → Trial → Trial
  | 0, trial => trial
  | rounds + 1, trial =>
    let nearer slot := decide
      (cosine vecs dim trial.pivotB slot ≤ cosine vecs dim trial.pivotA slot)
    let left := members.filter nearer
    let right := members.filter fun slot => !nearer slot
    if left.isEmpty || right.isEmpty then { trial with left := left, right := right }
    else
      twoMeans members rounds
        ⟨left, right, centroidOf vecs dim left, centroidOf vecs dim right⟩

noncomputable def sinSpread (pivot : VectorEmbedding) (side : List NodeIndex) : ℝ :=
  let minCos := (side.map (cosine vecs dim pivot)).foldl min 1
  √(max 0 (1 - max (-1) (min minCos 1) ^ 2))

noncomputable def Trial.penalty (trial : Trial) : ℝ :=
  trial.left.length * sinSpread vecs dim trial.pivotA trial.left +
    trial.right.length * sinSpread vecs dim trial.pivotB trial.right +
    0.05 * |(trial.left.length : ℝ) - trial.right.length|

structure Bisection where
  bestLeft : List NodeIndex := []
  bestRight : List NodeIndex := []
  bestPenalty : WithTop ℝ := ⊤

noncomputable def tryPivots (members : List NodeIndex) (best : Bisection) (offsets : ℕ × ℕ) :
    Bisection :=
  let slotA := members.getD offsets.1 0
  let slotB := members.getD offsets.2 0
  if slotA = slotB then best
  else
    let trial := twoMeans vecs dim members 2
      { pivotA := vecs.getD slotA [], pivotB := vecs.getD slotB [] }
    if trial.left.isEmpty || trial.right.isEmpty then best
    else if (trial.penalty vecs dim : WithTop ℝ) < best.bestPenalty then
      ⟨trial.left, trial.right, trial.penalty vecs dim⟩
    else best

noncomputable def bisect (members : List NodeIndex) : List NodeIndex × List NodeIndex :=
  let len := members.length
  let best := [(0, len / 2), (0, len - 1), (len / 3, 2 * len / 3)].foldl
    (tryPivots vecs dim members) {}
  if best.bestLeft.isEmpty || best.bestRight.isEmpty then
    (members.take (len / 2), members.drop (len / 2))
  else (best.bestLeft, best.bestRight)

end

structure TreeBuilder where
  slots : List NodeIndex
  nodes : List (ProofNode Envelope)

namespace TreeBuilder
variable (vecs : List VectorEmbedding) (dim leafTarget : ℕ)

def members (start len : ℕ) (bld : TreeBuilder) : List NodeIndex := (bld.slots.drop start).take len

/-- The node of a region; a branch has two children from `firstChild` on. -/
noncomputable def nodeOf (start len firstChild childCount : ℕ) (bld : TreeBuilder) :
    ProofNode Envelope where
  firstChild := UInt32.ofNat firstChild
  childCount := UInt16.ofNat childCount
  memberStart := UInt32.ofNat start
  memberLen := UInt32.ofNat len
  envelope := envelope dim
    ((bld.members start len).map fun slot => vecs.getD slot [])

/-- What is done with a region before its parts. -/
noncomputable def split (nodeIdx start len : ℕ) (parts : List NodeIndex × List NodeIndex)
    (bld : TreeBuilder) : TreeBuilder where
  slots := bld.slots.take start ++ (parts.1 ++ parts.2) ++ bld.slots.drop (start + len)
  nodes := (bld.nodes ++ [default, default]).set nodeIdx
    (bld.nodeOf vecs dim start len bld.nodes.length 2)

/-- The recursion gets as many turns as there are slots, and each turn leaves fewer. -/
noncomputable def partitionRecursive : ℕ → ℕ → ℕ → ℕ → TreeBuilder → TreeBuilder
  | 0, _, _, _, bld => bld
  | turns + 1, nodeIdx, start, len, bld =>
    if len ≤ leafTarget then
      { bld with
        nodes := bld.nodes.set nodeIdx (bld.nodeOf vecs dim start len 0 0) }
    else
      let parts := bisect vecs dim (bld.members start len)
      let leftLen := parts.1.length
      let firstChild := bld.nodes.length
      let left := partitionRecursive turns firstChild start leftLen
        (bld.split vecs dim nodeIdx start len parts)
      partitionRecursive turns (firstChild + 1) (start + leftLen) (len - leftLen) left

end TreeBuilder

noncomputable def SemanticProofTree.buildWithLeafTarget (vecs : List VectorEmbedding)
    (slots : List NodeIndex) (dim leafTarget : ℕ) : SemanticProofTree Envelope :=
  if slots.isEmpty then { nodes := [], leafSlots := [], isSpatiallyPrunable := true }
  else
    let bld := TreeBuilder.partitionRecursive vecs dim leafTarget slots.length 0 0
      slots.length ⟨slots, [default]⟩
    { nodes := bld.nodes
      leafSlots := bld.slots
      isSpatiallyPrunable := computeIsSpatiallyPrunable vecs slots dim }

noncomputable def SemanticProofTree.build (vecs : List VectorEmbedding)
    (slots : List NodeIndex) (dim : ℕ) : SemanticProofTree Envelope :=
  buildWithLeafTarget vecs slots dim proofLeafTarget

/-- Both sides have some of the members, and together they have all. -/
structure Splits (members left right : List NodeIndex) : Prop where
  someLeft : left ≠ []
  someRight : right ≠ []
  whole : (left ++ right).Perm members

theorem twoMeans_perm (rounds : ℕ) (trial : Trial) :
    ((twoMeans vecs dim members (rounds + 1) trial).left ++
      (twoMeans vecs dim members (rounds + 1) trial).right).Perm members := by
  induction rounds generalizing trial with
  | zero =>
    simp only [twoMeans]
    split <;> exact filter_append_perm _ members
  | succ rounds ih =>
    rw [twoMeans]
    split
    · exact filter_append_perm _ members
    · exact ih _

theorem tryPivots_splits {best : Bisection} (known : best.bestLeft = [] ∨ best.bestRight = [] ∨
      Splits members best.bestLeft best.bestRight) :
    let next := tryPivots vecs dim members best offsets
    next.bestLeft = [] ∨ next.bestRight = [] ∨ Splits members next.bestLeft next.bestRight := by
  unfold tryPivots
  dsimp only
  split
  · exact known
  · split
    · exact known
    · rename_i sides
      split
      · simp only [Bool.or_eq_true, List.isEmpty_iff, not_or] at sides
        exact .inr (.inr ⟨sides.1, sides.2, twoMeans_perm 1 _⟩)
      · exact known

theorem bisect_splits (several : 1 < members.length) :
    Splits members (bisect vecs dim members).1 (bisect vecs dim members).2 := by
  unfold bisect
  dsimp only
  have known : ∀ (offsets : List (ℕ × ℕ)) (best : Bisection),
      (best.bestLeft = [] ∨ best.bestRight = [] ∨ Splits members best.bestLeft best.bestRight) →
      let last := offsets.foldl (tryPivots vecs dim members) best
      last.bestLeft = [] ∨ last.bestRight = [] ∨ Splits members last.bestLeft last.bestRight := by
    intro offsets
    induction offsets with
    | nil => exact fun best found => found
    | cons next offsets ih => exact fun best found => ih _ (tryPivots_splits found)
  split
  · refine ⟨?_, ?_, (take_append_drop _ members).symm ▸ .refl _⟩
    · rw [ne_eq, take_eq_nil_iff]
      rintro (half | none)
      · omega
      · simp [none] at several
    · rw [ne_eq, drop_eq_nil_iff]
      omega
  · rename_i found
    simp only [Bool.or_eq_true, List.isEmpty_iff, not_or] at found
    rcases known _ {} (.inl rfl) with none | none | splits
    · exact absurd none found.1
    · exact absurd none found.2
    · exact splits

section
variable {vecs : List VectorEmbedding} {dim : ℕ}
open SemanticProofTree

def Enveloped (vecs : List VectorEmbedding) (dim : ℕ) (tree : SemanticProofTree Envelope)
    (idx : ℕ) : Prop :=
  ∃ members, (tree.residents idx).Perm members ∧ (tree.node idx).envelope =
      envelope dim (members.map fun slot => vecs.getD slot [])

/-- The tree has what the builder has, as far as one region is concerned: its node, the nodes
    that were added below it, and its slots. -/
structure Agrees (bld : TreeBuilder) (idx fst start len : ℕ)
    (tree : SemanticProofTree Envelope) : Prop where
  here : tree.nodes[idx]? = bld.nodes[idx]?
  below : ∀ i, fst ≤ i → i < bld.nodes.length → tree.nodes[i]? = bld.nodes[i]?
  slots : (tree.leafSlots.drop start).take len = bld.members start len

/-- A region has been built: nothing else has changed, and any tree that agrees with it divides
    the slots of the region and has the envelopes. -/
structure Built (vecs : List VectorEmbedding) (dim : ℕ) (pre after : TreeBuilder)
    (idx start len : ℕ) : Prop where
  length : after.slots.length = pre.slots.length
  front : after.slots.take start = pre.slots.take start
  rear : after.slots.drop (start + len) = pre.slots.drop (start + len)
  members : (after.members start len).Perm (pre.members start len)
  grows : pre.nodes.length ≤ after.nodes.length
  room : after.nodes.length + 2 ≤ pre.nodes.length + 2 * len
  kept : ∀ i < pre.nodes.length, i ≠ idx → after.nodes[i]? = pre.nodes[i]?
  region : ∀ tree, Agrees after idx pre.nodes.length start len tree →
    tree.residents idx = after.members start len ∧
    (∃ size, Divided tree idx size) ∧
    ∀ i, i = idx ∨ pre.nodes.length ≤ i ∧ i < after.nodes.length → Enveloped vecs dim tree i

theorem node_of_getElem? {tree : SemanticProofTree Envelope} {idx : ℕ} {node : ProofNode Envelope}
    (stored : tree.nodes[idx]? = some node) : tree.node idx = node := by
  rw [SemanticProofTree.node, getD_eq_getElem?_getD, stored, Option.getD_some]

open TreeBuilder

/-- The members of a node are those of its region. -/
theorem residents_nodeOf {bld : TreeBuilder} {tree : SemanticProofTree Envelope}
    (stored : tree.node idx = bld.nodeOf vecs dim start len firstChild childCount)
    (startFits : start < 2 ^ 32) (lenFits : len < 2 ^ 32) :
    tree.residents idx = (tree.leafSlots.drop start).take len := by
  rw [residents, SemanticProofTree.members, stored, nodeOf]
  simp only [UInt32.toNat_ofNat', Nat.mod_eq_of_lt startFits, Nat.mod_eq_of_lt lenFits]

theorem built_leaf {bld : TreeBuilder} (hin : idx < bld.nodes.length)
    (pos : 0 < len) (fits : start + len < 2 ^ 32) :
    Built vecs dim bld { bld with
        nodes := bld.nodes.set idx (bld.nodeOf vecs dim start len 0 0) }
      idx start len where
  length := rfl
  front := rfl
  rear := rfl
  members := .refl _
  grows := by simp
  room := by
    simp only [length_set]
    omega
  kept i _ other := by simp [getElem?_set_ne other.symm]
  region tree agrees := by
    have stored : tree.node idx = bld.nodeOf vecs dim start len 0 0 := by
      apply node_of_getElem?
      rw [agrees.here]
      simp [hin]
    have residents := residents_nodeOf stored (by omega) (by omega)
    refine ⟨residents.trans agrees.slots, ⟨1, .leaf (by rw [stored]; rfl)⟩, ?_⟩
    rintro i (rfl | ⟨lower, upper⟩)
    · exact ⟨_, .of_eq (residents.trans agrees.slots), by rw [stored]; rfl⟩
    · simp only [length_set] at upper
      omega

theorem members_append (bld : TreeBuilder) (start fst snd : ℕ) : bld.members start (fst + snd) =
      bld.members start fst ++ bld.members (start + fst) snd := by
  rw [TreeBuilder.members, take_add, drop_drop]
  rfl

theorem members_of_front {bld other : TreeBuilder}
    (front : bld.slots.take (start + len) = other.slots.take (start + len)) :
    bld.members start len = other.members start len := by
  have window : ∀ slots : List NodeIndex, (slots.drop start).take len =
      (slots.take (start + len)).drop start := fun slots => by
    rw [drop_take, Nat.add_sub_cancel_left]
  rw [TreeBuilder.members, TreeBuilder.members, window, window, front]

section
variable {bld : TreeBuilder} {left right : List NodeIndex} {idx : ℕ}

theorem nodes_split : (bld.split vecs dim idx start len parts).nodes.length =
    bld.nodes.length + 2 := by simp [split]

theorem drop_split (hin : start ≤ bld.slots.length) :
    (bld.split vecs dim idx start len (left, right)).slots.drop start =
      left ++ (right ++ bld.slots.drop (start + len)) := by
  have front : (bld.slots.take start).length = start := by simp [hin]
  simp [split, front]

theorem take_split (hin : start ≤ bld.slots.length) :
    (bld.split vecs dim idx start len (left, right)).slots.take start = bld.slots.take start := by
  have front : (bld.slots.take start).length = start := by simp [hin]
  rw [split, append_assoc, take_append_of_le_length front.ge, take_take, min_self]

theorem members_split (hin : start ≤ bld.slots.length) (len : ℕ) :
    (bld.split vecs dim idx start len (left, right)).members start left.length = left ∧
      (bld.split vecs dim idx start len (left, right)).members (start + left.length)
        right.length = right := by
  constructor
  · rw [TreeBuilder.members, drop_split hin]
    simp
  · rw [TreeBuilder.members, ← drop_drop, drop_split hin]
    simp

/-- A region whose two parts have been built. -/
theorem built_branch (hin : idx < bld.nodes.length)
    (splits : Splits (bld.members start (left.length + right.length)) left right)
    (within : start + (left.length + right.length) ≤ bld.slots.length)
    (fits : start + (left.length + right.length) < 2 ^ 32) (nodesFit : bld.nodes.length < 2 ^ 32)
    (builtLeft : Built vecs dim
      (bld.split vecs dim idx start (left.length + right.length) (left, right)) leftDone
      bld.nodes.length start left.length)
    (builtRight : Built vecs dim leftDone done (bld.nodes.length + 1)
      (start + left.length) right.length) :
    Built vecs dim bld done idx start (left.length + right.length) := by
  have startInside : start ≤ bld.slots.length := by omega
  obtain ⟨splitLeft, splitRight⟩ := @members_split vecs dim bld left right idx start
    startInside (left.length + right.length)
  have count := @nodes_split vecs dim bld idx start (left.length + right.length) (left, right)
  have leftGrows := builtLeft.grows
  have rightGrows := builtRight.grows
  have leftRoom := builtLeft.room
  have rightRoom := builtRight.room
  have leftMembers : done.members start left.length = leftDone.members start left.length :=
    members_of_front builtRight.front
  have rightMembers : leftDone.members (start + left.length) right.length = right :=
    (congrArg (take right.length) builtLeft.rear).trans splitRight
  have parts : (done.members start (left.length + right.length)).Perm (left ++ right) := by
    rw [members_append, leftMembers]
    have fst := builtLeft.members
    have snd := builtRight.members
    rw [splitLeft] at fst
    rw [rightMembers] at snd
    exact fst.append snd
  have whole := parts.trans splits.whole
  exact {
    length := by
      have size := splits.whole.length_eq
      rw [builtRight.length, builtLeft.length]
      simp only [split, length_append, length_take, length_drop]
      omega
    front := by
      have front := congrArg (take start) builtRight.front
      rw [take_take, take_take, min_eq_left (Nat.le_add_right _ _)] at front
      rw [front, builtLeft.front, take_split startInside]
    rear := by
      have rear := congrArg (drop right.length) builtLeft.rear
      rw [drop_drop, drop_drop] at rear
      rw [← Nat.add_assoc, builtRight.rear, rear, ← drop_drop, ← drop_drop,
        drop_split startInside, Nat.add_assoc]
      simp
    members := whole
    grows := by omega
    room := by omega
    kept := fun i old other => by
      rw [builtRight.kept i (by omega) (by omega), builtLeft.kept i (by omega) (by omega),
        split, getElem?_set_ne other.symm, getElem?_append_left old]
    region := fun tree agrees => by
      have stored : tree.node idx = bld.nodeOf vecs dim start
          (left.length + right.length) bld.nodes.length 2 := by
        apply node_of_getElem?
        rw [agrees.here, builtRight.kept idx (by omega) (by omega),
          builtLeft.kept idx (by omega) (by omega), split, getElem?_set_self]
        simp only [length_append, length_cons, length_nil]
        omega
      have residents := residents_nodeOf stored (by omega) (by omega)
      rw [agrees.slots] at residents
      have slots := agrees.slots
      rw [members_append, take_add, drop_drop] at slots
      obtain ⟨slotsLeft, slotsRight⟩ := append_inj slots (by
        have size := congrArg length (agrees.slots)
        simp only [TreeBuilder.members, length_take, length_drop] at size ⊢
        omega)
      obtain ⟨leftResidents, ⟨leftSize, leftDivided⟩, leftEnveloped⟩ := builtLeft.region tree
        ⟨(agrees.below _ (by omega) (by omega)).trans
            (builtRight.kept _ (by omega) (by omega)),
          fun i lower upper => (agrees.below i (by omega) (by omega)).trans
            (builtRight.kept i upper (by omega)),
          slotsLeft.trans leftMembers⟩
      obtain ⟨rightResidents, ⟨rightSize, rightDivided⟩, rightEnveloped⟩ := builtRight.region tree
        ⟨agrees.below _ (by omega) (by omega), fun i lower upper => agrees.below i (by omega) upper,
          slotsRight⟩
      have children : tree.children (tree.node idx) = [bld.nodes.length, bld.nodes.length + 1] := by
        rw [stored, SemanticProofTree.children, nodeOf]
        simp only [UInt32.toNat_ofNat', Nat.mod_eq_of_lt nodesFit]
        rfl
      refine ⟨residents, ⟨_, @Divided.branch _ _ tree idx
        (fun child => if child = bld.nodes.length then leftSize else rightSize) ?_ ?_ ?_⟩, ?_⟩
      · rw [stored]
        rfl
      · rw [children]
        intro child mem
        simp only [List.mem_cons, List.not_mem_nil, or_false] at mem
        rcases mem with rfl | rfl
        · simpa using leftDivided
        · simpa using rightDivided
      · rw [children, residents, members_append, leftMembers]
        simp [leftResidents, rightResidents]
      · rintro i (rfl | ⟨lower, upper⟩)
        · refine ⟨_, residents ▸ whole, ?_⟩
          rw [stored]
          rfl
        · by_cases early : i < leftDone.nodes.length ∧ i ≠ bld.nodes.length + 1
          · exact leftEnveloped i (by omega)
          · exact rightEnveloped i (by omega) }

end

theorem length_members {bld : TreeBuilder} (within : start + len ≤ bld.slots.length) :
    (bld.members start len).length = len := by
  simp only [TreeBuilder.members, length_take, length_drop]
  omega

/-- The recursion builds its region, if it gets at least as many turns as the region has slots. -/
theorem built_partitionRecursive (tgt : 0 < leafTarget) {turns idx start len : ℕ}
    {bld : TreeBuilder} (pos : 0 < len) (enough : len ≤ turns)
    (hin : idx < bld.nodes.length) (within : start + len ≤ bld.slots.length)
    (fits : start + len < 2 ^ 32) (nodesFit : bld.nodes.length + 2 * len ≤ 2 ^ 32) :
    Built vecs dim bld
      (bld.partitionRecursive vecs dim leafTarget turns idx start len) idx start len := by
  induction turns generalizing idx start len bld with
  | zero => omega
  | succ turns ih =>
    rw [partitionRecursive]
    split
    · exact built_leaf hin pos fits
    · have length := length_members within
      have splits : Splits (bld.members start len)
          (bisect vecs dim (bld.members start len)).1
          (bisect vecs dim (bld.members start len)).2 :=
        bisect_splits (by omega)
      generalize bisect vecs dim (bld.members start len) = parts at splits ⊢
      obtain ⟨left, right⟩ := parts
      dsimp only at splits ⊢
      have someLeft := length_pos_iff.mpr splits.someLeft
      have someRight := length_pos_iff.mpr splits.someRight
      have shares : len = left.length + right.length := by
        rw [← length, ← splits.whole.length_eq, length_append]
      subst shares
      have slots : (bld.split vecs dim idx start (left.length + right.length)
          (left, right)).slots.length = bld.slots.length := by
        simp only [split, length_append, length_take, length_drop]
        omega
      have nodes := @nodes_split vecs dim bld idx start (left.length + right.length) (left, right)
      have builtLeft := @ih bld.nodes.length start left.length
        (bld.split vecs dim idx start (left.length + right.length) (left, right))
        someLeft (by omega) (by omega) (by omega) (by omega) (by omega)
      have grows := builtLeft.grows
      have room := builtLeft.room
      have same := builtLeft.length
      rw [Nat.add_sub_cancel_left]
      exact built_branch hin splits within fits (by omega) builtLeft
        (ih someRight (by omega) (by omega) (by omega) (by omega) (by omega))

end

theorem buildWithLeafTarget_built (tgt : 0 < leafTarget) (nonempty : slots ≠ [])
    (fits : slots.length < 2 ^ 31) :
    let tree := SemanticProofTree.buildWithLeafTarget vecs slots dim leafTarget
    tree.Covers slots ∧ ∀ idx < tree.nodes.length, Enveloped vecs dim tree idx := by
  have pos := length_pos_iff.mpr nonempty
  have built := @built_partitionRecursive vecs dim leafTarget tgt slots.length 0 0
    slots.length ⟨slots, [default]⟩ pos le_rfl (by simp) (by simp) (by omega)
    (by simp only [length_singleton]; omega)
  unfold SemanticProofTree.buildWithLeafTarget
  rw [if_neg (by simpa using nonempty)]
  generalize TreeBuilder.partitionRecursive vecs dim leafTarget slots.length 0 0
    slots.length ⟨slots, [default]⟩ = bld at built ⊢
  intro tree
  obtain ⟨residents, divided, enveloped⟩ := built.region tree ⟨rfl, fun _ _ _ => rfl, rfl⟩
  have members := built.members
  have start : TreeBuilder.members 0 slots.length ⟨slots, [default]⟩ = slots := by
    simp [TreeBuilder.members]
  rw [start] at members
  refine ⟨⟨built.length, residents ▸ members, divided⟩, fun idx hin => enveloped idx ?_⟩
  by_cases root : idx = 0
  · exact .inl root
  · exact .inr ⟨by simp only [length_singleton]; omega, hin⟩

theorem build_built (nonempty : slots ≠ []) (fits : slots.length < 2 ^ 31) :
    let tree := SemanticProofTree.build vecs slots dim
    tree.Covers slots ∧ ∀ idx < tree.nodes.length, Enveloped vecs dim tree idx :=
  buildWithLeafTarget_built (by decide) nonempty fits

end HoloSphere.Proof
