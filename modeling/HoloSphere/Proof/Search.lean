import HoloSphere.Proof.Tree

/-! # Proof search

`GlobalExactProofSearch` of `proof/search.rs`, without a deadline, and the stages it shares with
`GlobalPacProofSearch`.  Vectors, codes and envelopes are of any type; a query says how they are
scored and bounded, in any total order.  The two searches share everything but the flat sieve
and the factor by which a bound is relaxed before it is compared.  Byte counts, times and
ratios are left out.
-/

namespace HoloSphere.Proof
open Store

/-- The certificate; the counters are those of the source. -/
structure DenseExactProof (α : Type) where
  corpusSize : Nat := 0
  riveroRawCandidates : Nat := 0
  riveroSeedCandidates : Nat := 0
  riveroSeedExactEvaluations : Nat := 0
  proofRegionsPopped : Nat := 0
  proofRegionsExpanded : Nat := 0
  proofRegionsPruned : Nat := 0
  vectorsPrunedByRegion : Nat := 0
  lutzL0Evaluations : Nat := 0
  lutzL0Pruned : Nat := 0
  lutzL1Evaluations : Nat := 0
  lutzL1Pruned : Nat := 0
  leafVectorsConsidered : Nat := 0
  exactEvaluations : Nat := 0
  filteredOrTombstoned : Nat := 0
  /-- Not set by a search that has nothing to do. -/
  kthScore : Option (WithBot α) := none
  globallyExact : Bool := false

namespace DenseExactProof
variable {α : Type}

/-- The vectors accounted for. -/
def total (proof : DenseExactProof α) : Nat :=
  proof.vectorsPrunedByRegion + proof.lutzL0Pruned + proof.lutzL1Pruned + proof.exactEvaluations +
    proof.filteredOrTombstoned

def isAccountingExact (proof : DenseExactProof α) : Bool := proof.total = proof.corpusSize

end DenseExactProof

/-- `ProofQuery` and `LutzQueryTable`: what a query makes of vectors, envelopes and codes.
    The bound of an envelope may be below every score, and a code without a second level has no
    second bound. -/
structure ProofQuery (ν κ γ α : Type) where
  score : ν → α
  upperBound : γ → WithBot α
  scoreL0 : κ → α
  boundL0 : κ → α
  boundL1 : κ → Option α

structure SegmentProofView (ν κ γ : Type) where
  tree : SemanticProofTree γ
  vectors : List ν
  lutzCodes : Option (List κ)
  tombstones : Option (Finset NodeIndex)
  deriving Inhabited

namespace SegmentProofView
variable {ν κ γ : Type}

def vector [Inhabited ν] (seg : SegmentProofView ν κ γ) (slot : NodeIndex) : ν :=
  seg.vectors.getD slot default

def tombstoned (seg : SegmentProofView ν κ γ) (slot : NodeIndex) : Bool :=
  seg.tombstones.any fun dead => slot ∈ dead

end SegmentProofView

/-- No mask, or one that contains the slot. -/
def admits (filterMask : Option (Finset NodeIndex)) (slot : NodeIndex) : Bool :=
  filterMask.all fun mask => slot ∈ mask

/-- The state that the stages of a search share. -/
structure Progress (α : Type) [LinearOrder α] where
  topk : TopKAccumulator α
  evaluatedSlots : Finset NodeIndex
  proof : DenseExactProof α

namespace Progress
variable {α : Type} [LinearOrder α]

def scoreExactly (slot : NodeIndex) (score : α) (prog : Progress α) : Progress α where
  topk := prog.topk.offer slot score
  evaluatedSlots := insert slot prog.evaluatedSlots
  proof := { prog.proof with exactEvaluations := prog.proof.exactEvaluations + 1 }

def setAside (slot : NodeIndex) (prog : Progress α) : Progress α where
  topk := prog.topk
  evaluatedSlots := insert slot prog.evaluatedSlots
  proof := { prog.proof with filteredOrTombstoned := prog.proof.filteredOrTombstoned + 1 }

def pruneL0 (slot : NodeIndex) (prog : Progress α) : Progress α where
  topk := prog.topk
  evaluatedSlots := insert slot prog.evaluatedSlots
  proof := { prog.proof with lutzL0Pruned := prog.proof.lutzL0Pruned + 1 }

def pruneL1 (slot : NodeIndex) (prog : Progress α) : Progress α where
  topk := prog.topk
  evaluatedSlots := insert slot prog.evaluatedSlots
  proof := { prog.proof with lutzL1Pruned := prog.proof.lutzL1Pruned + 1 }

/-- A region's members are not marked as evaluated. -/
def pruneRegion (mems : List NodeIndex) (prog : Progress α) : Progress α where
  topk := prog.topk
  evaluatedSlots := prog.evaluatedSlots
  proof :=
    { prog.proof with
      proofRegionsPruned := prog.proof.proofRegionsPruned + 1
      vectorsPrunedByRegion := prog.proof.vectorsPrunedByRegion +
        (mems.filter fun slot => slot ∉ prog.evaluatedSlots).length }

/-- A change to counters that are not accounts of vectors. -/
def note (change : DenseExactProof α → DenseExactProof α) (prog : Progress α) : Progress α :=
  { prog with proof := change prog.proof }

end Progress

section
variable {ν κ γ α : Type} [LinearOrder α] [Inhabited ν] [Inhabited κ] [Inhabited γ]

def mutableStage (filterMask : Option (Finset NodeIndex)) (prog : Progress α)
    (cand : NodeIndex × α) : Progress α :=
  if admits filterMask cand.1 then prog.scoreExactly cand.1 cand.2
  else prog.setAside cand.1

/-- A seed belongs to the first segment that is long enough. -/
def seedSlot (qry : ProofQuery ν κ γ α) (segs : List (SegmentProofView ν κ γ))
    (slot : NodeIndex) (prog : Progress α) : Progress α :=
  match segs.find? fun seg => slot < seg.vectors.length with
  | none => prog
  | some seg =>
    if seg.tombstoned slot then prog.setAside slot
    else
      (prog.scoreExactly slot (qry.score (seg.vector slot))).note fun proof =>
        { proof with riveroSeedExactEvaluations := proof.riveroSeedExactEvaluations + 1 }

/-- One seed; the second component is the set of the seeds seen. -/
def seedStage (qry : ProofQuery ν κ γ α) (segs : List (SegmentProofView ν κ γ))
    (filterMask : Option (Finset NodeIndex)) (st : Progress α × Finset NodeIndex)
    (slot : NodeIndex) : Progress α × Finset NodeIndex :=
  if admits filterMask slot && decide (slot ∉ st.2) then
    (seedSlot qry segs slot (st.1.note fun proof =>
      { proof with riveroSeedCandidates := proof.riveroSeedCandidates + 1 }), insert slot st.2)
  else st

/-- A vector is scored unless one of its code bounds, relaxed, is below the threshold. -/
def cascade (relax : α → α) (qry : ProofQuery ν κ γ α) (seg : SegmentProofView ν κ γ)
    (prog : Progress α) (slot : NodeIndex) : Progress α :=
  let score := qry.score (seg.vector slot)
  match seg.lutzCodes with
  | none => prog.scoreExactly slot score
  | some codes =>
    let code := codes.getD slot default
    let prog := prog.note fun proof =>
      { proof with lutzL0Evaluations := proof.lutzL0Evaluations + 1 }
    if prog.topk.prunes (relax (qry.boundL0 code)) then prog.pruneL0 slot
    else
      match qry.boundL1 code with
      | none => prog.scoreExactly slot score
      | some bound =>
        let prog := prog.note fun proof =>
          { proof with lutzL1Evaluations := proof.lutzL1Evaluations + 1 }
        if prog.topk.prunes (relax bound) then prog.pruneL1 slot
        else prog.scoreExactly slot score

def sieveSlot (qry : ProofQuery ν κ γ α) (filterMask : Option (Finset NodeIndex))
    (seg : SegmentProofView ν κ γ) (prog : Progress α) (slot : NodeIndex) : Progress α :=
  if slot ∈ prog.evaluatedSlots then prog
  else if seg.tombstoned slot || !admits filterMask slot then prog.setAside slot
  else cascade id qry seg prog slot

/-- Every slot of a segment that is not spatially prunable.  The number of vectors is cast to
    the type of a slot. -/
def sieveStage (qry : ProofQuery ν κ γ α) (filterMask : Option (Finset NodeIndex))
    (prog : Progress α) (seg : SegmentProofView ν κ γ) : Progress α :=
  if seg.tree.isSpatiallyPrunable then prog
  else
    let considered := if seg.lutzCodes.isSome then seg.vectors.length else 0
    (List.range (seg.vectors.length % 2 ^ 32)).foldl (sieveSlot qry filterMask seg)
      (prog.note fun proof =>
        { proof with leafVectorsConsidered := proof.leafVectorsConsidered + considered })

structure ProofFrontierEntry (α : Type) where
  upperBound : WithBot α
  segmentIdx : Nat
  nodeIdx : Nat
  deriving DecidableEq

namespace ProofFrontierEntry

omit [LinearOrder α]

def key (entry : ProofFrontierEntry α) : WithBot α ×ₗ ℕᵒᵈ ×ₗ ℕᵒᵈ :=
  toLex (entry.upperBound,
    toLex (OrderDual.toDual entry.segmentIdx, OrderDual.toDual entry.nodeIdx))

theorem key_injective :
    Function.Injective (key : ProofFrontierEntry α → WithBot α ×ₗ ℕᵒᵈ ×ₗ ℕᵒᵈ) := by
  rintro ⟨upperBound, segmentIdx, nodeIdx⟩ ⟨other, otherSegment, otherNode⟩ same
  cases same
  rfl

end ProofFrontierEntry

/-- The highest bound is the greatest entry; ties go to the smaller numbers. -/
instance : LinearOrder (ProofFrontierEntry α) :=
  LinearOrder.lift' ProofFrontierEntry.key ProofFrontierEntry.key_injective

/-- The frontier and what has been found so far. -/
structure Exploration (α : Type) [LinearOrder α] where
  frontier : BinaryHeap (ProofFrontierEntry α)
  progress : Progress α

/-- A node is pruned, or waits in the frontier for its turn. -/
def admitRegion (relax : α → α) (qry : ProofQuery ν κ γ α)
    (segs : List (SegmentProofView ν κ γ)) (segmentIdx : Nat) (st : Exploration α)
    (nodeIdx : Nat) : Exploration α :=
  let tree := (segs.getD segmentIdx default).tree
  let bound := qry.upperBound (tree.node nodeIdx).envelope
  if st.progress.topk.prunes (bound.map relax) then
    { st with progress := st.progress.pruneRegion (tree.residents nodeIdx) }
  else { st with frontier := st.frontier.push ⟨bound, segmentIdx, nodeIdx⟩ }

def rootStage (relax : α → α) (qry : ProofQuery ν κ γ α)
    (segs : List (SegmentProofView ν κ γ)) (st : Exploration α) (segmentIdx : Nat) :
    Exploration α :=
  let tree := (segs.getD segmentIdx default).tree
  if !tree.isSpatiallyPrunable || tree.nodes.isEmpty then st
  else admitRegion relax qry segs segmentIdx st tree.root

/-- The members of a leaf that are still to be looked at, in their order. -/
def gather (filterMask : Option (Finset NodeIndex)) (seg : SegmentProofView ν κ γ)
    (st : Progress α × List NodeIndex) (slot : NodeIndex) : Progress α × List NodeIndex :=
  if slot ∈ st.1.evaluatedSlots then st
  else if seg.tombstoned slot || !admits filterMask slot then
    (st.1.setAside slot, st.2)
  else (st.1, st.2 ++ [slot])

/-- With codes, by descending score of the codes; one of the orders that
    `sort_unstable_by` may leave. -/
def schedule (qry : ProofQuery ν κ γ α) (seg : SegmentProofView ν κ γ)
    (candidates : List NodeIndex) : List NodeIndex :=
  match seg.lutzCodes with
  | none => candidates
  | some codes =>
    candidates.insertionSort fun fst snd =>
      qry.scoreL0 (codes.getD snd default) ≤ qry.scoreL0 (codes.getD fst default)

def exploreLeaf (relax : α → α) (qry : ProofQuery ν κ γ α)
    (filterMask : Option (Finset NodeIndex)) (seg : SegmentProofView ν κ γ)
    (mems : List NodeIndex) (prog : Progress α) : Progress α :=
  let gathered := mems.foldl (gather filterMask seg) (prog, [])
  (schedule qry seg gathered.2).foldl
    (fun prog slot => cascade relax qry seg
      (prog.note fun proof =>
        { proof with leafVectorsConsidered := proof.leafVectorsConsidered + 1 }) slot)
    gathered.1

/-- What is done with the node that has been popped. -/
def exploreEntry (relax : α → α) (qry : ProofQuery ν κ γ α)
    (filterMask : Option (Finset NodeIndex)) (segs : List (SegmentProofView ν κ γ))
    (entry : ProofFrontierEntry α) (st : Exploration α) : Exploration α :=
  let seg := segs.getD entry.segmentIdx default
  let node := seg.tree.node entry.nodeIdx
  let prog := st.progress.note fun proof =>
    { proof with proofRegionsPopped := proof.proofRegionsPopped + 1 }
  if prog.topk.prunes (entry.upperBound.map relax) then
    ⟨st.frontier, prog.pruneRegion (seg.tree.members node)⟩
  else if node.isInternal then
    (seg.tree.children node).foldl (admitRegion relax qry segs entry.segmentIdx)
      ⟨st.frontier, prog.note fun proof =>
        { proof with proofRegionsExpanded := proof.proofRegionsExpanded + 1 }⟩
  else
    ⟨st.frontier, exploreLeaf relax qry filterMask seg (seg.tree.members node) prog⟩

/-- The loop over the frontier; nothing is returned if it takes more turns than allowed. -/
def explore (relax : α → α) (qry : ProofQuery ν κ γ α)
    (filterMask : Option (Finset NodeIndex)) (segs : List (SegmentProofView ν κ γ)) :
    Nat → Exploration α → Option (Progress α)
  | 0, _ => none
  | fuel + 1, st =>
    match st.frontier.pop with
    | none => some st.progress
    | some (entry, rest) =>
      explore relax qry filterMask segs fuel
        (exploreEntry relax qry filterMask segs entry ⟨rest, st.progress⟩)

def corpusSize (segs : List (SegmentProofView ν κ γ)) (mutableCandidates : List (NodeIndex × α)) :
    Nat :=
  (segs.map fun seg => seg.tree.totalVectors).sum + mutableCandidates.length

/-- The first two stages. -/
def seeded (qry : ProofQuery ν κ γ α) (k : Nat) (segs : List (SegmentProofView ν κ γ))
    (mutableCandidates : List (NodeIndex × α)) (seeds : List NodeIndex)
    (filterMask : Option (Finset NodeIndex)) : Progress α :=
  let start : Progress α := ⟨.new k, ∅, { corpusSize := corpusSize segs mutableCandidates }⟩
  let scanned := (mutableCandidates.foldl (mutableStage filterMask) start).note fun proof =>
    { proof with riveroRawCandidates := seeds.length }
  ((seeds.take (max 128 (k * 2))).foldl (seedStage qry segs filterMask) (scanned, ∅)).1

/-- The frontier stages, and the answer. -/
def resolve (relax : α → α) (globallyExact : Bool) (fuel : Nat) (qry : ProofQuery ν κ γ α)
    (segs : List (SegmentProofView ν κ γ)) (filterMask : Option (Finset NodeIndex))
    (prog : Progress α) : Option (List (NodeIndex × α) × DenseExactProof α) :=
  let start := (List.range segs.length).foldl (rootStage relax qry segs)
    ⟨.empty, prog⟩
  (explore relax qry filterMask segs fuel start).map fun prog =>
    (prog.topk.intoSortedVec, { prog.proof with
        kthScore := some prog.topk.kthScore
        globallyExact := globallyExact })

def GlobalExactProofSearch.search (fuel : Nat) (qry : ProofQuery ν κ γ α) (k : Nat)
    (segs : List (SegmentProofView ν κ γ)) (mutableCandidates : List (NodeIndex × α))
    (seeds : List NodeIndex) (filterMask : Option (Finset NodeIndex)) :
    Option (List (NodeIndex × α) × DenseExactProof α) :=
  let corpus := corpusSize segs mutableCandidates
  if k = 0 ∨ corpus = 0 then some ([], { corpusSize := corpus })
  else
    let prog := seeded qry k segs mutableCandidates seeds filterMask
    resolve id true fuel qry segs filterMask
      (segs.foldl (sieveStage qry filterMask) prog)

end
end HoloSphere.Proof
