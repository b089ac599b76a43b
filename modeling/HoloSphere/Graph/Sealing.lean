import HoloSphere.Graph.ChainVisits

/-! # Sealing

The chains of a live node and its packed row are two lists of the edges it owns.  The chains
pass over every live edge; the rows hold those whose ends are both live.  Sealing therefore
changes what a traversal visits exactly when an edge of the node has outlived its other end.
-/

namespace HoloSphere.Graph
open Store List

/-- The live edges that a node owns. -/
def incident (side : Side) (node : NodeIndex) (delta : EdgeDelta) : List EdgeRecord :=
  ((EdgeDelta.liveEdges delta).map Prod.snd).filter fun record => side.owner record = node

/-- What the visitor is told of an edge. -/
def visit (side : Side) (record : EdgeRecord) : NodeIndex × UInt32 :=
  (side.other record, record.weight)

theorem expandDelta_perm (threaded : Threaded side nodes delta)
    (found : NodeArena.get node nodes = some record) :
    ∃ visits, AdjacencyBlock.expandDelta side node relFilter nodes delta = some visits ∧
      visits.Perm (((incident side node delta).filter fun edge =>
        admitsType relFilter edge.relType).map (visit side)) := by
  have walked := (threaded node record found).walk_eq (Nat.lt_succ_of_le (length_owned_le))
  have same := ((filterMap_owned side node delta).filter fun entry =>
    admitsType relFilter entry.2.relType).map fun entry => visit side entry.2
  refine ⟨_, ?_, same.trans (.of_eq ?_)⟩
  · simp only [AdjacencyBlock.expandDelta, found, EdgeDelta.iterChain, walked, Option.map_some]
    rfl
  · simp only [incident, filter_map, map_map]
    rfl

theorem sealable_filter_owner (hin : node < nodes.slots.length) :
    ((sealable side.owner nodes delta nodes.slots.length).filter fun record =>
      side.owner record = node) = (incident side node delta).filter fun record =>
        nodes.isLive node && nodes.isLive (side.other record) := by
  rw [sealable, incident, filter_filter, filter_filter]
  apply filter_congr
  intro record _
  by_cases own : side.owner record = node
  · cases side with
    | out =>
      have src : record.srcNode = node := own
      simp [Side.owner, Side.other, src, hin]
    | into =>
      have tgt : record.dstNode = node := own
      simp [Side.owner, Side.other, tgt, hin, Bool.and_comm]
  · simp [own]

theorem expandPacked_perm (side : Side) (delta : EdgeDelta)
    (hin : node < nodes.slots.length) (relFilter : Option RelTypeId) :
    let packed := packEdges side nodes delta nodes.slots.length
    (AdjacencyBlock.expandPacked relFilter (Buckets.row packed.1 packed.2 node)).Perm
      ((((incident side node delta).filter fun edge =>
        admitsType relFilter edge.relType).filter fun edge =>
          nodes.isLive node && nodes.isLive (side.other edge)).map (visit side)) := by
  have placed : ∀ record ∈ sealable side.owner nodes delta nodes.slots.length,
      side.owner record < nodes.slots.length := by
    intro record mem
    have kept := (mem_filter.mp mem).2
    simp only [Bool.and_eq_true, decide_eq_true_eq] at kept
    exact kept.2
  have row := Buckets.row_perm placed
    (fun record => (⟨side.other record, record.relType, record.weight⟩ : PackedEdge))
    PackedEdge.blank (fun ents => perm_insertionSort PackedEdge.KeyLe ents) hin
  have same := (row.filter fun entry => admitsType relFilter entry.relType).map
    fun entry => (entry.neighbor, entry.weight)
  refine same.trans (.of_eq ?_)
  rw [sealable_filter_owner hin, filter_map, map_map, filter_comm]
  rfl

/-- A list without some of its elements is the same multiset only if nothing was left out. -/
theorem perm_map_filter_iff {α β : Type} (f : α → β) (keep : α → Bool) (list : List α) :
    (list.map f).Perm ((list.filter keep).map f) ↔ ∀ item ∈ list, keep item = true := by
  rw [← filter_eq_self]
  constructor
  · intro perm
    have lengths := perm.length_eq
    rw [length_map, length_map] at lengths
    exact filter_sublist.eq_of_length lengths.symm
  · intro all
    rw [all]

namespace GraphGeneration

/-- What a traversal visits; `None` is a traversal that does not end, or a panic. -/
def visits (expand : AdjacencyBlock → Option Visits) (gen : GraphGeneration) : Option Visits :=
  gen.adjacency.bind expand

theorem visits_of_adjacency {gen : GraphGeneration} (here : gen.adjacency = some block)
    (expand : AdjacencyBlock → Option Visits) : gen.visits expand = expand block := by
  rw [visits, here, Option.bind_some]

/-- The traversal ends before and after the seal, with the same multiset of visits. -/
def SealKeeps (expand : AdjacencyBlock → Option Visits) (gen : GraphGeneration) : Prop :=
  ∃ pre after, gen.visits expand = some pre ∧
    gen.sealGeneration.1.visits expand = some after ∧ pre.Perm after

/-- Every live edge of the node that the filter admits has a live node at its other end. -/
def EndsLive (side : Side) (node : NodeIndex) (relFilter : Option RelTypeId)
    (gen : GraphGeneration) : Prop :=
  ∀ delta, gen.edgeDelta = some delta → ∀ entry ∈ EdgeDelta.liveEdges delta,
    side.owner entry.2 = node → admitsType relFilter entry.2.relType = true →
      gen.nodes.isLive (side.other entry.2) = true

end GraphGeneration

theorem all_incident_iff {gen : GraphGeneration} (opened : gen.edgeDelta = some delta) :
    (∀ edge ∈ (incident side node delta).filter fun edge => admitsType relFilter edge.relType,
      gen.nodes.isLive (side.other edge) = true) ↔
      gen.EndsLive side node relFilter := by
  simp only [incident, mem_filter, mem_map, decide_eq_true_eq]
  constructor
  · intro all other same entry mem own admitted
    rw [opened] at same
    cases same
    exact all entry.2 ⟨⟨⟨entry, mem, rfl⟩, own⟩, admitted⟩
  · rintro ends edge ⟨⟨⟨entry, mem, rfl⟩, own⟩, admitted⟩
    exact ends delta opened entry mem own admitted

def AdjacencyBlock.expand (side : Side) (node : NodeIndex) (relFilter : Option RelTypeId) :
    AdjacencyBlock → Option Visits :=
  match side with
  | .out => expandOut node relFilter
  | .into => expandIn node relFilter

theorem expand_delta : AdjacencyBlock.expand side node relFilter (.delta nodes delta) =
    AdjacencyBlock.expandDelta side node relFilter nodes delta := by
  cases side with
  | out | into => rfl

theorem expand_built : AdjacencyBlock.expand side node relFilter
      (.immutable (.build nodes delta size) (.build nodes delta size)) =
    some (AdjacencyBlock.expandPacked relFilter (if size ≤ node then []
      else Buckets.row (packEdges side nodes delta size).1 (packEdges side nodes delta size).2
        node)) := by
  cases side with
  | out | into => rfl

namespace GraphMutationApplier
variable {app : GraphMutationApplier}

section
variable (sound : app.Sound delta)
include sound

theorem Sound.adjacency_open :
    app.generation.adjacency = some (.delta app.generation.nodes delta) := by
  rw [GraphGeneration.adjacency, sound.unsealed, sound.opened]
  rfl

theorem Sound.seals : app.generation.sealGeneration.2 = .ok () ∧
      app.generation.sealGeneration.1.adjacency = some (.immutable
        (.build app.generation.nodes delta app.generation.nodes.slots.length)
        (.build app.generation.nodes delta app.generation.nodes.slots.length)) := by
  rw [GraphGeneration.sealGeneration, sound.unsealed, sound.opened]
  exact ⟨rfl, rfl⟩

theorem Sound.sealKeeps_iff (threaded : Threaded side app.generation.nodes delta)
    (live : app.generation.nodes.isLive node = true) :
    app.generation.SealKeeps (AdjacencyBlock.expand side node relFilter) ↔
      app.generation.EndsLive side node relFilter := by
  obtain ⟨record, found⟩ := NodeArena.get_of_live live
  have hin := NodeArena.lt_of_get found
  have opened := (GraphGeneration.visits_of_adjacency sound.adjacency_open
    (AdjacencyBlock.expand side node relFilter)).trans expand_delta
  have closed := (GraphGeneration.visits_of_adjacency sound.seals.2
    (AdjacencyBlock.expand side node relFilter)).trans expand_built
  rw [if_neg (Nat.not_le.mpr hin)] at closed
  obtain ⟨chained, expanded, pre⟩ := expandDelta_perm threaded found
  have after := expandPacked_perm side delta hin relFilter
  simp only [live, Bool.true_and] at after
  rw [← all_incident_iff sound.opened, ← perm_map_filter_iff (visit side)]
  constructor
  · rintro ⟨fst, snd, visited, sealedVisits, perm⟩
    rw [opened, expanded] at visited
    rw [closed] at sealedVisits
    cases visited
    cases sealedVisits
    exact pre.symm.trans (perm.trans after)
  · intro perm
    exact ⟨_, _, opened.trans expanded, closed, pre.trans (perm.trans after.symm)⟩

end

/-- A generation is sealed with the visits of a node unchanged exactly when no live edge of the
    node has lost its other end. -/
theorem seal_keeps_visits_iff (gen : Nat) (ops : List GraphMutation)
    (numbered : ((new (.newMutable gen)).applyEach ops).Numbered)
    (node : NodeIndex) (relFilter : Option RelTypeId)
    (live : ((new (.newMutable gen)).applyEach ops).generation.nodes.isLive node = true) :
    let reached := ((new (.newMutable gen)).applyEach ops).generation
    reached.sealGeneration.2 = .ok () ∧
      (reached.SealKeeps (AdjacencyBlock.expandOut node relFilter) ↔
        reached.EndsLive .out node relFilter) ∧
      (reached.SealKeeps (AdjacencyBlock.expandIn node relFilter) ↔
        reached.EndsLive .into node relFilter) := by
  obtain ⟨delta, sound⟩ := exists_sound gen ops
  have threaded := (sound.linked (numbered.edges delta sound.opened)).threaded
  exact ⟨sound.seals.1, sound.sealKeeps_iff (threaded .out) live,
    sound.sealKeeps_iff (threaded .into) live⟩

theorem linkedPair_visits_are_kept :
    ((new (.newMutable 0)).applyEach linkedPair).generation.SealKeeps
      (AdjacencyBlock.expandOut 0 (some 7)) := by
  have numbered : ((new (.newMutable 0)).applyEach linkedPair).Numbered :=
    ⟨by decide +kernel, fun delta opened => by cases opened; decide +kernel⟩
  apply (seal_keeps_visits_iff 0 linkedPair numbered 0 (some 7) (by decide +kernel)).2.1.mpr
  intro delta opened
  cases opened
  decide +kernel

/-- Once the second node is deleted, its edges are still visited, but no longer after the
    seal. -/
theorem deleted_neighbor_is_visited_until_seal : let reached :=
      ((new (.newMutable 0)).applyEach (linkedPair ++ [.deleteNode "b"])).generation
    reached.nodes.isLive 0 = true ∧
      reached.visits (AdjacencyBlock.expandOut 0 (some 7)) = some [(1, 0x3F800000)] ∧
      reached.sealGeneration.1.visits (AdjacencyBlock.expandOut 0 (some 7)) = some [] ∧
      ¬ reached.SealKeeps (AdjacencyBlock.expandOut 0 (some 7)) := by
  have pre : ((new (.newMutable 0)).applyEach
      (linkedPair ++ [.deleteNode "b"])).generation.visits
        (AdjacencyBlock.expandOut 0 (some 7)) = some [(1, 0x3F800000)] := by
    decide +kernel
  have after : ((new (.newMutable 0)).applyEach
      (linkedPair ++ [.deleteNode "b"])).generation.sealGeneration.1.visits
        (AdjacencyBlock.expandOut 0 (some 7)) = some [] := by
    decide +kernel
  refine ⟨by decide +kernel, pre, after, ?_⟩
  rintro ⟨fst, snd, visited, sealedVisits, perm⟩
  cases visited
  cases sealedVisits
  exact absurd perm.length_eq (by decide)

end GraphMutationApplier
end HoloSphere.Graph
