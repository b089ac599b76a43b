import HoloSphere.Graph.Threads

/-! # What a traversal of a chain visits

The chain of a live node passes over all the edges the node owns, tombstoned ones included;
the traversal hands out those that are live.  The number that ends a chain is also the number
of the last edge a delta can hold, and that edge takes the whole chain of its node with it.
-/

namespace HoloSphere.Graph
open Store EdgeDelta NodeArena
open List hiding count

theorem filterMap_owned (side : Side) (node : NodeIndex) (delta : EdgeDelta) :
    ((owned side node delta).filterMap (liveAt delta)).Perm
      ((liveEdges delta).filter fun entry => side.owner entry.2 = node) := by
  rw [owned, filterMap_reverse, liveEdges, filter_filterMap, filterMap_filter]
  apply (reverse_perm _).trans
  apply Perm.of_eq
  apply filterMap_congr
  intro id _
  simp only [EdgeDelta.get, Arena.record?, EdgeDelta.liveAt]
  obtain absent | ⟨slot, present⟩ := Option.eq_none_or_eq_some delta.slots[id]?
  · simp [absent]
  · cases live : slot.live <;> simp [present, live, Option.filter]

/-- The chain comes to its end, and its traversal has handed out each live edge of the node
    once and nothing else. -/
structure VisitsLiveEdges (side : Side) (node : NodeIndex) (head : Nat) (delta : EdgeDelta)
    (visits : List (Nat × EdgeRecord)) : Prop where
  walked : iterChain side.next head delta = some visits
  ends : ∃ places, Chain (fun id => (get id delta).map side.next) nullEdge head places
  once : (visits.map Prod.fst).Nodup
  exactly : ∀ id record, (id, record) ∈ visits ↔
    delta.isLive id = true ∧ get id delta = some record ∧ side.owner record = node

theorem liveAt_eq_some {delta : EdgeDelta} {id : Nat} {entry : Nat × EdgeRecord} :
    liveAt delta id = some entry ↔
      entry.1 = id ∧ delta.isLive id = true ∧ get id delta = some entry.2 := by
  unfold EdgeDelta.liveAt Arena.isLive EdgeDelta.get Arena.record?
  obtain ⟨number, record⟩ := entry
  cases delta.slots[id]? with
  | none => simp
  | some slot =>
    simp only [Option.map_some, Option.some.injEq]
    cases slot.live <;> simp [eq_comm]

theorem mem_liveEdges {delta : EdgeDelta} {id : Nat} {record : EdgeRecord} :
    (id, record) ∈ liveEdges delta ↔ delta.isLive id = true ∧ get id delta = some record := by
  simp only [liveEdges, mem_filterMap, mem_range, liveAt_eq_some]
  constructor
  · rintro ⟨number, -, rfl, present⟩
    exact present
  · rintro ⟨live, found⟩
    refine ⟨id, ?_, rfl, live, found⟩
    by_contra outside
    rw [EdgeDelta.get, Arena.record?_eq_none (Nat.not_lt.mp outside)] at found
    cases found

theorem nodup_liveEdges : ((liveEdges delta).map Prod.fst).Nodup := by
  have numbers : ((liveEdges delta).map Prod.fst).Sublist
      (range delta.slots.length) := by
    rw [liveEdges, map_filterMap]
    induction range delta.slots.length with
    | nil => exact .slnil
    | cons id rest ih =>
      rw [filterMap_cons]
      cases here : liveAt delta id with
      | none => exact ih.cons id
      | some entry =>
        have same := (liveAt_eq_some.mp here).1
        simpa [same] using ih
  exact numbers.nodup nodup_range

theorem Threaded.visits (threaded : Threaded side nodes delta)
    (found : get node nodes = some record) :
    ∃ visits, VisitsLiveEdges side node (side.head record) delta visits := by
  have chain := threaded node record found
  have walked := chain.walk_eq (Nat.lt_succ_of_le (length_owned_le))
  have same := filterMap_owned side node delta
  refine ⟨(owned side node delta).filterMap (liveAt delta), ?_, ⟨_, chain⟩, ?_, ?_⟩
  · rw [iterChain, walked, Option.map_some]
  · rw [(same.map Prod.fst).nodup_iff]
    exact (filter_sublist.map Prod.fst).nodup (nodup_liveEdges)
  · intro id edge
    rw [same.mem_iff, mem_filter, mem_liveEdges, decide_eq_true_iff, and_assoc]

namespace GraphMutationApplier
variable {app : GraphMutationApplier}

/-- As long as no edge has the number that ends a chain, the chains of a live node end, and
    lead to each of its live edges once and to no other. -/
theorem chains_visit_live_edges (gen : Nat) (ops : List GraphMutation)
    (numbered : ((new (.newMutable gen)).applyEach ops).EdgesNumbered) :
    let reached := ((new (.newMutable gen)).applyEach ops).generation
    ∃ delta, reached.edgeDelta = some delta ∧ ∀ node record, get node reached.nodes = some record →
        (∃ visits, iterOutChain record.outRef delta = some visits ∧
          VisitsLiveEdges .out node record.outRef delta visits) ∧
        (∃ visits, iterInChain record.inRef delta = some visits ∧
          VisitsLiveEdges .into node record.inRef delta visits) := by
  obtain ⟨delta, sound⟩ := exists_sound gen ops
  have threaded := (sound.linked (numbered delta sound.opened)).threaded
  refine ⟨delta, sound.opened, fun node record found => ?_⟩
  obtain ⟨outgoing, visitsOut⟩ := (threaded .out).visits found
  obtain ⟨incoming, visitsIn⟩ := (threaded .into).visits found
  exact ⟨⟨outgoing, visitsOut.walked, visitsOut⟩, ⟨incoming, visitsIn.walked, visitsIn⟩⟩

/-- Two nodes, the first linked to the second by two edges of different types. -/
def linkedPair : List GraphMutation :=
  [.createNode "a" [] ∅ none, .createNode "b" [] ∅ none,
    .createRelationship 1 "a" "b" 7 ∅ 0x3F800000, .createRelationship 2 "a" "b" 8 ∅ 0x40000000]

theorem linkedPair_chains_visit_live_edges :
    let reached := ((new (.newMutable 0)).applyEach linkedPair).generation
    reached.nodes.isLive 0 = true ∧ ∃ delta, reached.edgeDelta = some delta ∧
      ∀ node record, get node reached.nodes = some record →
        (∃ visits, iterOutChain record.outRef delta = some visits ∧
          VisitsLiveEdges .out node record.outRef delta visits) ∧
        (∃ visits, iterInChain record.inRef delta = some visits ∧
          VisitsLiveEdges .into node record.inRef delta visits) := by
  have numbered : ((new (.newMutable 0)).applyEach linkedPair).EdgesNumbered := by
    intro delta opened
    cases opened
    decide +kernel
  exact ⟨by decide +kernel, chains_visit_live_edges 0 linkedPair numbered⟩

/-- One node, linked to itself as often as asked. -/
def selfLoops (count : Nat) : List GraphMutation :=
  .createNode "a" [] ∅ none ::
    (range count).map fun id => .createRelationship id "a" "a" 0 ∅ 0x3F800000

/-- The node is there, with so many edges, and later names for edges are free. -/
structure SelfLinked (count : Nat) (app : GraphMutationApplier) (delta : EdgeDelta) : Prop where
  opened : app.generation.edgeDelta = some delta
  edges : delta.slots.length = count
  named : app.nodeIdMap "a" = some 0
  live : app.generation.nodes.isLive 0 = true
  free : ∀ id, count ≤ id → app.relIdMap id = none

/-- One more edge stands last in the delta, and the node has its number at its head. -/
theorem SelfLinked.link (linked : SelfLinked count app delta) (room : count < 2 ^ 32) :
    let after := (apply (.createRelationship count "a" "a" 0 ∅ 0x3F800000) app).1
    ∃ record edge grown, SelfLinked (count + 1) after grown ∧
      get 0 after.generation.nodes = some record ∧ record.outRef = count ∧
      grown.slots = delta.slots ++ [⟨edge, true⟩] ∧ edge.srcNode = 0 := by
  obtain ⟨src, found⟩ := get_of_live linked.live
  have fits : delta.slots.length < 2 ^ 32 := linked.edges.symm ▸ room
  let loop : EdgeRecord := { relType := 0, srcNode := 0, dstNode := 0, weight := 0x3F800000 }
  obtain ⟨edge, eff⟩ := @link_effect loop src app.generation.nodes delta found fits
  have live : (GraphMutationApplier.link loop src app.generation.nodes delta).1.isLive 0 =
      true := (isLive_link ..).trans linked.live
  obtain ⟨record, head⟩ := get_of_live live
  obtain ⟨before, -, outRef⟩ := eff.heads .out 0 record head
  have free : app.relIdMap count = none := linked.free count (Nat.le_refl count)
  simp only [apply, createRelationship, free, linked.named, linked.opened, found,
    Option.isSome_none, Bool.false_eq_true, if_false]
  refine ⟨record, edge, _, ⟨rfl, ?_, linked.named, live, fun id later => ?_⟩, head, ?_,
    eff.slots, eff.owner .out⟩
  · rw [length_link_edges, linked.edges]
  · simp only [Function.update_of_ne (Nat.ne_of_gt later)]
    exact linked.free id (Nat.le_of_succ_le later)
  · exact (outRef.trans (if_pos rfl)).trans linked.edges

theorem applyEach_selfLoops_succ : app.applyEach (selfLoops (count + 1)) =
      (apply (.createRelationship count "a" "a" 0 ∅ 0x3F800000)
        (app.applyEach (selfLoops count))).1 := by
  simp [applyEach, selfLoops, range_succ]

theorem selfLinked_selfLoops (room : count ≤ 2 ^ 32) :
    ∃ delta, SelfLinked count ((new (.newMutable 0)).applyEach (selfLoops count)) delta := by
  induction count with
  | zero => exact ⟨{}, rfl, rfl, rfl, rfl, fun _ _ => rfl⟩
  | succ count ih =>
    obtain ⟨delta, linked⟩ := ih (Nat.le_of_succ_le room)
    obtain ⟨record, edge, grown, after, -⟩ := linked.link room
    rw [applyEach_selfLoops_succ]
    exact ⟨grown, after⟩

/-- The edge numbered last is live and owned by a live node, whose chain is empty with it. -/
theorem last_edge_ends_its_chain : ∃ ops : List GraphMutation,
      let reached := ((new (.newMutable 0)).applyEach ops).generation
      ∃ record delta edge, get 0 reached.nodes = some record ∧
        reached.edgeDelta = some delta ∧ delta.isLive nullEdge = true ∧
        get nullEdge delta = some edge ∧ edge.srcNode = 0 ∧
        iterOutChain record.outRef delta = some [] := by
  obtain ⟨delta, linked⟩ := @selfLinked_selfLoops nullEdge (by decide)
  obtain ⟨record, edge, grown, after, found, head, slots, src⟩ := linked.link (by decide)
  rw [← applyEach_selfLoops_succ] at after found
  have last : grown.slots[nullEdge]? = some ⟨edge, true⟩ := by
    rw [slots, ← linked.edges]
    exact getElem?_concat_length ..
  refine ⟨selfLoops (nullEdge + 1), record, grown, edge, found, after.opened, ?_, ?_, src, ?_⟩
  · rw [Arena.isLive, last]
  · rw [EdgeDelta.get, Arena.record?, last]
    rfl
  · rw [head, iterOutChain, iterChain, walk, if_pos rfl]
    rfl

end GraphMutationApplier
end HoloSphere.Graph
