import HoloSphere.Graph.Adjacency
import HoloSphere.Graph.Commands

/-! # The chains of a graph

However a generation has been written, the chains of a live node pass over exactly the edges
it owns, from the newest to the oldest.  Edge numbers have 32 bits, and one of them marks the
end of a chain, so this asks that the edges have not reached it.
-/

namespace HoloSphere.Graph
open Store GraphMutationApplier NodeArena Function Arena
open List hiding after count get
namespace Arena
variable {ρ : Type}

theorem record?_write (written : Nat) (arena : Arena ρ) : (arena.write written record).record? idx =
      if written = idx then (arena.record? idx).map fun _ => record
      else arena.record? idx := by
  simp only [record?, write, getElem?_modify]
  cases arena.slots[idx]? with
  | none => simp
  | some slot => by_cases same : written = idx <;> simp [same]

theorem record?_delete (idx : Nat) (arena : Arena ρ) :
    (arena.delete deleted).record? idx = arena.record? idx := by
  simp only [record?, delete, getElem?_modify]
  cases arena.slots[idx]? with
  | none => rfl
  | some slot => by_cases same : deleted = idx <;> simp [same]

theorem record?_eq_none {arena : Arena ρ} (outside : arena.slots.length ≤ idx) :
    arena.record? idx = none := by
  rw [record?, getElem?_eq_none outside]
  rfl

theorem record?_snoc {arena grown : Arena ρ}
    (slots : grown.slots = arena.slots ++ [⟨record, live⟩]) :
    grown.record? idx = if idx = arena.slots.length then some record else arena.record? idx := by
  unfold record?
  rw [slots]
  rcases Nat.lt_trichotomy idx arena.slots.length with less | same | more
  · rw [getElem?_append_left less, if_neg (Nat.ne_of_lt less)]
  · rw [same, if_pos rfl]
    simp
  · rw [if_neg (Nat.ne_of_gt more), getElem?_eq_none, getElem?_eq_none (Nat.le_of_lt more)]
    rw [length_append]
    exact more

theorem record?_push (idx : Nat) (arena : Arena ρ) : (arena.push record).record? idx =
      if idx = arena.slots.length then some record else arena.record? idx :=
  record?_snoc (show (arena.push record).slots = arena.slots ++ [⟨record, true⟩] from rfl)

theorem write_push (record written : ρ) (arena : Arena ρ) :
    ((arena.push record).write arena.slots.length written).slots =
      arena.slots ++ [⟨written, true⟩] := by
  rw [write, push]
  induction arena.slots with
  | nil => rfl
  | cons fst rest ih =>
    exact congrArg (fst :: ·) ih

end Arena

namespace NodeArena

theorem get_update : get node (update written record nodes) =
      if node = written then (get node nodes).map fun _ => record else get node nodes := by
  unfold get
  rw [isLive_update]
  by_cases live : nodes.isLive node
  · rw [if_pos live, if_pos live]
    by_cases same : node = written
    · rw [if_pos same, update, ← same, if_pos live, record?_write, if_pos rfl]
    · unfold update
      split
      · rw [record?_write, if_neg (Ne.symm same)]
      · rfl
  · rw [if_neg live, if_neg live]
    simp

theorem of_get_update (present : get written nodes = some old)
    (here : get node (update written fresh nodes) = some found) :
    node = written ∧ found = fresh ∨ node ≠ written ∧ get node nodes = some found := by
  rw [get_update] at here
  by_cases same : node = written
  · rw [if_pos same, same, present] at here
    exact .inl ⟨same, (Option.some.inj here).symm⟩
  · rw [if_neg same] at here
    exact .inr ⟨same, here⟩

theorem get_delete :
    get node (nodes.delete deleted) = if node = deleted then none else get node nodes := by
  have live := congrFun (isLive_delete deleted nodes) node
  unfold get
  rw [live, record?_delete]
  by_cases same : node = deleted
  · rw [same, update_self, if_pos rfl]
    rfl
  · rw [update_of_ne same, if_neg same]

theorem get_push : get node (nodes.push record) =
      if node = nodes.slots.length then some record else get node nodes := by
  have live := congrFun (isLive_push record nodes) node
  unfold get
  rw [live, record?_push]
  by_cases same : node = nodes.slots.length
  · rw [same, update_self, if_pos rfl, if_pos rfl, if_pos rfl]
  · rw [update_of_ne same, if_neg same, if_neg same]

theorem lt_of_get (found : get node nodes = some record) : node < nodes.slots.length := by
  unfold get at found
  by_contra outside
  rw [record?_eq_none (Nat.not_lt.mp outside)] at found
  split at found <;> cases found

theorem get_of_live {nodes : NodeArena} (live : nodes.isLive node = true) :
    ∃ record, get node nodes = some record := by
  unfold get
  rw [if_pos live]
  unfold isLive at live
  unfold record?
  cases present : nodes.slots[node]? with
  | none => simp [present] at live
  | some slot => exact ⟨slot.record, rfl⟩

end NodeArena

/-- The numbers of the edges that a node owns, the newest first. -/
def owned (side : Side) (node : NodeIndex) (delta : EdgeDelta) : List Nat :=
  ((range delta.slots.length).filter fun id =>
    (EdgeDelta.get id delta).any fun record => side.owner record = node).reverse

/-- From every live node the chain leads over the edges it owns. -/
def Threaded (side : Side) (nodes : NodeArena) (delta : EdgeDelta) : Prop :=
  ∀ node record, get node nodes = some record →
    Chain (fun id => (EdgeDelta.get id delta).map side.next) nullEdge (side.head record)
      (owned side node delta)

theorem lt_of_mem_owned {node : NodeIndex} {id : Nat} (mem : id ∈ owned side node delta) :
    id < delta.slots.length := by
  rw [owned, mem_reverse, mem_filter] at mem
  exact mem_range.mp mem.1

theorem length_owned_le : (owned side node delta).length ≤ delta.slots.length := by
  rw [owned, length_reverse]
  exact (length_filter_le _ _).trans_eq length_range

theorem owned_eq_nil
    (unowned : ∀ id record, EdgeDelta.get id delta = some record → side.owner record ≠ node) :
    owned side node delta = [] := by
  rw [owned, reverse_eq_nil_iff, filter_eq_nil_iff]
  intro id mem
  cases found : EdgeDelta.get id delta with
  | none => simp
  | some record => simpa using unowned id record found

theorem owned_grown (slots : grown.slots = delta.slots ++ [⟨record, true⟩]) :
    owned side node grown =
      if side.owner record = node then delta.slots.length :: owned side node delta
      else owned side node delta := by
  have older : (range delta.slots.length).filter (fun id =>
      (EdgeDelta.get id grown).any fun record => side.owner record = node) =
      (range delta.slots.length).filter (fun id =>
        (EdgeDelta.get id delta).any fun record => side.owner record = node) := by
    apply filter_congr
    intro id mem
    have below := mem_range.mp mem
    rw [EdgeDelta.get, EdgeDelta.get, record?_snoc slots, if_neg (Nat.ne_of_lt below)]
  have newest : EdgeDelta.get delta.slots.length grown = some record := by
    rw [EdgeDelta.get, record?_snoc slots, if_pos rfl]
  have size : grown.slots.length = delta.slots.length + 1 := by simp [slots]
  rw [owned, owned, size, range_succ, filter_append, older, reverse_append]
  by_cases same : side.owner record = node
  · simp [newest, same]
  · simp [newest, same]

section
variable (threaded : Threaded side nodes delta)
include threaded

theorem Threaded.of_nodes (heads : ∀ node record, get node after = some record →
      ∃ pre, get node nodes = some pre ∧ side.head record = side.head pre) :
    Threaded side after delta := by
  intro node record found
  obtain ⟨pre, earlier, same⟩ := heads node record found
  rw [same]
  exact threaded node pre earlier

theorem Threaded.push (head : side.head fresh = nullEdge)
    (unowned : ∀ id record, EdgeDelta.get id delta = some record →
      side.owner record ≠ nodes.slots.length) : Threaded side (nodes.push fresh) delta := by
  intro node record found
  rw [get_push] at found
  by_cases last : node = nodes.slots.length
  · rw [if_pos last] at found
    cases found
    rw [last, owned_eq_nil unowned, head]
    exact .stop
  · rw [if_neg last] at found
    exact threaded node record found

theorem Threaded.delete (id : Nat) : Threaded side nodes (delta.delete id) := by
  intro node record found
  have same : ∀ other, EdgeDelta.get other (delta.delete id) = EdgeDelta.get other delta :=
    fun other => record?_delete other delta
  have sameOwned : owned side node (delta.delete id) = owned side node delta := by
    simp [owned, same, length_delete]
  rw [sameOwned]
  apply (threaded node record found).congr
  exact fun place _ => by rw [same]

theorem Threaded.grow (slots : grown.slots = delta.slots ++ [⟨record, true⟩])
    (room : delta.slots.length ≠ nullEdge)
    (heads : ∀ node found, get node after = some found → ∃ pre, get node nodes = some pre ∧
        side.head found = (if node = side.owner record then delta.slots.length else side.head pre) ∧
        (node = side.owner record → side.next record = side.head pre)) :
    Threaded side after grown := by
  intro node found here
  obtain ⟨pre, earlier, head, next⟩ := heads node found here
  have kept : Chain (fun id => (EdgeDelta.get id grown).map side.next) nullEdge
      (side.head pre) (owned side node delta) := by
    apply (threaded node pre earlier).congr
    intro id mem
    rw [EdgeDelta.get, record?_snoc slots, if_neg (Nat.ne_of_lt (lt_of_mem_owned mem))]
    rfl
  rw [owned_grown slots, head]
  by_cases owner : node = side.owner record
  · rw [if_pos owner, if_pos owner.symm]
    refine .step room ?_ kept
    rw [EdgeDelta.get, record?_snoc slots, if_pos rfl]
    exact congrArg some (next owner)
  · rw [if_neg owner, if_neg (Ne.symm owner)]
    exact kept

end

/-- What `link` leaves: the record is the newest of the delta and points to what its ends had
    at their heads, and the ends have it at theirs. -/
structure LinkEffect (edge : EdgeRecord) (nodes : NodeArena) (delta : EdgeDelta)
    (after : NodeArena × EdgeDelta) (record : EdgeRecord) : Prop where
  slots : after.2.slots = delta.slots ++ [⟨record, true⟩]
  owner : ∀ side : Side, side.owner record = side.owner edge
  next : ∀ (side : Side) found, get (side.owner edge) nodes = some found →
    side.next record = side.head found
  heads : ∀ (side : Side) node found, get node after.1 = some found →
    ∃ pre, get node nodes = some pre ∧
      side.head found = (if node = side.owner edge then delta.slots.length else side.head pre)

theorem head_of_source (found : get src nodes = some source) (here : get node (update src
      { source with outRef := count, outDegree := degree } nodes) = some record) :
    ∃ pre, get node nodes = some pre ∧ record.outRef = (if node = src then count else pre.outRef) ∧
      record.inRef = pre.inRef := by
  rcases of_get_update found here with ⟨rfl, rfl⟩ | ⟨other, kept⟩
  · exact ⟨source, found, by rw [if_pos rfl], rfl⟩
  · exact ⟨record, kept, by rw [if_neg other], rfl⟩

theorem link_effect {edge : EdgeRecord} {source : GraphNodeRecord} {nodes : NodeArena}
    {delta : EdgeDelta} (found : get edge.srcNode nodes = some source)
    (room : delta.slots.length < 2 ^ 32) :
    ∃ record, LinkEffect edge nodes delta (link edge source nodes delta) record := by
  have id : delta.nextId = delta.slots.length := Nat.mod_eq_of_lt room
  unfold link
  simp only [id]
  cases tgt : get edge.dstNode (update edge.srcNode
      { source with
        outRef := delta.slots.length
        outDegree := saturatingSucc source.outDegree } nodes) with
  | none =>
    refine ⟨{ edge with nextSrc := source.outRef }, rfl, fun side => by cases side <;> rfl, ?_, ?_⟩
    · rintro (_ | _) record here
      · cases found.symm.trans here
        rfl
      · rw [get_update, show get edge.dstNode nodes = some record from here] at tgt
        split at tgt <;> cases tgt
    · rintro side node record here
      obtain ⟨pre, earlier, outRef, inRef⟩ := head_of_source found here
      refine ⟨pre, earlier, ?_⟩
      cases side with
      | out => exact outRef
      | into =>
        refine inRef.trans (if_neg fun same => ?_).symm
        cases (same ▸ here).symm.trans tgt
  | some record =>
    obtain ⟨old, earlier, oldOut, sameIn⟩ := head_of_source found tgt
    have pushed : EdgeDelta.get delta.slots.length
        (delta.push { edge with nextSrc := source.outRef }) =
          some { edge with nextSrc := source.outRef } := by
      rw [EdgeDelta.get, record?_push, if_pos rfl]
    refine ⟨{ edge with nextSrc := source.outRef, nextDst := record.inRef }, ?_,
      fun side => by cases side <;> rfl, ?_, ?_⟩
    · simp only [EdgeDelta.update, pushed, Option.getD_some]
      exact write_push ..
    · rintro (_ | _) pre here
      · cases found.symm.trans here
        rfl
      · cases earlier.symm.trans here
        exact sameIn
    · intro side node final here
      rcases of_get_update tgt here with ⟨rfl, rfl⟩ | ⟨other, kept⟩
      · refine ⟨old, earlier, ?_⟩
        cases side with
        | out => exact oldOut
        | into => exact (if_pos rfl).symm
      · obtain ⟨pre, present, outRef, inRef⟩ := head_of_source found kept
        refine ⟨pre, present, ?_⟩
        cases side with
        | out => exact outRef
        | into => exact inRef.trans (if_neg other).symm

theorem length_link_edges : (link edge source nodes delta).2.slots.length =
      delta.slots.length + 1 := by
  unfold link
  dsimp only
  split
  · exact length_push ..
  · exact (length_write ..).trans (length_push ..)

/-- Both ends of each edge are slots of nodes, and the chains of the live nodes lead over the
    edges that they own. -/
structure Linked (nodes : NodeArena) (delta : EdgeDelta) : Prop where
  placed : ∀ id record, EdgeDelta.get id delta = some record →
    ∀ side : Side, side.owner record < nodes.slots.length
  threaded : ∀ side, Threaded side nodes delta

section
variable (linked : Linked nodes delta)
include linked

theorem Linked.of_nodes (size : after.slots.length = nodes.slots.length)
    (heads : ∀ (side : Side) node record, get node after = some record →
      ∃ old, get node nodes = some old ∧ side.head record = side.head old) :
    Linked after delta where
  placed := by
    rw [size]
    exact linked.placed
  threaded side := (linked.threaded side).of_nodes (heads side)

theorem Linked.push (heads : ∀ side : Side, side.head fresh = nullEdge) :
    Linked (nodes.push fresh) delta where
  placed id record found side := by
    rw [length_push]
    exact Nat.lt_succ_of_lt (linked.placed id record found side)
  threaded side := (linked.threaded side).push (heads side)
    fun id record found => Nat.ne_of_lt (linked.placed id record found side)

theorem Linked.delete (id : Nat) : Linked nodes (delta.delete id) where
  placed other record found := by
    rw [EdgeDelta.get, record?_delete] at found
    exact linked.placed other record found
  threaded side := (linked.threaded side).delete id

theorem Linked.link {edge : EdgeRecord} (found : get edge.srcNode nodes = some source)
    (tgt : edge.dstNode < nodes.slots.length) (room : delta.slots.length < nullEdge) :
    Linked (link edge source nodes delta).1 (link edge source nodes delta).2 := by
  obtain ⟨record, eff⟩ := link_effect found (Nat.lt_trans room (by decide))
  refine ⟨fun id other here side => ?_, fun side => ?_⟩
  · rw [length_link]
    rw [EdgeDelta.get, record?_snoc eff.slots] at here
    split at here
    · cases here
      rw [eff.owner]
      cases side with
      | out => exact lt_of_get found
      | into => exact tgt
    · exact linked.placed id other here side
  · apply (linked.threaded side).grow eff.slots (Nat.ne_of_lt room)
    intro node final here
    obtain ⟨pre, earlier, head⟩ := eff.heads side node final here
    rw [eff.owner]
    exact ⟨pre, earlier, head, fun same => eff.next side pre (same ▸ earlier)⟩

end

namespace GraphMutationApplier

/-- Numbers are left for every slot, and the one that ends a chain is not used. -/
structure Numbered (app : GraphMutationApplier) : Prop where
  nodes : app.generation.nodes.slots.length ≤ 2 ^ 32
  edges : ∀ delta, app.generation.edgeDelta = some delta → delta.slots.length ≤ nullEdge

/-- No edge has been given the number that ends a chain. -/
def EdgesNumbered (app : GraphMutationApplier) : Prop :=
  ∀ delta, app.generation.edgeDelta = some delta → delta.slots.length ≤ nullEdge

/-- Mutations one after the other; one that fails may have done a part of its work. -/
def applyEach (ops : List GraphMutation) (app : GraphMutationApplier) : GraphMutationApplier :=
  ops.foldl (fun app op => (apply op app).1) app

/-- What every run keeps of an open generation.  Edge numbers come round, and with that the
    chains are lost. -/
structure Sound (app : GraphMutationApplier) (delta : EdgeDelta) : Prop where
  opened : app.generation.edgeDelta = some delta
  unsealed : app.generation.sealed = none
  named : ∀ extId node, app.nodeIdMap extId = some node → node < app.generation.nodes.slots.length
  linked : delta.slots.length ≤ nullEdge → Linked app.generation.nodes delta

variable {app after : GraphMutationApplier}

theorem sound_new (gen : Nat) : (new (.newMutable gen)).Sound {} where
  opened := rfl
  unsealed := rfl
  named _ _ named := nomatch named
  linked _ := ⟨(fun _ _ found => nomatch found), (fun _ _ _ found => nomatch found)⟩

section
variable (sound : app.Sound delta)
include sound

/-- A change that leaves the edges alone, and the nodes with the heads they had. -/
theorem Sound.of_nodes
    (opened : after.generation.edgeDelta = some delta) (unsealed : after.generation.sealed = none)
    (size : after.generation.nodes.slots.length = app.generation.nodes.slots.length)
    (named : ∀ extId node, after.nodeIdMap extId = some node → app.nodeIdMap extId = some node)
    (heads : ∀ (side : Side) node record, get node after.generation.nodes = some record →
      ∃ old, get node app.generation.nodes = some old ∧ side.head record = side.head old) :
    after.Sound delta where
  opened := opened
  unsealed := unsealed
  named extId node known := by
    rw [size]
    exact sound.named extId node (named extId node known)
  linked few := (sound.linked few).of_nodes size heads

/-- A change that leaves the topology alone. -/
theorem Sound.of_same (nodes : after.generation.nodes = app.generation.nodes)
    (edges : after.generation.edgeDelta = app.generation.edgeDelta)
    (sealed : after.generation.sealed = app.generation.sealed)
    (named : after.nodeIdMap = app.nodeIdMap) : after.Sound delta := by
  obtain ⟨opened, unsealed, known, linked⟩ := sound
  exact ⟨edges.trans opened, sealed.trans unsealed, by rwa [named, nodes], by rwa [nodes]⟩

theorem Sound.createNode (extId : String)
    (labels : List LabelId) (props : GraphProperties) (vectorSlot : Option NodeIndex) :
    (app.createNode extId labels props vectorSlot).1.Sound delta := by
  unfold GraphMutationApplier.createNode
  split
  · exact sound
  · have number : app.generation.nodes.nextId ≤ app.generation.nodes.slots.length := Nat.mod_le _ _
    refine ⟨sound.opened, sound.unsealed, fun other node known => ?_, fun few => ?_⟩
    · simp only [length_push]
      by_cases same : other = extId
      · rw [same] at known
        simp only [update_self, Option.some.injEq] at known
        rw [← known]
        exact Nat.lt_succ_of_le number
      · simp only [update_of_ne same] at known
        exact Nat.lt_succ_of_lt (sound.named other node known)
    · exact (sound.linked few).push fun side => by cases side <;> rfl

theorem Sound.deleteNode (extId : String) : (app.deleteNode extId).1.Sound delta := by
  unfold GraphMutationApplier.deleteNode
  cases app.nodeIdMap extId with
  | none => exact sound
  | some node =>
    apply sound.of_nodes
    · exact sound.opened
    · exact sound.unsealed
    · exact length_delete _ _
    · intro other idx known
      by_cases same : other = extId
      · rw [same] at known
        simp at known
      · simpa [update_of_ne same] using known
    · intro side other record found
      rw [get_delete] at found
      split at found
      · cases found
      · exact ⟨record, found, rfl⟩

theorem Sound.setNodeLabels (extId : String) (labels : List LabelId) (add : Bool) :
    (app.setNodeLabels extId labels add).1.Sound delta := by
  unfold GraphMutationApplier.setNodeLabels
  cases app.nodeIdMap extId with
  | none => exact sound
  | some node =>
    dsimp only
    cases present : get node app.generation.nodes with
    | none => exact sound
    | some record =>
      apply sound.of_nodes
      · exact sound.opened
      · exact sound.unsealed
      · exact length_update
      · exact fun _ _ known => known
      · intro side other found here
        rcases of_get_update present here with ⟨rfl, rfl⟩ | ⟨-, kept⟩
        · exact ⟨record, present, by cases side <;> rfl⟩
        · exact ⟨found, kept, rfl⟩

theorem Sound.createRelationship (relId : RelationshipId) (srcExt dstExt : String)
    (relType : RelTypeId) (props : GraphProperties) (weight : UInt32) :
    ∃ grown, (app.createRelationship relId srcExt dstExt relType props weight).1.Sound grown := by
  unfold GraphMutationApplier.createRelationship
  split
  · exact ⟨delta, sound⟩
  cases source : app.nodeIdMap srcExt with
  | none => exact ⟨delta, sound⟩
  | some src =>
    cases tgt : app.nodeIdMap dstExt with
    | none => exact ⟨delta, sound⟩
    | some dst =>
      simp only [sound.opened]
      cases found : get src app.generation.nodes with
      | none => exact ⟨delta, sound⟩
      | some record =>
        refine ⟨_, rfl, sound.unsealed, fun extId node known => ?_, fun few => ?_⟩
        · dsimp only
          rw [length_link]
          exact sound.named extId node known
        · rw [length_link_edges] at few
          exact (sound.linked (Nat.le_of_succ_le few)).link found (sound.named _ _ tgt) few

theorem Sound.deleteRelationship (relId : RelationshipId) :
    ∃ marked, (app.deleteRelationship relId).1.Sound marked := by
  unfold GraphMutationApplier.deleteRelationship
  cases app.relIdMap relId with
  | none => exact ⟨delta, sound⟩
  | some id =>
    simp only [sound.opened]
    refine ⟨delta.delete id, rfl, sound.unsealed, sound.named, fun few => ?_⟩
    rw [length_delete] at few
    exact (sound.linked few).delete id

theorem Sound.perform (cmd : GraphCommand) : ∃ after, (cmd.perform app).1.Sound after := by
  cases cmd with
  | validate op => exact ⟨delta, sound⟩
  | single op notBatch =>
    cases op with
    | batch => cases notBatch
    | createNode => exact ⟨delta, sound.createNode ..⟩
    | deleteNode => exact ⟨delta, sound.deleteNode ..⟩
    | setNodeLabels | removeNodeLabels => exact ⟨delta, sound.setNodeLabels ..⟩
    | createRelationship => exact sound.createRelationship ..
    | deleteRelationship => exact sound.deleteRelationship ..
    | patchNodeProperties | patchRelationshipProperties =>
      refine ⟨delta, ?_⟩
      simp only [GraphCommand.perform, apply, patchNodeProperties, patchRelProperties]
      split
      · exact sound
      · exact sound.of_same rfl rfl rfl rfl

end

theorem exists_sound (gen : Nat) (ops : List GraphMutation) :
    ∃ delta, ((new (.newMutable gen)).applyEach ops).Sound delta := by
  unfold applyEach
  apply foldlRecOn (motive := fun app => ∃ delta, Sound app delta) ops _ ⟨{}, sound_new gen⟩
  intro app sound op _
  rw [apply_eq_run]
  exact Program.run_keeps (fun cmd app (sound : ∃ delta, Sound app delta) =>
    sound.elim fun _ sound => sound.perform cmd) _ sound

end GraphMutationApplier
end HoloSphere.Graph
