import HoloSphere.Index.Model

/-! # What the index keeps true

Wiring changes neither the vectors of the slots nor their ids or visibility.  With that said once,
each operation has one effect on what a slot shows, and three facts hold in every index that is
reached: an id leads to the live slot that bears it, every slot has a vector of the dimension of
the index, and the territories hold live slots only, each where its address says.
-/

namespace HoloSphere.Index
open Function
open List hiding after
open Proof (NodeIndex)
open Rivero Metadata

/-- What a slot shows apart from its connections. -/
structure Face (C S : Type) where
  vector : List C
  normSq : S
  externalId : Option String
  live : Bool
  deriving DecidableEq

def Slot.face {C S : Type} (entry : Slot C S) : Face C S :=
  ⟨entry.vector, entry.normSq, entry.node.map Node.externalId, entry.live⟩

namespace HNSQRIndex
variable {C S : Type}

def faces (idx : HNSQRIndex C S) : List (Face C S) := idx.arena.map Slot.face

section
variable (idx : HNSQRIndex C S)

@[simp] theorem length_faces : idx.faces.length = idx.arena.length := length_map _

theorem isLive_eq (slot : NodeIndex) : idx.isLive slot = (idx.faces[slot]?).any Face.live := by
  rw [isLive, faces, getElem?_map, Option.any_map]
  rfl

theorem vectorSlice_eq (slot : NodeIndex) :
    idx.vectorSlice slot = (idx.faces[slot]?).elim [] Face.vector := by
  rw [vectorSlice, faces, getElem?_map, Option.elim_map]
  rfl

theorem map_face_mapIdx {arena : List (Slot C S)}
    (shown : ∀ slot entry, (change slot entry).face = entry.face) :
    (arena.mapIdx change).map Slot.face = arena.map Slot.face := by
  apply ext_getElem?
  intro slot
  simp [comp_def, shown]

theorem map_face_modify {arena : List (Slot C S)}
    (shown : ∀ entry, (change entry).face = shows entry.face) :
    (arena.modify slot change).map Slot.face = (arena.map Slot.face).modify slot shows := by
  apply ext_getElem?
  intro other
  simp only [getElem?_map, getElem?_modify]
  by_cases here : slot = other <;> cases arena[other]? <;> simp [here, shown]

@[simp] theorem faces_setWitnesses (witnesses : NodeIndex → List ScoredWitness) :
    (idx.setWitnesses witnesses).faces = idx.faces :=
  map_face_mapIdx fun _ entry => by simp [Slot.face, comp_def]

@[simp] theorem faces_setConnections (layers : NodeIndex → List (List NodeIndex)) :
    (idx.setConnections layers).faces = idx.faces :=
  map_face_mapIdx fun _ entry => by simp [Slot.face, comp_def]

@[simp] theorem faces_setLive : (idx.setLive slot live).faces =
      idx.faces.modify slot fun face => { face with live := live } :=
  map_face_modify (fun _ => rfl)

@[simp] theorem faces_forgetWitness : (idx.forgetWitness slot neighbor).faces = idx.faces := by
  unfold forgetWitness
  split
  · refine (map_face_modify (fun entry => ?_)).trans (modify_id _ _)
    simp [Slot.face, comp_def]
  · rfl

end

section
variable {pre : HNSQRIndex C S}

/-- The two differ in connections, witnesses and entry points only. -/
structure Rewired (pre after : HNSQRIndex C S) : Prop where
  config : after.config = pre.config
  dimension : after.dimension = pre.dimension
  faces : after.faces = pre.faces
  ids : after.idToIndex = pre.idToIndex
  territories : after.riveroIndex = pre.riveroIndex
  metadata : after.metadataIndex = pre.metadataIndex

/-- What an accepted insertion found and what it left. -/
structure Inserted (nums : Numerals) (arithmetic : Arithmetic C S) (route : Routing C S)
    (id : String) (data : List C) (attrs : Attributes) (pre after : HNSQRIndex C S) :
    Prop where
  length : data.length = pre.dimension
  fresh : pre.idToIndex id = none
  room : pre.arena.length < pre.maxCapacity
  config : after.config = pre.config
  dimension : after.dimension = pre.dimension
  faces : after.faces = pre.faces ++ [⟨data, arithmetic.normSq data, some id, true⟩]
  ids : after.idToIndex = update pre.idToIndex id (some pre.arena.length)
  territories : after.riveroIndex = if pre.config.riveroEnabled then
      pre.riveroIndex.insert (route.compile data) pre.arena.length
    else pre.riveroIndex
  metadata : after.metadataIndex = attach nums attrs pre.arena.length
    pre.metadataIndex

theorem faces_claim (id : String) (data : List C) (attrs : Attributes) (idx : HNSQRIndex C S) :
    (idx.claim nums arithmetic route id data drawn attrs).faces =
      idx.faces ++ [⟨data, arithmetic.normSq data, some id, false⟩] := by
  simp [claim, faces, Slot.face, Node.new]

theorem modify_concat {α : Type} (change : α → α) (last : α) (items : List α) :
    (items ++ [last]).modify items.length change = items ++ [change last] := by
  induction items with
  | nil => rfl
  | cons item items ih => exact congrArg (item :: ·) ih

theorem publish_effect (slot : NodeIndex) (idx : HNSQRIndex C S) :
    let pub := idx.publish route data slot
    pub.config = idx.config ∧ pub.dimension = idx.dimension ∧ pub.idToIndex = idx.idToIndex ∧
      pub.metadataIndex = idx.metadataIndex ∧
      (pub.riveroIndex = if idx.config.riveroEnabled then
        idx.riveroIndex.insert (route.compile data) slot else idx.riveroIndex) ∧
      pub.faces = idx.faces.modify slot fun face => { face with live := true } := by
  unfold publish
  split
  · refine ⟨rfl, rfl, rfl, rfl, rfl, (faces_setLive _).trans ?_⟩
    rw [← faces_setWitnesses idx]
    rfl
  · exact ⟨rfl, rfl, rfl, rfl, rfl, faces_setLive _⟩

theorem wire_rewired (route : Routing C S) (slot level : Nat) (idx : HNSQRIndex C S) :
    Rewired idx (idx.wire route slot level) := by
  have shown := faces_setConnections idx (route.connections idx slot)
  unfold wire
  split
  · exact ⟨rfl, rfl, shown, rfl, rfl, rfl⟩
  · split
    · exact ⟨rfl, rfl, shown, rfl, rfl, rfl⟩
    · exact ⟨rfl, rfl, shown, rfl, rfl, rfl⟩

variable {id : String}

theorem inserted_of_insert {data : List C} {drawn : Nat} {attrs : Attributes}
    (acc : pre.insert nums arithmetic route id data drawn attrs = .ok (after, slot)) :
    Inserted nums arithmetic route id data attrs pre after ∧ slot = pre.arena.length := by
  unfold insert at acc
  split at acc
  · cases acc
  rename_i length
  split at acc
  · cases acc
  rename_i fresh
  split at acc
  · cases acc
  rename_i room
  extract_lets claimed level pub at acc
  obtain ⟨config, dim, ids, md, territories, faces⟩ := publish_effect pre.arena.length
    (pre.claim nums arithmetic route id data drawn attrs)
  have shown : pub.faces = pre.faces ++ [⟨data, arithmetic.normSq data, some id, true⟩] := by
    have last := modify_concat (fun face : Face C S => { face with live := true })
      ⟨data, arithmetic.normSq data, some id, false⟩ pre.faces
    rw [length_faces] at last
    rw [faces, faces_claim, last]
  have done : Inserted nums arithmetic route id data attrs pre pub :=
    ⟨not_not.mp length, by simpa [contains] using fresh, not_le.mp room, config, dim, shown,
      ids, territories, md⟩
  split at acc
  · obtain ⟨rfl, rfl⟩ := Prod.mk.inj (Except.ok.inj acc)
    exact ⟨done, rfl⟩
  · split at acc
    · obtain ⟨rfl, rfl⟩ := Prod.mk.inj (Except.ok.inj acc)
      exact ⟨{ done with }, rfl⟩
    · obtain ⟨rfl, rfl⟩ := Prod.mk.inj (Except.ok.inj acc)
      have wired := wire_rewired route pre.arena.length level pub
      exact ⟨{ done with
        config := wired.config.trans done.config
        dimension := wired.dimension.trans done.dimension
        faces := wired.faces.trans done.faces
        ids := wired.ids.trans done.ids
        territories := wired.territories.trans done.territories
        metadata := wired.metadata.trans done.metadata }, rfl⟩

/-- What the removal of an id that exists leaves. -/
structure Removed (route : Routing C S) (id : String) (slot : NodeIndex)
    (pre after : HNSQRIndex C S) : Prop where
  held : pre.idToIndex id = some slot
  config : after.config = pre.config
  dimension : after.dimension = pre.dimension
  faces : after.faces = pre.faces.modify slot fun face => { face with live := false }
  ids : after.idToIndex = update pre.idToIndex id none
  territories : after.riveroIndex =
    pre.riveroIndex.evict (route.compile (pre.vectorSlice slot)) slot

theorem forgetWitness_rewired (neighbors : List NodeIndex) (idx : HNSQRIndex C S) :
    Rewired idx (neighbors.foldl (forgetWitness slot) idx) := by
  induction neighbors generalizing idx with
  | nil => exact ⟨rfl, rfl, rfl, rfl, rfl, rfl⟩
  | cons neighbor neighbors ih =>
    have rest := ih (idx.forgetWitness slot neighbor)
    have one : Rewired idx (idx.forgetWitness slot neighbor) := by
      refine ⟨?_, ?_, faces_forgetWitness idx, ?_, ?_, ?_⟩ <;>
      · unfold forgetWitness
        split <;> rfl
    exact ⟨rest.config.trans one.config, rest.dimension.trans one.dimension,
      rest.faces.trans one.faces, rest.ids.trans one.ids, rest.territories.trans one.territories,
      rest.metadata.trans one.metadata⟩

theorem removed_of_remove (held : pre.idToIndex id = some slot) :
    Removed route id slot pre (pre.remove route id).1 := by
  unfold remove
  rw [held]
  have forgotten := @forgetWitness_rewired _ _ slot (pre.witnessNeighbors slot)
    { pre.setLive slot false with
      idToIndex := update pre.idToIndex id none
      riveroIndex := pre.riveroIndex.evict (route.compile (pre.vectorSlice slot)) slot }
  exact ⟨held, forgotten.config, forgotten.dimension, forgotten.faces.trans (faces_setLive _),
    forgotten.ids, forgotten.territories⟩

theorem remove_of_unknown (unknown : pre.idToIndex id = none) :
    pre.remove route id = (pre, false) := by
  rw [remove, unknown]

end

structure WellFormed (arithmetic : Arithmetic C S) (route : Routing C S)
    (idx : HNSQRIndex C S) : Prop where
  /-- An id leads to the live slot that bears it. -/
  ids : ∀ id slot, idx.idToIndex id = some slot ↔
    ∃ face, idx.faces[slot]? = some face ∧ face.live = true ∧ face.externalId = some id
  written : ∀ face ∈ idx.faces, face.vector.length = idx.dimension ∧
    face.normSq = arithmetic.normSq face.vector ∧ face.externalId.isSome = true
  registered : idx.riveroIndex.Registered (fun slot => route.compile (idx.vectorSlice slot))
    fun slot => idx.isLive slot = true
  capacity : idx.arena.length ≤ idx.maxCapacity

theorem wellFormed_new (config : HNSQRConfig) (dim : Nat) :
    (new config dim : HNSQRIndex C S).WellFormed arithmetic route where
  ids id slot := by simp [new, faces]
  written face mem := nomatch mem
  registered := RiveroTerritoryIndex.registered_new
  capacity := Nat.zero_le _

theorem WellFormed.inserted (formed : pre.WellFormed arithmetic route) {id : String}
    {data : List C} {attrs : Attributes}
    (done : Inserted nums arithmetic route id data attrs pre after) :
    after.WellFormed arithmetic route := by
  have size : after.arena.length = pre.arena.length + 1 := by
    rw [← length_faces, done.faces, length_append, length_faces]
    rfl
  have earlier : ∀ slot, pre.isLive slot = true → slot < pre.arena.length := by
    intro slot live
    by_contra beyond
    rw [isLive, getElem?_eq_none (not_lt.mp beyond)] at live
    cases live
  have old : ∀ slot < pre.arena.length, after.faces[slot]? = pre.faces[slot]? := by
    intro slot hin
    rw [done.faces, getElem?_append_left (by simpa using hin)]
  have shown : ∀ slot face, after.faces[slot]? = some face ↔ pre.faces[slot]? = some face ∨
      slot = pre.arena.length ∧ face = ⟨data, arithmetic.normSq data, some id, true⟩ := by
    intro slot face
    rw [done.faces, ← length_faces]
    grind
  have own := (shown _ _).mpr (.inr ⟨rfl, rfl⟩)
  refine ⟨?_, ?_, ?_, ?_⟩
  · intro other slot
    rw [done.ids]
    by_cases here : other = id
    · subst here
      rw [update_self]
      constructor
      · rintro ⟨⟩
        exact ⟨_, own, rfl, rfl⟩
      · rintro ⟨face, found, live, bears⟩
        rcases (shown slot face).mp found with old | ⟨rfl, -⟩
        · have known := (formed.ids other slot).mpr ⟨face, old, live, bears⟩
          rw [done.fresh] at known
          cases known
        · rfl
    · rw [update_of_ne here, formed.ids]
      simp only [shown]
      constructor
      · rintro ⟨face, found, bears⟩
        exact ⟨face, .inl found, bears⟩
      · rintro ⟨face, found | ⟨-, rfl⟩, live, bears⟩
        · exact ⟨face, found, live, bears⟩
        · exact absurd (Option.some.inj bears).symm here
  · intro face mem
    rw [done.faces] at mem
    rw [done.dimension]
    rcases mem_append.mp mem with pre | last
    · exact formed.written face pre
    · cases mem_singleton.mp last
      exact ⟨done.length, rfl, rfl⟩
  · have kept : pre.riveroIndex.Registered
        (fun slot => route.compile (after.vectorSlice slot)) fun slot =>
          after.isLive slot = true := by
      refine formed.registered.congr fun slot live => ?_
      have hin := earlier slot live
      rw [isLive_eq] at live ⊢
      rw [vectorSlice_eq, vectorSlice_eq, old slot hin]
      exact ⟨live, rfl⟩
    rw [done.territories]
    split
    · have data : after.vectorSlice pre.arena.length = data := by
        rw [vectorSlice_eq, own]
        rfl
      have live : after.isLive pre.arena.length = true := by
        rw [isLive_eq, own]
        rfl
      have registered := kept.insert live
      rwa [data] at registered
    · exact kept
  · rw [size, maxCapacity, done.config]
    exact done.room

theorem WellFormed.removed (formed : pre.WellFormed arithmetic route) {id : String}
    {slot : NodeIndex} (done : Removed route id slot pre after) :
    after.WellFormed arithmetic route := by
  obtain ⟨face, found, live, bears⟩ := (formed.ids id slot).mp done.held
  have gone : after.faces[slot]? = some { face with live := false } := by
    rw [done.faces, getElem?_modify_eq, found]
    rfl
  have old : ∀ other, other ≠ slot → after.faces[other]? = pre.faces[other]? := by
    intro other apart
    rw [done.faces, getElem?_modify_ne _ _ (Ne.symm apart)]
  have vecs : ∀ other, after.vectorSlice other = pre.vectorSlice other := by
    intro other
    rw [vectorSlice_eq, vectorSlice_eq]
    by_cases here : other = slot
    · rw [here, gone, found]
      rfl
    · rw [old other here]
  have size : after.arena.length = pre.arena.length := by
    rw [← length_faces, done.faces, length_modify, length_faces]
  refine ⟨?_, ?_, ?_, ?_⟩
  · intro other place
    rw [done.ids]
    by_cases here : place = slot
    · rw [here, gone]
      refine ⟨fun same => ?_, ?_⟩
      · by_cases own : other = id
        · rw [own, update_self] at same
          cases same
        · rw [update_of_ne own] at same
          obtain ⟨again, shown, -, borne⟩ := (formed.ids other slot).mp same
          rw [found] at shown
          cases shown
          rw [bears] at borne
          exact absurd (Option.some.inj borne).symm own
      · rintro ⟨again, shown, alive, -⟩
        cases shown
        cases alive
    · rw [old place here, ← formed.ids]
      by_cases own : other = id
      · rw [own, update_self, done.held]
        simp [Ne.symm here]
      · rw [update_of_ne own]
  · intro shown mem
    rw [done.dimension]
    obtain ⟨place, hin, rfl⟩ := getElem_of_mem mem
    have seen := getElem?_eq_getElem hin
    by_cases here : place = slot
    · subst here
      rw [gone] at seen
      rw [← Option.some.inj seen]
      exact formed.written face (mem_of_getElem? found)
    · rw [old place here] at seen
      exact formed.written _ (mem_of_getElem? seen)
  · rw [done.territories]
    refine (formed.registered.evict slot).congr fun other alive => ?_
    rw [vecs]
    refine ⟨?_, rfl⟩
    rw [isLive_eq, old other alive.2, ← isLive_eq]
    exact alive.1
  · rw [size, maxCapacity, done.config]
    exact formed.capacity

theorem wellFormed_clear (pre : HNSQRIndex C S) : pre.clear.WellFormed arithmetic route where
  ids id slot := by simp [HNSQRIndex.clear, faces]
  written face mem := nomatch mem
  registered := RiveroTerritoryIndex.registered_new
  capacity := Nat.zero_le _

end HNSQRIndex
end HoloSphere.Index
