import HoloSphere.Storage.Segment

/-! # One live version per id

The engine refines a map from ids to vectors: over all segments, the live slots of
an id are the one that its last write left, or none (`Holds`).  The proof needs
slot numbers to tell the slots of a segment apart, so it asks that no segment gets
more slots than a `u32` counts.
-/

namespace HoloSphere.Storage
open Store Function List SlotTable Nat

theorem eq_of_perm_of_length {α : Type} {fst snd : List α} (perm : fst.Perm snd)
    (short : snd.length ≤ 1) : fst = snd := by
  match snd with
  | [] => exact perm_nil.mp perm
  | [x] => exact perm_singleton.mp perm

theorem head_toList_of_length {α : Type} {list : List α} (short : list.length ≤ 1) :
    list.head?.toList = list := by
  match list with
  | [] => rfl
  | [x] => rfl

namespace SegmentedEngine

abbrev Contents := NodeId → Option VectorEmbedding

/-- The engine stores exactly the given map. -/
structure Holds (eng : SegmentedEngine) (cont : Contents) : Prop where
  bounded : eng.maxMutableCapacity ≤ slotNumbers
  capacity : eng.activeMutable.maxCapacity = eng.maxMutableCapacity
  dimension : eng.activeMutable.dimension = eng.dimension
  active : eng.activeMutable.table.Sound slotNumbers
  frozen : ∀ seg ∈ eng.immutableSegments, seg.table.Sound slotNumbers
  versions : ∀ id, (eng.versions id).Perm (cont id).toList

theorem Holds.new (dim : Nat) {cap : Nat} (bounded : cap ≤ slotNumbers) :
    Holds (new dim cap) fun _ => none where
  bounded := bounded
  capacity := rfl
  dimension := rfl
  active := .empty slotNumbers
  frozen _ mem := by cases mem
  versions _ := .refl _

theorem Holds.versions_eq (h : Holds eng cont) (id : NodeId) : eng.versions id = (cont id).toList :=
  eq_of_perm_of_length (h.versions id) (by cases cont id <;> simp)

def frozenVersions (id : NodeId) (eng : SegmentedEngine) : List VectorEmbedding :=
  eng.immutableSegments.flatMap fun seg => seg.table.versions slotNumbers id

variable (id : NodeId)

theorem versions_split (eng : SegmentedEngine) : eng.versions id =
      eng.activeMutable.table.versions slotNumbers id ++ eng.frozenVersions id := rfl

theorem Holds.frozenVersions_length (h : Holds eng cont) (id : NodeId) :
    (eng.frozenVersions id).length ≤ 1 := by
  have all := (h.versions id).length_eq
  have one : (cont id).toList.length ≤ 1 := by cases cont id <;> simp
  rw [versions_split, length_append] at all
  omega

theorem deleteInternal_frozen (eng : SegmentedEngine) :
    (eng.deleteInternal id).1.immutableSegments =
      eng.immutableSegments.map fun seg => { seg with table := seg.table.kill id } := by
  simp [deleteInternal, ImmutableSegment.delete]

theorem Holds.deleteInternal (h : Holds eng cont) (id : NodeId) :
    Holds (eng.deleteInternal id).1 (update cont id none) where
  __ := h
  active := h.active.kill id
  frozen seg mem := by
    rw [deleteInternal_frozen] at mem
    obtain ⟨old, hin, rfl⟩ := mem_map.mp mem
    exact (h.frozen old hin).kill id
  versions other := by
    have active : (eng.deleteInternal id).1.activeMutable.table =
        eng.activeMutable.table.kill id := rfl
    rw [versions_split, frozenVersions, deleteInternal_frozen, flatMap_map, active]
    by_cases same : other = id
    · subst same
      rw [update_self, h.active.kill_versions_self other, nil_append,
        Option.toList_none, flatMap_eq_nil_iff.mpr]
      exact fun seg hin => (h.frozen seg hin).kill_versions_self other
    · have kept : (eng.immutableSegments.flatMap fun seg =>
          (seg.table.kill id).versions slotNumbers other) = eng.frozenVersions other :=
        flatMap_congr fun seg hin => (h.frozen seg hin).kill_versions_other same
      rw [update_of_ne same, h.active.kill_versions_other same, kept]
      exact h.versions other

theorem Holds.rotateActive (h : Holds eng cont) : Holds eng.rotateActive cont where
  bounded := h.bounded
  capacity := rfl
  dimension := rfl
  active := .empty slotNumbers
  frozen seg mem := by
    rcases mem_append.mp mem with old | new
    · exact h.frozen seg old
    · obtain rfl := mem_singleton.mp new
      exact h.active
  versions id := by
    have frozen : eng.rotateActive.frozenVersions id =
        eng.frozenVersions id ++ eng.activeMutable.table.versions slotNumbers id := by
      simp [frozenVersions, SegmentedEngine.rotateActive, ImmutableSegment.freeze]
    have empty : eng.rotateActive.activeMutable.table.versions slotNumbers id = [] := rfl
    rw [versions_split, frozen, empty, nil_append]
    exact perm_append_comm.trans (h.versions id)

/-- The write that an insert of this vector leaves: none if it is refused. -/
def accepted (eng : SegmentedEngine) (vec : VectorEmbedding) : Option VectorEmbedding :=
  if vec.dimension = eng.dimension ∧ 1 ≤ eng.maxMutableCapacity then some vec else none

/-- The vector is the newest version of the id in the active segment. -/
def store (id : NodeId) (vec : VectorEmbedding) (eng : SegmentedEngine) : SegmentedEngine :=
  { eng with activeMutable := { eng.activeMutable with
    table := eng.activeMutable.table.put slotNumbers id vec } }

theorem Holds.store (h : Holds eng cont)
    (room : eng.activeMutable.table.slots.length < eng.maxMutableCapacity) {id : NodeId}
    (free : cont id = none) (vec : VectorEmbedding) :
    Holds (eng.store id vec) (update cont id (some vec)) where
  __ := h
  active := h.active.put (lt_of_lt_of_le room h.bounded) id vec
  versions other := by
    have space := lt_of_lt_of_le room h.bounded
    have pre := h.versions other
    rw [versions_split] at pre ⊢
    by_cases same : other = id
    · subst same
      rw [free, Option.toList_none, perm_nil, append_eq_nil_iff] at pre
      rw [update_self, SegmentedEngine.store, h.active.put_versions_self space]
      show ([vec] ++ eng.frozenVersions other).Perm [vec]
      rw [pre.2, append_nil]
    · rw [update_of_ne same, SegmentedEngine.store, h.active.put_versions_other space same vec]
      exact pre

/-- What the insertion into the active segment does. -/
inductive Inserted (id : NodeId) (vec : VectorEmbedding) (eng : SegmentedEngine) :
    SegmentedEngine × Except HNSQRError Unit → Prop
  | refused (e : HNSQRError) (apart : vec.dimension ≠ eng.activeMutable.dimension) :
      Inserted id vec eng (eng, .error e)
  | rotated (e : HNSQRError) (same : vec.dimension = eng.activeMutable.dimension)
      (full : eng.activeMutable.maxCapacity ≤ eng.activeMutable.table.slots.length)
      (unfit : ¬ (vec.dimension = eng.dimension ∧ 1 ≤ eng.maxMutableCapacity)) :
      Inserted id vec eng (eng.rotateActive, .error e)
  | renewed (same : vec.dimension = eng.activeMutable.dimension)
      (full : eng.activeMutable.maxCapacity ≤ eng.activeMutable.table.slots.length)
      (fit : vec.dimension = eng.dimension ∧ 1 ≤ eng.maxMutableCapacity) :
      Inserted id vec eng (eng.rotateActive.store id vec, .ok ())
  | stored (same : vec.dimension = eng.activeMutable.dimension)
      (room : eng.activeMutable.table.slots.length < eng.activeMutable.maxCapacity) :
      Inserted id vec eng (eng.store id vec, .ok ())

theorem insertActive_inserted (vec : VectorEmbedding) (eng : SegmentedEngine) :
    Inserted id vec eng (eng.insertActive id vec) := by
  unfold insertActive
  by_cases same : vec.dimension = eng.activeMutable.dimension
  case neg =>
    rw [MutableSegment.insert, if_pos same]
    exact .refused _ same
  by_cases full : eng.activeMutable.maxCapacity ≤ eng.activeMutable.table.slots.length
  case neg =>
    rw [MutableSegment.insert, if_neg (not_not.mpr same), if_neg full]
    exact .stored same (not_le.mp full)
  rw [MutableSegment.insert, if_neg (not_not.mpr same), if_pos full]
  dsimp only
  by_cases fits : vec.dimension = eng.rotateActive.activeMutable.dimension
  case neg =>
    rw [MutableSegment.insert, if_pos fits]
    exact .rotated _ same full fun fit => fits fit.1
  by_cases none : eng.rotateActive.activeMutable.maxCapacity ≤
    eng.rotateActive.activeMutable.table.slots.length
  · rw [MutableSegment.insert, if_neg (not_not.mpr fits), if_pos none]
    exact .rotated _ same full fun fit => not_succ_le_zero 0 (fit.2.trans none)
  · rw [MutableSegment.insert, if_neg (not_not.mpr fits), if_neg none]
    exact .renewed same full ⟨fits, not_le.mp none⟩

theorem Holds.insertActive (h : Holds eng cont) {id : NodeId} (free : cont id = none)
    (vec : VectorEmbedding) :
    Holds (eng.insertActive id vec).1 (update cont id (eng.accepted vec)) ∧
      ((eng.insertActive id vec).2 = .ok () ↔ (eng.accepted vec).isSome) := by
  have unchanged : update cont id none = cont := by
    rw [← free, update_eq_self]
  have cap := h.capacity
  have dim := h.dimension
  have inserted := insertActive_inserted id vec eng
  generalize eng.insertActive id vec = ans at inserted ⊢
  unfold accepted
  cases inserted with
  | refused e apart =>
    rw [if_neg fun fit => apart (fit.1.trans dim.symm), unchanged]
    exact ⟨h, by simp⟩
  | rotated e same full unfit =>
    rw [if_neg unfit, unchanged]
    exact ⟨h.rotateActive, by simp⟩
  | renewed same full fit =>
    rw [if_pos fit]
    exact ⟨h.rotateActive.store fit.2 free vec, by simp⟩
  | stored same room =>
    rw [if_pos ⟨same.trans dim, by omega⟩]
    exact ⟨h.store (by omega) free vec, by simp⟩

theorem Holds.insert (h : Holds eng cont) (id : NodeId) (vec : VectorEmbedding) :
    Holds (eng.insert id vec).1 (update cont id (eng.accepted vec)) ∧
      ((eng.insert id vec).2 = .ok () ↔ (eng.accepted vec).isSome) := by
  have deleted := h.deleteInternal id
  have written := deleted.insertActive (update_self id none cont) vec
  rw [update_idem] at written
  exact written

theorem Holds.of_metadata (h : Holds eng cont) (md : NodeId → Option Metadata) :
    Holds { eng with metadataStore := md } cont :=
  { h with }

/-- An upsert that goes through only adds the metadata. -/
theorem applyCommittedUpsert_eq (vec : VectorEmbedding) (md : Option Metadata)
    (eng : SegmentedEngine) :
    ∃ metadata, eng.applyCommittedUpsert id vec md =
        ({ (eng.insert id vec).1 with metadataStore := metadata }, (eng.insert id vec).2) ∧
      ((eng.insert id vec).2 = .ok () ∨ metadata = (eng.insert id vec).1.metadataStore) := by
  have same : eng.applyUpsertUnlogged id vec = eng.insert id vec := rfl
  unfold applyCommittedUpsert
  rw [same]
  rcases eng.insert id vec with ⟨written, e | _⟩
  · exact ⟨_, rfl, .inr rfl⟩
  · cases md with
    | none | some => exact ⟨_, rfl, .inl rfl⟩

theorem mergeSegments_versions {immutables : List ImmutableSegment}
    (fits : (immutables.flatMap ImmutableSegment.liveSlots).length ≤ slotNumbers) :
    (mergeSegments immutables).Sound slotNumbers ∧
    ∀ id, (immutables.flatMap fun seg => seg.table.versions slotNumbers id).length ≤ 1 →
      (mergeSegments immutables).versions slotNumbers id =
        immutables.flatMap fun seg => seg.table.versions slotNumbers id := by
  have reversed := immutables.reverse_perm.flatMap_right ImmutableSegment.liveSlots
  have start : Fresh slotNumbers ({} : SegmentTable) := ⟨.empty slotNumbers, rfl⟩
  obtain ⟨fresh, versions⟩ := start.foldl_absorb
    (immutables.reverse.flatMap ImmutableSegment.liveSlots) (by
      simpa using fits)
  refine ⟨fresh.sound, ?_⟩
  intro id single
  have empty : ({} : SegmentTable).versions slotNumbers id = [] := rfl
  have perm := immutables.reverse_perm.flatMap_right
    fun seg : ImmutableSegment => seg.table.versions slotNumbers id
  have short := le_trans (le_of_eq perm.length_eq) single
  have scanned : (immutables.reverse.flatMap ImmutableSegment.liveSlots).filterMap
      (valueFor id) =
      immutables.reverse.flatMap fun seg => seg.table.versions slotNumbers id := by
    rw [filterMap_flatMap]
    rfl
  unfold mergeSegments
  rw [versions id, if_pos empty, scanned, head_toList_of_length short]
  exact eq_of_perm_of_length perm single

theorem Holds.swapCompacted (h : Holds eng cont) {merged : SegmentTable}
    (sound : merged.Sound slotNumbers)
    (same : ∀ id, merged.versions slotNumbers id = eng.frozenVersions id) :
    Holds (eng.swapCompacted merged) cont where
  __ := h
  frozen seg mem := by
    obtain rfl := mem_singleton.mp mem
    exact sound
  versions id := by
    have frozen : (eng.swapCompacted merged).frozenVersions id = eng.frozenVersions id := by
      rw [← same id]
      exact append_nil _
    rw [versions_split, frozen]
    exact h.versions id

theorem Holds.compact (h : Holds eng cont)
    (fits : (eng.immutableSegments.flatMap ImmutableSegment.liveSlots).length ≤ slotNumbers) :
    Holds eng.compact.1 cont := by
  unfold SegmentedEngine.compact
  split
  · exact h
  · obtain ⟨sound, versions⟩ := mergeSegments_versions fits
    exact h.swapCompacted sound fun id => versions id (h.frozenVersions_length id)

section

inductive Op where
  | insert (id : NodeId) (vec : VectorEmbedding)
  | delete (id : NodeId)
  | applyCommittedUpsert (id : NodeId) (vec : VectorEmbedding) (md : Option Metadata)
  | applyDeleteUnlogged (id : NodeId)
  | rotateActive
  | compact

def step (eng : SegmentedEngine) : Op → SegmentedEngine
  | .insert id vec => (eng.insert id vec).1
  | .delete id => (eng.delete id).1
  | .applyCommittedUpsert id vec md => (eng.applyCommittedUpsert id vec md).1
  | .applyDeleteUnlogged id => (eng.applyDeleteUnlogged id).1
  | .rotateActive => eng.rotateActive
  | .compact => eng.compact.1

def run (eng : SegmentedEngine) (ops : List Op) : SegmentedEngine := ops.foldl step eng

theorem run_append (eng : SegmentedEngine) (fst snd : List Op) :
    eng.run (fst ++ snd) = (eng.run fst).run snd := foldl_append

/-- What the last operation on each id wrote. -/
def Op.write (cont : Contents) : Op → Contents
  | .insert id vec | .applyCommittedUpsert id vec _ =>
    update cont id (some vec)
  | .delete id | .applyDeleteUnlogged id => update cont id none
  | .rotateActive | .compact => cont

def lastWrites (ops : List Op) : Contents := ops.foldl Op.write fun _ => none

def Op.OfDimension (dim : Nat) : Op → Prop
  | .insert _ vec | .applyCommittedUpsert _ vec _ => vec.dimension = dim
  | _ => True

/-- A compaction meets no more live slots than slot numbers. -/
def Fits (eng : SegmentedEngine) : Op → Prop
  | .compact => (eng.immutableSegments.flatMap ImmutableSegment.liveSlots).length ≤ slotNumbers
  | _ => True

def FitsThroughout (eng : SegmentedEngine) : List Op → Prop
  | [] => True
  | op :: rest => eng.Fits op ∧ (eng.step op).FitsThroughout rest

theorem insertActive_config (vec : VectorEmbedding) (eng : SegmentedEngine) :
    (eng.insertActive id vec).1.dimension = eng.dimension ∧
      (eng.insertActive id vec).1.maxMutableCapacity = eng.maxMutableCapacity := by
  have inserted := insertActive_inserted id vec eng
  generalize eng.insertActive id vec = ans at inserted ⊢
  cases inserted with
  | refused | rotated | renewed | stored => exact ⟨rfl, rfl⟩

theorem step_config (eng : SegmentedEngine) (op : Op) : (eng.step op).dimension = eng.dimension ∧
      (eng.step op).maxMutableCapacity = eng.maxMutableCapacity := by
  cases op with
  | insert id vec => exact insertActive_config id vec _
  | delete id => exact ⟨rfl, rfl⟩
  | applyCommittedUpsert id vec md =>
    obtain ⟨metadata, upserted, -⟩ := applyCommittedUpsert_eq id vec md eng
    rw [step, upserted]
    exact insertActive_config id vec _
  | applyDeleteUnlogged | rotateActive => exact ⟨rfl, rfl⟩
  | compact =>
    simp only [step, compact]
    split <;> exact ⟨rfl, rfl⟩

variable {eng : SegmentedEngine}

theorem accepted_eq_some {vec : VectorEmbedding} (sized : vec.dimension = eng.dimension)
    (pos : 1 ≤ eng.maxMutableCapacity) :
    eng.accepted vec = some vec := if_pos ⟨sized, pos⟩

theorem Holds.insert_accepted (h : Holds eng cont) (pos : 1 ≤ eng.maxMutableCapacity)
    {vec : VectorEmbedding} (sized : vec.dimension = eng.dimension) (id : NodeId) :
    Holds (eng.insert id vec).1 (update cont id (some vec)) := by
  have written := (h.insert id vec).1
  rw [accepted_eq_some sized pos] at written
  exact written

theorem Holds.step (h : Holds eng cont) (pos : 1 ≤ eng.maxMutableCapacity) {op : Op}
    (sized : op.OfDimension eng.dimension) (fits : eng.Fits op) :
    Holds (eng.step op) (op.write cont) := by
  cases op with
  | insert id vec => exact h.insert_accepted pos sized id
  | delete id => exact h.deleteInternal id
  | applyCommittedUpsert id vec md =>
    obtain ⟨metadata, upserted, -⟩ := applyCommittedUpsert_eq id vec md eng
    rw [SegmentedEngine.step, upserted]
    exact (h.insert_accepted pos sized id).of_metadata metadata
  | applyDeleteUnlogged id => exact (h.of_metadata _).deleteInternal id
  | rotateActive => exact h.rotateActive
  | compact => exact h.compact fits

theorem Holds.run (ops : List Op) (h : Holds eng cont)
    (pos : 1 ≤ eng.maxMutableCapacity) (sized : ∀ op ∈ ops, op.OfDimension eng.dimension)
    (fits : eng.FitsThroughout ops) :
    Holds (eng.run ops) (ops.foldl Op.write cont) := by
  induction ops generalizing eng cont with
  | nil => exact h
  | cons op rest ih =>
    obtain ⟨dim, cap⟩ := eng.step_config op
    refine ih (h.step pos (sized op mem_cons_self) fits.1) ?_ ?_ fits.2
    · rw [cap]
      exact pos
    · intro other mem
      rw [dim]
      exact sized other (mem_cons_of_mem op mem)

end

/-- The live slots of an id are the one that the last write left, while no segment has
    more slots than there are slot numbers. -/
theorem one_live_version (dim cap : Nat) (ops : List Op) (pos : 1 ≤ cap)
    (sized : ∀ op ∈ ops, op.OfDimension dim) (bounded : cap ≤ slotNumbers)
    (fits : (new dim cap).FitsThroughout ops) (id : NodeId) :
    ((new dim cap).run ops).versions id = (lastWrites ops id).toList :=
  ((Holds.new dim bounded).run ops pos sized fits).versions_eq id

/-- A vector of dimension one. -/
def scalar (bits : UInt32) : VectorEmbedding := ⟨[(bits, 0)]⟩

/-- Ids are written again across rotations and the frozen segments are then merged. -/
def mergedOps : List Op :=
  [.insert "a" (scalar 1), .rotateActive, .insert "b" (scalar 2), .insert "a" (scalar 3),
    .rotateActive, .applyCommittedUpsert "c" (scalar 4) none, .compact, .delete "b"]

theorem merged_segments_hold_last_writes : ((new 1 2).run mergedOps).versions "a" = [scalar 3] ∧
      ((new 1 2).run mergedOps).versions "b" = [] := by
  have sized : ∀ op ∈ mergedOps, op.OfDimension 1 := by simp [mergedOps, Op.OfDimension, scalar,
    VectorEmbedding.dimension]
  have fits : (new 1 2).FitsThroughout mergedOps :=
    ⟨trivial, trivial, trivial, trivial, trivial, trivial, by simp only [Fits]; decide, trivial,
      trivial⟩
  exact ⟨one_live_version 1 2 mergedOps (by decide) sized (by decide) fits "a",
    one_live_version 1 2 mergedOps (by decide) sized (by decide) fits "b"⟩

theorem toString_injective {i j : Nat} (same : toString i = toString j) : i = j := by
  have digits := congrArg String.toList same
  have values := congrArg (fun chars => ofDigitChars 10 chars 0) digits
  simpa using values

def insertNumbered (i : Nat) : Op := .insert (toString i) (scalar 0)

/-- The active segment after the inserts of the first `n` numbers as ids. -/
structure Numbered (n : Nat) (eng : SegmentedEngine) : Prop where
  dimension : eng.activeMutable.dimension = 1
  capacity : eng.activeMutable.maxCapacity = slotNumbers + 1
  slots : eng.activeMutable.table.slots = (range n).map fun i => (toString i, scalar 0)
  slotOf : ∀ i, eng.activeMutable.table.slotOf (toString i) =
    if i < n then some (i % slotNumbers) else none
  tombstones : eng.activeMutable.table.tombstones = ∅
  frozen : eng.immutableSegments = []

theorem Numbered.step (h : Numbered n eng) (room : n ≤ slotNumbers) :
    Numbered (n + 1) (eng.step (insertNumbered n)) := by
  have absent : eng.activeMutable.table.slotOf (toString n) = none := by
    rw [h.slotOf n, if_neg (lt_irrefl n)]
  have untouched : (eng.deleteInternal (toString n)).1.activeMutable = eng.activeMutable := by
    simp only [deleteInternal, MutableSegment.delete, kill_absent absent]
  have length : eng.activeMutable.table.slots.length = n := by simp [h.slots]
  have stepped : eng.step (insertNumbered n) = { (eng.deleteInternal (toString n)).1 with
        activeMutable := { eng.activeMutable with
          table := eng.activeMutable.table.push slotNumbers (toString n) (scalar 0) } } := by
    have inserted := insertActive_inserted (toString n) (scalar 0)
      (eng.deleteInternal (toString n)).1
    have capacity := h.capacity
    rw [insertNumbered, SegmentedEngine.step, insert]
    generalize (eng.deleteInternal (toString n)).1.insertActive _ _ = ans at inserted ⊢
    cases inserted with
    | refused _ apart =>
      rw [untouched] at apart
      exact absurd h.dimension.symm apart
    | rotated _ _ full | renewed _ full =>
      rw [untouched] at full
      omega
    | stored =>
      simp only [store, untouched, put, kill_absent absent]
  rw [stepped]
  refine ⟨h.dimension, h.capacity, ?_, ?_, h.tombstones, ?_⟩
  · simp [h.slots, range_succ]
  · intro i
    simp only [push, length]
    by_cases same : i = n
    · rw [same, update_self, if_pos (lt_succ_self n)]
    · rw [update_of_ne fun equal => same (toString_injective equal), h.slotOf i]
      congr 1
      exact propext ⟨fun lt => by omega, fun lt => by omega⟩
  · rw [deleteInternal_frozen, h.frozen]
    rfl

theorem numbered_run (room : n ≤ slotNumbers + 1) :
    Numbered n ((new 1 (slotNumbers + 1)).run ((range n).map insertNumbered)) := by
  induction n with
  | zero => exact ⟨rfl, rfl, rfl, fun _ => rfl, rfl, rfl⟩
  | succ n ih =>
    have pre := ih (by omega)
    rw [range_succ, map_append, run_append]
    exact pre.step (by omega)

/-- As many inserts as there are slot numbers and one more, then a delete of the first. -/
def wrappingOps : List Op := (range (slotNumbers + 1)).map insertNumbered ++ [.delete (toString 0)]

theorem lastWrites_wrapping : lastWrites wrappingOps (toString slotNumbers) = some (scalar 0) := by
  have apart : toString slotNumbers ≠ toString 0 := fun same =>
    absurd (toString_injective same) (by decide)
  unfold lastWrites wrappingOps
  rw [range_succ, map_append, foldl_append, foldl_append]
  simp only [map_cons, map_nil, foldl_cons, foldl_nil, Op.write,
    insertNumbered, update_of_ne apart, update_self]

/-- The delete of the first id also buries the slot whose number wrapped to zero. -/
theorem Numbered.wrapped (h : Numbered (slotNumbers + 1) eng) :
    (eng.step (.delete (toString 0))).versions (toString slotNumbers) = [] := by
  have mapped : eng.activeMutable.table.slotOf (toString 0) = some 0 := by
    rw [h.slotOf 0, if_pos (succ_pos _), zero_mod]
  have frozen : (eng.step (.delete (toString 0))).immutableSegments = [] := by
    show (eng.deleteInternal (toString 0)).1.immutableSegments = []
    rw [deleteInternal_frozen, h.frozen]
    rfl
  have tbl : (eng.step (.delete (toString 0))).activeMutable.table =
      eng.activeMutable.table.kill (toString 0) := rfl
  rw [versions_split, frozenVersions, frozen, flatMap_nil, append_nil, tbl,
    eq_nil_iff_forall_not_mem]
  intro vec mem
  obtain ⟨position, found⟩ := mem_live.mp (mem_versions.mp mem)
  unfold liveAt at found
  rw [kill_tombstones mapped, kill_slots, h.slots, h.tombstones] at found
  split at found
  case isTrue => cases found
  case isFalse alive =>
    rw [getElem?_map] at found
    obtain ⟨i, here, named⟩ := Option.map_eq_some_iff.mp found
    obtain ⟨hin, rfl⟩ := List.getElem?_eq_some_iff.mp here
    rw [getElem_range] at named
    have last := toString_injective (congrArg Prod.fst named)
    rw [last, mod_self] at alive
    exact alive (Finset.mem_insert_self 0 _)

theorem wrapped_slot_loses_its_insert :
    ((new 1 (slotNumbers + 1)).run wrappingOps).versions (toString slotNumbers) ≠
      (lastWrites wrappingOps (toString slotNumbers)).toList := by
  have lost := (numbered_run (le_refl _)).wrapped
  rw [lastWrites_wrapping, wrappingOps, run_append]
  intro live
  have nothing : [] = [scalar 0] := lost.symm.trans live
  cases nothing

end SegmentedEngine
end HoloSphere.Storage
