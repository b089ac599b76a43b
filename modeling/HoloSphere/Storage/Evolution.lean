import HoloSphere.Storage.LiveVersions

/-! # Replicated writes to the engine

What the writes of the replicated path keep of an engine, and when an upsert among
them fails.
-/

namespace HoloSphere.Storage.SegmentedEngine

/-- The active segment has the dimension and the capacity of the engine. -/
structure Sized (eng : SegmentedEngine) : Prop where
  dimension : eng.activeMutable.dimension = eng.dimension
  capacity : eng.activeMutable.maxCapacity = eng.maxMutableCapacity

theorem Sized.new (dim cap : Nat) : Sized (new dim cap) := ⟨rfl, rfl⟩

/-- What every write of the replicated path leaves in place. -/
structure Evolves (pre after : SegmentedEngine) : Prop where
  dimension : after.dimension = pre.dimension
  capacity : after.maxMutableCapacity = pre.maxMutableCapacity
  sized : Sized pre → Sized after

theorem Evolves.refl (eng : SegmentedEngine) : Evolves eng eng := ⟨rfl, rfl, id⟩

theorem Evolves.trans (fst : Evolves pre middle) (snd : Evolves middle after) : Evolves pre after :=
  ⟨snd.dimension.trans fst.dimension, snd.capacity.trans fst.capacity,
    snd.sized ∘ fst.sized⟩

theorem evolves_deleteInternal (id : NodeId) (eng : SegmentedEngine) :
    Evolves eng (eng.deleteInternal id).1 :=
  ⟨rfl, rfl, fun sized => ⟨sized.dimension, sized.capacity⟩⟩

theorem evolves_metadata (store : NodeId → Option Metadata) :
    Evolves eng { eng with metadataStore := store } :=
  ⟨rfl, rfl, fun sized => ⟨sized.dimension, sized.capacity⟩⟩

theorem evolves_rotateActive : Evolves eng eng.rotateActive :=
  ⟨rfl, rfl, fun _ => ⟨rfl, rfl⟩⟩

theorem evolves_activeTable :
    Evolves eng { eng with activeMutable := { eng.activeMutable with table := tbl } } :=
  ⟨rfl, rfl, fun sized => ⟨sized.dimension, sized.capacity⟩⟩

/-- What an insertion of a vector of the right dimension does.  With room for at least
    one vector it succeeds; without any it rotates the active segment and fails. -/
structure InsertEffect (eng : SegmentedEngine) (ans : SegmentedEngine × Except HNSQRError Unit) :
    Prop where
  evolves : Evolves eng ans.1
  succeeds : 0 < eng.maxMutableCapacity → ans.2 = .ok ()
  fails : eng.maxMutableCapacity = 0 → ∃ e, ans.2 = .error e

theorem insertActive_effect (sized : Sized eng) (id : NodeId) {vec : VectorEmbedding}
    (fits : vec.dimension = eng.dimension) :
    InsertEffect eng (eng.insertActive id vec) := by
  have cap := sized.capacity
  have inserted := insertActive_inserted id vec eng
  generalize eng.insertActive id vec = ans at inserted ⊢
  cases inserted with
  | refused e apart => exact absurd (fits.trans sized.dimension.symm) apart
  | rotated e same full unfit =>
    exact ⟨evolves_rotateActive, fun some => absurd ⟨fits, some⟩ unfit, fun _ => ⟨e, rfl⟩⟩
  | renewed same full fit =>
    exact ⟨evolves_rotateActive.trans evolves_activeTable, fun _ => rfl, fun none => by omega⟩
  | stored same room => exact ⟨evolves_activeTable, fun _ => rfl, fun none => by omega⟩

theorem applyCommittedUpsert_effect (sized : Sized eng) (id : NodeId) {vec : VectorEmbedding}
    (fits : vec.dimension = eng.dimension) (md : Option Metadata) :
    InsertEffect eng (eng.applyCommittedUpsert id vec md) := by
  have deleted := evolves_deleteInternal id eng
  obtain ⟨evolves, succeeds, fails⟩ := insertActive_effect (deleted.sized sized) id fits
  obtain ⟨metadata, upserted, -⟩ := applyCommittedUpsert_eq id vec md eng
  rw [upserted]
  exact ⟨(deleted.trans evolves).trans (evolves_metadata _), succeeds, fails⟩

end HoloSphere.Storage.SegmentedEngine
